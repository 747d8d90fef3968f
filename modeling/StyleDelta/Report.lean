import StyleDelta.Difference
import StyleDelta.Sheet.Css
import StyleDelta.Text.Lines

/-!
The two reports of a difference.

The text report names what is missing (`-`), extra (`+`) and modified (`~`), each
with its CSS text on indented lines. The JSON report holds the same CSS texts.
-/

namespace StyleDelta

/-- A node on one side only. -/
def entryText (mark : String) (node : Node) : String :=
  mark ++ " " ++ node.label ++ "\n" ++ Text.markLines "    " (node.css 0)

def Modification.text (m : Modification) : String :=
  "~ " ++ m.before.label ++ "\n" ++ Text.markLines "  - " (m.before.css 0) ++
    Text.markLines "  + " (m.after.css 0)

def Modification.json (m : Modification) : Json :=
  .obj [("before", .str (m.before.css 0)), ("after", .str (m.after.css 0))]

namespace Difference

def text (d : Difference) : String :=
  (if d.changed then "changed: true\n" else "changed: false\n") ++
    String.join (d.missing.map (entryText "-")) ++
    String.join (d.extra.map (entryText "+")) ++
    String.join (d.modified.map Modification.text)

/-- The members in the order of the report. -/
def json (d : Difference) : Json :=
  .obj [("changed", .bool d.changed),
    ("extra", .arr (d.extra.map fun node => .str (node.css 0))),
    ("missing", .arr (d.missing.map fun node => .str (node.css 0))),
    ("modified", .arr (d.modified.map Modification.json))]

def jsonText (d : Difference) : String := String.ofList (d.json.pretty 0) ++ "\n"

end Difference

end StyleDelta
