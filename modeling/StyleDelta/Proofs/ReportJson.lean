import StyleDelta.Proofs.Json.Pretty
import StyleDelta.Report

/-!
What the JSON report says.

Read with the reader of style sheets, the report is an object of four members: the verdict, and
the CSS texts of the extra, missing and modified nodes in their order. The texts come back
unchanged, whatever characters they hold, as the report is an indented text like any other
(`Json.ofText_pretty`); only the two sides of a modification stand in another order, that of
their names.
-/

namespace StyleDelta

open Json

namespace Modification

variable (m : Modification)

theorem within_json (depth : Nat) : Within (depth + 1) m.json := by
  refine .obj ?_
  simp only [List.forall_mem_cons]
  exact ⟨.str _, .str _, by simp⟩

theorem ordered_json :
    m.json.ordered = .obj [("after", .str (m.after.css 0)), ("before", .str (m.before.css 0))] := by
  have hnames : "after" < "before" := by decide
  simp [json, ordered, orderedMembers, Json.insert, hnames]

end Modification

namespace Difference

/-- The member of a report for the nodes that one side lacks. -/
theorem within_texts (depth : Nat) (nodes : List Node) :
    Within (depth + 1) (.arr (nodes.map fun node => .str (node.css 0))) :=
  .arr (List.forall_mem_map.mpr fun node _ => .str (node.css 0))

theorem within_json (depth : Nat) (d : Difference) : Within (depth + 3) d.json := by
  have hmodified : Within (depth + 2) (.arr (d.modified.map Modification.json)) :=
    .arr (List.forall_mem_map.mpr fun m _ => m.within_json depth)
  refine .obj ?_
  simp only [List.forall_mem_cons]
  exact ⟨.bool d.changed, within_texts _ d.extra, within_texts _ d.missing, hmodified, by simp⟩

/-- **The JSON report reads back as what it reports.** -/
theorem ofText_jsonText (d : Difference) :
    Json.ofText d.jsonText = .ok (.obj [("changed", .bool d.changed),
      ("extra", .arr (d.extra.map fun node => .str (node.css 0))),
      ("missing", .arr (d.missing.map fun node => .str (node.css 0))),
      ("modified", .arr (d.modified.map fun m =>
        .obj [("after", .str (m.after.css 0)), ("before", .str (m.before.css 0))]))]) := by
  have hnames : ["changed", "extra", "missing", "modified"].Pairwise (· < ·) := by decide
  rw [jsonText, ofText_pretty (within_json 124 d), json, ordered_obj]
  · simp [ordered, orderedItems_eq_map, Function.comp_def, Modification.ordered_json]
  · exact hnames

end Difference

end StyleDelta
