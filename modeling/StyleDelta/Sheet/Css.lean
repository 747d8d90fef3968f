import StyleDelta.Sheet.Basic
import StyleDelta.Json.Writer
import StyleDelta.Text.Blank

/-!
The CSS text of a stylesheet, and the label of a node.

A node stands at a depth, and each depth indents by four spaces. Selectors are
written one a line and texts as they are, so only the first line of a text is
indented. Items of no known kind are written inside comments.
-/

namespace StyleDelta

def indent (depth : Nat) : String := String.ofList (List.replicate (4 * depth) ' ')

def commentCss (depth : Nat) (text : String) : String :=
  indent depth ++ "/*" ++ text ++ "*/\n"

def declarationCss (depth : Nat) (property value : String) : String :=
  indent depth ++ property ++ ": " ++ value ++ ";\n"

def RuleItem.css (depth : Nat) : RuleItem → String
  | .declaration d => declarationCss depth d.property d.value
  | .comment c => commentCss depth c.text
  | .other description =>
    indent depth ++ "/* " ++ String.ofList description.compact ++ " */\n"

def Rule.css (depth : Nat) (r : Rule) : String :=
  indent depth ++ ",\n".intercalate r.selectors ++ " \x7b\n" ++
    String.join (r.items.map (RuleItem.css (depth + 1))) ++ indent depth ++ "\x7d\n"

/-- The opening line of a block. -/
def blockHead (depth : Nat) (kind : String) (prelude : String) : String :=
  indent depth ++ "@" ++ kind ++ (if prelude.isEmpty then "" else " " ++ prelude) ++ " \x7b\n"

/-- The prelude of an at-rule, a string under the at-rule's own name. -/
def payloadPrelude? (kind : String) (payload : Json) : Option String :=
  (payload.get? kind).bind Json.str?

/-- A declaration from its JSON description, if that has both texts. -/
def describedCss (depth : Nat) (description : Json) : String :=
  match (description.get? "property").bind Json.str?,
    (description.get? "value").bind Json.str? with
  | some property, some value => declarationCss depth property value
  | _, _ => ""

/-- An at-rule of no known shape: its prelude, or else a block with the
declarations that its description lists. -/
def payloadCss (depth : Nat) (kind : String) (payload : Json) : String :=
  match payloadPrelude? kind payload with
  | some prelude => indent depth ++ "@" ++ kind ++ " " ++ prelude ++ ";\n"
  | none =>
    let declarations := ((payload.get? "declarations").bind Json.arr?).getD []
    indent depth ++ "@" ++ kind ++ " \x7b\n" ++
      String.join (declarations.map (describedCss (depth + 1))) ++ indent depth ++ "\x7d\n"

namespace Node

mutual

def css (depth : Nat) : Node → String
  | rule r => r.css depth
  | media query children _ =>
    blockHead depth "media" query ++ cssAll (depth + 1) children ++ indent depth ++ "\x7d\n"
  | group kind prelude children _ =>
    blockHead depth kind prelude ++ cssAll (depth + 1) children ++ indent depth ++ "\x7d\n"
  | comment c => commentCss depth c.text
  | other kind payload _ => payloadCss depth kind payload
termination_by structural node => node

def cssAll (depth : Nat) : List Node → String
  | [] => ""
  | node :: rest => css depth node ++ cssAll depth rest
termination_by structural nodes => nodes

end

/-- A short name for a node: the selectors of a rule, the head of an at-rule. -/
def label : Node → String
  | rule r => ", ".intercalate r.selectors
  | media query _ _ => "@media " ++ query
  | group kind prelude _ _ => Text.trimRight ("@" ++ kind ++ " " ++ prelude)
  | comment c => "/*" ++ c.text ++ "*/"
  | other kind payload _ =>
    match payloadPrelude? kind payload with
    | some prelude => "@" ++ kind ++ " " ++ prelude
    | none => "@" ++ kind

end Node

/-- The text of a sheet, with an empty line after each node. -/
def Stylesheet.css (sheet : Stylesheet) : String :=
  String.join (sheet.nodes.map fun node => node.css 0 ++ "\n")

end StyleDelta
