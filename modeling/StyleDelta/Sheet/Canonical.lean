import StyleDelta.Sheet.Basic
import StyleDelta.Text.Canonical

/-!
The canonical form of a stylesheet.

Comments are dropped at every depth, selectors, queries and preludes have the
canonical spelling of selectors, and declaration values that of values. Inside
the JSON description of an at-rule the same is done to whatever looks like a
comment, a declaration or a rule; an item of a rule that is of no known kind
stays as it is. Places in the source text are kept.
-/

namespace StyleDelta

/-! ## Descriptions of at-rules -/

namespace Json

/-- The member `type` of an object where it is a string. -/
def type? (value : Json) : Option String := (value.get? "type").bind str?

/-- The value with `f` applied to it if it is a string. -/
def mapStr (f : String → String) : Json → Json
  | .str s => .str (f s)
  | value => value

/-- The object with `f` applied to the string under a name. -/
def mapStrAt (name : String) (f : String → String) : Json → Json
  | .obj members => .obj (members.map fun (key, value) =>
      (key, if key = name then value.mapStr f else value))
  | value => value

/-- The canonical form of a member that holds texts in an object of a type: the
value of a declaration or the selectors of a rule. -/
def canonicalText? (kind : Option String) (name : String) : Json → Option Json
  | .str s =>
    if kind = some "declaration" ∧ name = "value" then some (.str (Text.canonicalValue s))
    else none
  | .arr items =>
    if kind = some "rule" ∧ name = "selectors" then
      some (.arr (items.map (mapStr Text.canonicalSelector)))
    else none
  | _ => none

mutual

/-- The canonical form of a description; comments are dropped from its arrays. -/
def canonical : Json → Json
  | .arr items => .arr (canonicalItems items)
  | .obj members => .obj (canonicalMembers ((members.lookup "type").bind str?) members)
  | value => value
termination_by structural value => value

def canonicalItems : List Json → List Json
  | [] => []
  | item :: rest =>
    if item.type? = some "comment" then canonicalItems rest
    else canonical item :: canonicalItems rest
termination_by structural items => items

/-- The members of an object of a type. -/
def canonicalMembers (kind : Option String) : List (String × Json) → List (String × Json)
  | [] => []
  | (name, value) :: rest =>
    (name, (canonicalText? kind name value).getD (canonical value)) :: canonicalMembers kind rest
termination_by structural members => members

end

theorem canonicalItems_eq_map_filter (items : List Json) :
    canonicalItems items = (items.filter (·.type? ≠ some "comment")).map canonical := by
  induction items with
  | nil => rfl
  | cons item rest ih =>
    by_cases h : item.type? = some "comment" <;> simp [canonicalItems, h, ih]

theorem canonicalMembers_eq_map (kind : Option String) (members : List (String × Json)) :
    canonicalMembers kind members = members.map fun (name, value) =>
      (name, (canonicalText? kind name value).getD (canonical value)) := by
  induction members with
  | nil => rfl
  | cons member rest ih => rw [canonicalMembers, List.map_cons, ih]

end Json

/-! ## Nodes -/

def Declaration.canonical (d : Declaration) : Declaration :=
  { d with value := Text.canonicalValue d.value }

/-- The canonical form of an item; comments have none. -/
def RuleItem.canonical? : RuleItem → Option RuleItem
  | .declaration d => some (.declaration d.canonical)
  | .comment _ => none
  | .other description => some (.other description)

def Rule.canonical (r : Rule) : Rule :=
  ⟨r.selectors.map Text.canonicalSelector, r.items.filterMap RuleItem.canonical?, r.span⟩

/-- The canonical description of an at-rule, whose prelude is under its own name. -/
def canonicalPayload (kind : String) (payload : Json) : Json :=
  payload.canonical.mapStrAt kind Text.canonicalSelector

namespace Node

mutual

/-- The canonical form of a node; comments have none. -/
def canonical? : Node → Option Node
  | comment _ => none
  | rule r => some (rule r.canonical)
  | media query children span =>
    some (media (Text.canonicalSelector query) (canonicalNodes children) span)
  | group kind prelude children span =>
    some (group kind (Text.canonicalSelector prelude) (canonicalNodes children) span)
  | other kind payload span => some (other kind (canonicalPayload kind payload) span)
termination_by structural node => node

/-- The canonical forms of siblings, in their order. -/
def canonicalNodes : List Node → List Node
  | [] => []
  | node :: rest =>
    match canonical? node with
    | some form => form :: canonicalNodes rest
    | none => canonicalNodes rest
termination_by structural nodes => nodes

end

theorem canonicalNodes_eq_filterMap (nodes : List Node) :
    canonicalNodes nodes = nodes.filterMap canonical? := by
  induction nodes with
  | nil => rfl
  | cons node rest ih =>
    rw [canonicalNodes, List.filterMap_cons, ih]
    cases canonical? node <;> rfl

end Node

def Stylesheet.canonical (sheet : Stylesheet) : Stylesheet := ⟨Node.canonicalNodes sheet.nodes⟩

end StyleDelta
