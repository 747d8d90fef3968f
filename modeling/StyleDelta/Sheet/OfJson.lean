import StyleDelta.Sheet.Basic

/-!
Stylesheets from the JSON trees that CSS parsers write.

The tree is an object of type `stylesheet` whose body holds the nodes. Rules,
comments, media queries and the blocks `supports`, `document` and `host` have
shapes of their own; a node of any other type is kept as it stands, without its
type and its positions. A tree that does not fit is refused at the first fault
met on the way from the root, each array taken in order.
-/

namespace StyleDelta

/-- A step from a JSON value to a part of it. -/
inductive Step where
  | member (name : String)
  | index (i : Nat)
  deriving DecidableEq, Repr

def Step.text : Step → String
  | .member name => s!".{name}"
  | .index i => s!"[{i}]"

/-- The text of the steps from the root to a place. -/
def placeText (place : List Step) : String := "$" ++ String.join (place.map Step.text)

/-- The part of a value that the steps lead to. -/
def Json.at? : List Step → Json → Option Json
  | [], value => some value
  | .member name :: rest, value => (value.get? name).bind (at? rest)
  | .index i :: rest, value => (value.arr?.bind (·[i]?)).bind (at? rest)

inductive Reason where
  | notObject
  | rootType (found : String)
  | rootUntyped
  | noBody
  | parserErrors (count : Nat)
  | notNodes
  | untyped
  | noSelectors
  | selectorNotString
  | notItems
  | noString (field : String)
  deriving DecidableEq, Repr

def Reason.message : Reason → String
  | .notObject => "expected an object"
  | .rootType found => s!"expected \"stylesheet\", found \"{found}\""
  | .rootUntyped => "not a stylesheet tree"
  | .noBody => "missing \"stylesheet\" body"
  | .parserErrors count => s!"parser reported {count} error(s)"
  | .notNodes => "expected an array of nodes"
  | .untyped => "node has no \"type\""
  | .noSelectors => "rule has no selectors"
  | .selectorNotString => "selector is not a string"
  | .notItems => "expected an array of declarations"
  | .noString field => s!"missing string field \"{field}\""

/-- Why a tree is no stylesheet, and the steps from its root to the fault. -/
structure Misfit where
  place : List Step
  reason : Reason
  deriving DecidableEq, Repr

/-- The members of an object. -/
abbrev Members := List (String × Json)

/-! ## Places in the source text -/

/-- A line or a column: a whole number of 64 bits. -/
def coordinate? : Json → Option Nat
  | .num (.int (.ofNat n)) => if n < wordBound then some n else none
  | _ => none

/-- A line and a column, as an object or as a pair. -/
def Span.ofStart? : Json → Option Span
  | .obj members => do
    let line ← (members.lookup "line").bind coordinate?
    let column ← (members.lookup "column").bind coordinate?
    return ⟨line, column⟩
  | .arr [line, column] => do return ⟨← coordinate? line, ← coordinate? column⟩
  | _ => none

def Span.ofPosition? : Json → Option Span
  | .obj members => (members.lookup "start").bind ofStart?
  | .arr [start] => ofStart? start
  | _ => none

/-- The place of a node or item; anything but a well-formed position is unknown. -/
def Span.ofMembers (members : Members) : Span :=
  ((members.lookup "position").bind ofPosition?).getD unknown

/-! ## Parts of nodes -/

def membersOf (place : List Step) (value : Json) : Except Misfit Members :=
  match value.obj? with
  | some members => .ok members
  | none => .error ⟨place, .notObject⟩

def typeOf (place : List Step) (members : Members) : Except Misfit String :=
  match (members.lookup "type").bind Json.str? with
  | some kind => .ok kind
  | none => .error ⟨place, .untyped⟩

def stringOf (place : List Step) (members : Members) (field : String) : Except Misfit String :=
  match (members.lookup field).bind Json.str? with
  | some text => .ok text
  | none => .error ⟨place, .noString field⟩

/-- The results for the items of an array, from index `i` on; the first error wins. -/
def eachItem (load : List Step → α → Except Misfit β) (place : List Step) (i : Nat) :
    List α → Except Misfit (List β)
  | [] => .ok []
  | item :: rest => do
    let first ← load (place ++ [.index i]) item
    return first :: (← eachItem load place (i + 1) rest)

def selectorOf (place : List Step) (value : Json) : Except Misfit String :=
  match value.str? with
  | some text => .ok text
  | none => .error ⟨place, .selectorNotString⟩

def selectorsOf (place : List Step) (members : Members) : Except Misfit (List String) :=
  match (members.lookup "selectors").bind Json.arr? with
  | some items => eachItem selectorOf (place ++ [.member "selectors"]) 0 items
  | none => .error ⟨place, .noSelectors⟩

def itemOf (place : List Step) (value : Json) : Except Misfit RuleItem := do
  let members ← membersOf place value
  let span := Span.ofMembers members
  let kind ← typeOf place members
  if kind = "declaration" then
    let property ← stringOf place members "property"
    let value ← stringOf place members "value"
    return .declaration ⟨property, value, span⟩
  else if kind = "comment" then return .comment ⟨← stringOf place members "comment", span⟩
  else return .other (value.erase "position")

/-- The items of a rule; a rule may leave them out. -/
def itemsOf (place : List Step) (members : Members) : Except Misfit (List RuleItem) :=
  let place := place ++ [.member "declarations"]
  match members.lookup "declarations" with
  | none | some .null => .ok []
  | some (.arr items) => eachItem itemOf place 0 items
  | some _ => .error ⟨place, .notItems⟩

/-- The name of a block: its type, after the vendor's part of the name. -/
def blockKind (members : Members) (kind : String) : String :=
  (((members.lookup "vendor").bind Json.str?).getD "") ++ kind

/-- What stands between the name of a block and its nodes. -/
def blockPrelude (members : Members) (kind : String) : String :=
  ((members.lookup kind).bind Json.str?).getD ""

/-- What is kept of a node of another type. -/
def payloadOf (members : Members) : Json :=
  .obj (Json.eraseMembers "position" (members.filter (·.1 ≠ "type")))

/-! ## Nodes -/

mutual

def nodeOf (place : List Step) : Json → Except Misfit Node
  | .obj members => do
    let kind ← typeOf place members
    let span := Span.ofMembers members
    if kind = "rule" then
      let selectors ← selectorsOf place members
      let items ← itemsOf place members
      return .rule ⟨selectors, items, span⟩
    else if kind = "comment" then
      return .comment ⟨← stringOf place members "comment", span⟩
    else if kind = "media" then
      let query ← stringOf place members "media"
      let children ← childrenOf (place ++ [.member "rules"]) members
      return .media query children span
    else if kind = "supports" ∨ kind = "document" ∨ kind = "host" then
      let children ← childrenOf (place ++ [.member "rules"]) members
      return .group (blockKind members kind) (blockPrelude members kind) children span
    else return .other kind (payloadOf members) span
  | _ => .error ⟨place, .notObject⟩
termination_by structural value => value

/-- The nodes of the member `rules`, whose place is given. -/
def childrenOf (place : List Step) : Members → Except Misfit (List Node)
  | [] => .error ⟨place, .notNodes⟩
  | (name, value) :: rest =>
    if name = "rules" then nodesOf place value else childrenOf place rest
termination_by structural members => members

def nodesOf (place : List Step) : Json → Except Misfit (List Node)
  | .arr items => nodesFrom place 0 items
  | _ => .error ⟨place, .notNodes⟩
termination_by structural value => value

def nodesFrom (place : List Step) (i : Nat) : List Json → Except Misfit (List Node)
  | [] => .ok []
  | item :: rest => do
    let node ← nodeOf (place ++ [.index i]) item
    return node :: (← nodesFrom place (i + 1) rest)
termination_by structural items => items

end

theorem nodesFrom_eq_eachItem (place : List Step) (i : Nat) (items : List Json) :
    nodesFrom place i items = eachItem nodeOf place i items := by
  induction items generalizing i with
  | nil => rfl
  | cons item rest ih => simp only [nodesFrom, eachItem, ih]

theorem childrenOf_eq_lookup (place : List Step) (members : Members) :
    childrenOf place members =
      match members.lookup "rules" with
      | some value => nodesOf place value
      | none => .error ⟨place, .notNodes⟩ := by
  induction members with
  | nil => rfl
  | cons member rest ih =>
    obtain ⟨name, value⟩ := member
    by_cases h : name = "rules"
    · subst h
      simp [childrenOf]
    · simp [childrenOf, List.lookup_cons, h, ih, beq_eq_false_iff_ne.mpr (Ne.symm h)]

/-- The stylesheet that a tree describes. -/
def Stylesheet.ofJson (tree : Json) : Except Misfit Stylesheet := do
  let root ← membersOf [] tree
  match (root.lookup "type").bind Json.str? with
  | none => .error ⟨[], .rootUntyped⟩
  | some kind =>
    if kind ≠ "stylesheet" then .error ⟨[.member "type"], .rootType kind⟩
    else match root.lookup "stylesheet" with
      | none => .error ⟨[], .noBody⟩
      | some body =>
        let members ← membersOf [.member "stylesheet"] body
        match (members.lookup "parsingErrors").bind Json.arr? with
        | some (error :: more) =>
          .error ⟨[.member "stylesheet", .member "parsingErrors"],
            .parserErrors (error :: more).length⟩
        | _ => return ⟨← childrenOf [.member "stylesheet", .member "rules"] members⟩

end StyleDelta
