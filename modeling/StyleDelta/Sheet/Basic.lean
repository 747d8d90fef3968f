import StyleDelta.Json.Basic

/-!
Stylesheets as trees: rules, blocks with nested nodes, comments, and everything
else as the JSON that describes it.

Places in the source text are carried by most parts, for reports only. Equality
of two sheets, `Stylesheet.eqv`, is equality of everything, places and comments
included; it differs from `=` in the numbers of JSON parts alone.
-/

namespace StyleDelta

/-- A place in the source text; line and column are zero where it is unknown. -/
structure Span where
  line : Nat
  column : Nat
  deriving DecidableEq, Repr

namespace Span

def unknown : Span := ⟨0, 0⟩

instance : Inhabited Span := ⟨unknown⟩

def isUnknown (span : Span) : Bool := span = unknown

def text (span : Span) : String :=
  if span.isUnknown then "<unknown>" else s!"{span.line}:{span.column}"

end Span

structure Declaration where
  property : String
  value : String
  span : Span
  deriving DecidableEq, Repr

structure Comment where
  text : String
  span : Span
  deriving DecidableEq, Repr

/-- What stands between the braces of a rule; an item of another kind is its JSON
description. -/
inductive RuleItem where
  | declaration (d : Declaration)
  | comment (c : Comment)
  | other (description : Json)

structure Rule where
  selectors : List String
  items : List RuleItem
  span : Span

inductive Node where
  | rule (r : Rule)
  /-- `@media` with its query. -/
  | media (query : String) (children : List Node) (span : Span)
  /-- Another block of nodes, such as `@supports` or `@-moz-document`. -/
  | group (kind : String) (prelude : String) (children : List Node) (span : Span)
  | comment (c : Comment)
  /-- An at-rule of any other kind: its name and its JSON description. -/
  | other (kind : String) (payload : Json) (span : Span)
  deriving Inhabited

structure Stylesheet where
  nodes : List Node

instance : EmptyCollection Stylesheet := ⟨⟨[]⟩⟩

def RuleItem.eqv : RuleItem → RuleItem → Bool
  | .declaration a, .declaration b => a = b
  | .comment a, .comment b => a = b
  | .other a, .other b => a.eqv b
  | _, _ => false

def Rule.eqv (r s : Rule) : Bool :=
  r.selectors = s.selectors && r.items.isEqv s.items RuleItem.eqv && r.span = s.span

/-- The declarations among the items of a rule. -/
def Rule.declarations (r : Rule) : List Declaration :=
  r.items.filterMap fun
    | .declaration d => some d
    | _ => none

/-- The items of a rule that are no comments. -/
def Rule.contents (r : Rule) : List RuleItem :=
  r.items.filter fun
    | .comment _ => false
    | _ => true

namespace Node

def span : Node → Span
  | rule r => r.span
  | media _ _ span => span
  | group _ _ _ span => span
  | comment c => c.span
  | other _ _ span => span

/-- The name of the kind of node, an at-rule's own name where it has one. -/
def kind : Node → String
  | rule _ => "rule"
  | media _ _ _ => "media"
  | group kind _ _ _ => kind
  | comment _ => "comment"
  | other kind _ _ => kind

def isComment : Node → Bool
  | comment _ => true
  | _ => false

def rule? : Node → Option Rule
  | rule r => some r
  | _ => none

/-- The nested nodes of a block. -/
def children? : Node → Option (List Node)
  | media _ children _ => some children
  | group _ _ children _ => some children
  | _ => none

mutual

def eqv : Node → Node → Bool
  | rule r, rule s => r.eqv s
  | media q xs s, media r ys t => q = r && eqvAll xs ys && s = t
  | group k p xs s, group l q ys t => k = l && p = q && eqvAll xs ys && s = t
  | comment c, comment d => c = d
  | other k p s, other l q t => k = l && p.eqv q && s = t
  | _, _ => false
termination_by structural node => node

def eqvAll : List Node → List Node → Bool
  | [], [] => true
  | x :: xs, y :: ys => eqv x y && eqvAll xs ys
  | _, _ => false
termination_by structural nodes => nodes

end

theorem eqvAll_eq_isEqv (xs ys : List Node) : eqvAll xs ys = xs.isEqv ys eqv := by
  induction xs generalizing ys with
  | nil => cases ys <;> rfl
  | cons x xs ih => cases ys <;> simp [eqvAll, List.isEqv, ih]

end Node

def Stylesheet.eqv (a b : Stylesheet) : Bool := Node.eqvAll a.nodes b.nodes

end StyleDelta
