import StyleDelta.Proofs.Json.Compact
import StyleDelta.Proofs.Json.Zeros
import StyleDelta.Proofs.Rearrangement

/-!
The identity of at-rules beyond media and groups.

It holds the text of the description, and from the text the description can be told
(`otherIdentity_faithful`), so nothing is left to compare once two such at-rules are
joined. The other way round the text says more than equality of values: it shows the
sign of a zero. Equal at-rules have one identity exactly if their zeros have the same
signs, and equal sheets are unchanged if those of their at-rules have
(`equalSheets_unchanged`); without that they need not be (`zeroSheets_changed`).
-/

namespace StyleDelta

/-- **At-rules of one identity have one kind and one description**, because different
descriptions have different texts. -/
theorem otherIdentity_faithful :
    Function.Injective Json.compact ∧
      ∀ (kind kind' : String) (payload payload' : Json) (span span' : Span),
        (Node.other kind payload span).identity? = (Node.other kind' payload' span').identity? ↔
          kind = kind' ∧ payload = payload' := by
  refine ⟨Json.compact_injective, fun kind kind' payload payload' span span' => ?_⟩
  simp [Node.identity?, Json.compact_injective.eq_iff]

namespace Node

/-! ## Equal nodes -/

mutual

/-- The signs of the zeros in the descriptions of at-rules, at any depth. -/
def zeroSigns : Node → List Bool
  | other _ payload _ => payload.zeroSigns
  | media _ children _ => zeroSignsAll children
  | group _ _ children _ => zeroSignsAll children
  | rule _ => []
  | comment _ => []
termination_by structural node => node

def zeroSignsAll : List Node → List Bool
  | [] => []
  | node :: rest => zeroSigns node ++ zeroSignsAll rest
termination_by structural nodes => nodes

end

/-- The canonical forms have one identity and the same contents, or there are none. -/
def SameForm (x y : Node) : Prop :=
  Option.Rel (fun f g => f.identity? = g.identity? ∧ f.Agrees g) x.canonical? y.canonical?

theorem corresponds_of_sameForm {xs ys : List Node} (h : List.Forall₂ SameForm xs ys) :
    Corresponds (canonicalNodes xs) (canonicalNodes ys) := by
  induction h with
  | nil => exact fun _ => .nil
  | @cons x y xs ys hxy _ ih =>
    unfold SameForm at hxy
    simp only [canonicalNodes]
    generalize x.canonical? = form at hxy ⊢
    generalize y.canonical? = form' at hxy ⊢
    cases hxy with
    | some h => exact .cons h.1 h.2 ih
    | none => exact ih

theorem rule_sameForm {r s : Rule} (h : r.eqv s = true) : SameForm (.rule r) (.rule s) := by
  simp only [Rule.eqv, Bool.and_eq_true, decide_eq_true_eq] at h
  obtain ⟨⟨hselectors, hitems⟩, -⟩ := h
  rw [isEqv_iff_forall₂] at hitems
  have hcanonical : List.Forall₂ RuleItem.Agrees r.canonical.items s.canonical.items := by
    refine List.rel_filterMap ?_ hitems
    intro a b hab
    cases a <;> cases b <;> simp only [RuleItem.eqv, Bool.false_eq_true, decide_eq_true_eq] at hab
    · subst hab
      exact .some (.declaration rfl rfl)
    · exact .none
    · exact .some (.other hab)
  refine .some ⟨?_, .rule hcanonical⟩
  simp [identity?, Rule.canonical, hselectors]

/-- Nodes equal to `x` with the same signs of zeros, further signs following, have its
canonical form up to what agrees. -/
def Recognized (x : Node) : Prop := ∀ (y : Node) (signs signs' : List Bool), x.eqv y = true →
  x.zeroSigns ++ signs = y.zeroSigns ++ signs' → x.SameForm y ∧ signs = signs'

theorem nodes_recognized {signs signs' : List Bool} {xs ys : List Node}
    (hxs : ∀ x ∈ xs, x.Recognized) (heqv : eqvAll xs ys = true)
    (hsigns : zeroSignsAll xs ++ signs = zeroSignsAll ys ++ signs') :
    List.Forall₂ SameForm xs ys ∧ signs = signs' := by
  rw [eqvAll_eq_isEqv, isEqv_iff_forall₂] at heqv
  induction heqv with
  | nil => exact ⟨.nil, hsigns⟩
  | @cons x y xs ys hxy _ ih =>
    simp only [zeroSignsAll, List.append_assoc] at hsigns
    obtain ⟨hform, hrest⟩ := hxs x (List.mem_cons_self ..) y _ _ hxy hsigns
    obtain ⟨hforms, hleft⟩ := ih (fun x hx => hxs x (List.mem_cons_of_mem _ hx)) hrest
    exact ⟨.cons hform hforms, hleft⟩

theorem recognized (x : Node) : x.Recognized := by
  induction x using Node.induction with
  | rule r =>
    intro y signs signs' heqv hsigns
    cases y <;> simp only [eqv, Bool.false_eq_true] at heqv
    exact ⟨rule_sameForm heqv, hsigns⟩
  | media query children span ih =>
    intro y signs signs' heqv hsigns
    cases y <;> simp only [eqv, Bool.false_eq_true, Bool.and_eq_true, decide_eq_true_eq] at heqv
    obtain ⟨⟨rfl, hchildren⟩, -⟩ := heqv
    obtain ⟨hforms, hleft⟩ := nodes_recognized ih hchildren hsigns
    exact ⟨.some ⟨rfl, .media (corresponds_of_sameForm hforms)⟩, hleft⟩
  | group kind prelude children span ih =>
    intro y signs signs' heqv hsigns
    cases y <;> simp only [eqv, Bool.false_eq_true, Bool.and_eq_true, decide_eq_true_eq] at heqv
    obtain ⟨⟨⟨rfl, rfl⟩, hchildren⟩, -⟩ := heqv
    obtain ⟨hforms, hleft⟩ := nodes_recognized ih hchildren hsigns
    exact ⟨.some ⟨rfl, .group (corresponds_of_sameForm hforms)⟩, hleft⟩
  | comment c =>
    intro y signs signs' heqv hsigns
    cases y <;> simp only [eqv, Bool.false_eq_true] at heqv
    exact ⟨.none, hsigns⟩
  | other kind payload span =>
    intro y signs signs' heqv hsigns
    cases y <;> simp only [eqv, Bool.false_eq_true, Bool.and_eq_true, decide_eq_true_eq] at heqv
    obtain ⟨⟨rfl, hpayload⟩, -⟩ := heqv
    obtain ⟨rfl, hleft⟩ := payload.settled _ signs signs' hpayload hsigns
    exact ⟨.some ⟨rfl, .other⟩, hleft⟩

end Node

/-! ## Equal sheets -/

/-- The signs of the zeros in the descriptions of the at-rules of a sheet. -/
def Stylesheet.zeroSigns (sheet : Stylesheet) : List Bool := Node.zeroSignsAll sheet.nodes

/-- **Equal at-rules are joined, and equal sheets are unchanged, up to the signs of
zeros.** The signs in the items of rules do not count. -/
theorem equalSheets_unchanged (kind : String) (payload payload' : Json) (span span' : Span)
    (a b : Stylesheet) :
    (payload.eqv payload' = true →
      ((Node.other kind payload span).identity? = (Node.other kind payload' span').identity? ↔
        payload.zeroSigns = payload'.zeroSigns)) ∧
      (a.eqv b = true → a.zeroSigns = b.zeroSigns → diff a b = .unchanged) := by
  constructor
  · intro heqv
    simp [Node.identity?, Json.compact_injective.eq_iff, Json.eq_iff_eqv, heqv]
  · intro heqv hsigns
    have hsiblings := Node.nodes_recognized (fun x _ => x.recognized) heqv
      (congrArg (· ++ []) hsigns)
    rw [diff_eq_unchanged_iff, diff_changed_iff_corresponds]
    exact Node.corresponds_of_sameForm hsiblings.1

/-- A description that holds a zero of the sign. -/
def zeroDescription (negative : Bool) : Json :=
  .obj [("weight", .num (.float ⟨negative, 0, by decide⟩))]

/-- A sheet of one rule, with the description as an item. -/
def zeroRule (negative : Bool) : Stylesheet :=
  ⟨[.rule ⟨["a"], [.other (zeroDescription negative)], .unknown⟩]⟩

theorem equalSheets_unchanged_zeroRule :
    (Node.other "layer" (zeroDescription false) .unknown).identity? ≠
        (Node.other "layer" (zeroDescription true) .unknown).identity? ∧
      (zeroRule false).eqv (zeroRule true) = true ∧
      (zeroRule false).zeroSigns = (zeroRule true).zeroSigns ∧
      diff (zeroRule false) (zeroRule true) = .unchanged := by
  obtain ⟨hidentity, hdiff⟩ := equalSheets_unchanged "layer" (zeroDescription false)
    (zeroDescription true) .unknown .unknown (zeroRule false) (zeroRule true)
  refine ⟨fun h => ?_, by decide, by decide, hdiff (by decide) (by decide)⟩
  exact absurd ((hidentity (by decide)).mp h) (by decide)

/-- A sheet of one at-rule with the description. -/
def zeroSheet (negative : Bool) : Stylesheet :=
  ⟨[.other "layer" (zeroDescription negative) .unknown]⟩

/-- The two zeros are equal, and they have different texts. -/
theorem zeroSheets_changed :
    (zeroSheet false).eqv (zeroSheet true) = true ∧
      (diff (zeroSheet false) (zeroSheet true)).changed = true := by
  decide +kernel

end StyleDelta
