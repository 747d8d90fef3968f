import StyleDelta.Proofs.Json.Equality
import StyleDelta.Proofs.Siblings

/-!
The verdict of a difference, said without a join.

`Corresponds` looks at one identity at a time: the nodes of that identity on both
sides are equally many and have the same contents in their order, where the
contents of blocks are compared in the same way. Main statements: a sheet is
unchanged exactly if its canonical nodes correspond (`diff_unchanged_iff`), and
being unchanged is reflexive and transitive (`unchanged_refl_trans`).
-/

namespace StyleDelta

open Matching

/-! ## Contents that agree -/

/-- Declarations of one property and value, or equal JSON values. -/
inductive RuleItem.Agrees : RuleItem → RuleItem → Prop
  | declaration {d e : Declaration} (property : d.property = e.property)
      (value : d.value = e.value) : Agrees (.declaration d) (.declaration e)
  | other {a b : Json} (h : a.eqv b = true) : Agrees (.other a) (.other b)

namespace Node

/-- The siblings of an identity, in their order. -/
def ofIdentity (key : Identity) (nodes : List Node) : List Node :=
  nodes.filter (·.identity? = some key)

/-- Two nodes of one identity have the same contents. At-rules of other kinds have
none beyond their identity. -/
inductive Agrees : Node → Node → Prop
  | rule {r s : Rule} (h : List.Forall₂ RuleItem.Agrees r.items s.items) :
      Agrees (.rule r) (.rule s)
  | media {q q' : String} {xs ys : List Node} {s t : Span}
      (h : ∀ key, List.Forall₂ Agrees (ofIdentity key xs) (ofIdentity key ys)) :
      Agrees (.media q xs s) (.media q' ys t)
  | group {k p k' p' : String} {xs ys : List Node} {s t : Span}
      (h : ∀ key, List.Forall₂ Agrees (ofIdentity key xs) (ofIdentity key ys)) :
      Agrees (.group k p xs s) (.group k' p' ys t)
  | other {k k' : String} {p p' : Json} {s t : Span} : Agrees (.other k p s) (.other k' p' t)

/-- The siblings of every identity are equally many on both sides and agree in their
order. -/
def Corresponds (xs ys : List Node) : Prop :=
  ∀ key, List.Forall₂ Agrees (ofIdentity key xs) (ofIdentity key ys)

theorem mem_ofIdentity {key : Identity} {nodes : List Node} {x : Node} :
    x ∈ ofIdentity key nodes ↔ x ∈ nodes ∧ x.identity? = some key := by
  simp [ofIdentity]

end Node

/-! ## Laws of agreement -/

theorem RuleItem.Agrees.refl {item : RuleItem} (h : ∀ c, item ≠ .comment c) : item.Agrees item := by
  cases item with
  | declaration d => exact .declaration rfl rfl
  | comment c => exact absurd rfl (h c)
  | other description => exact .other description.eqv_refl

theorem RuleItem.Agrees.symm {a b : RuleItem} (h : a.Agrees b) : b.Agrees a := by
  cases h with
  | declaration property value => exact .declaration property.symm value.symm
  | other h => exact .other (Json.eqv_symm h)

theorem RuleItem.Agrees.trans {a b c : RuleItem} (hab : a.Agrees b) (hbc : b.Agrees c) :
    a.Agrees c := by
  cases hab with
  | declaration property value =>
    cases hbc with
    | declaration property' value' =>
      exact .declaration (property.trans property') (value.trans value')
  | other h =>
    cases hbc with
    | other h' => exact .other (Json.eqv_trans h h')

theorem RuleItem.same_iff_agrees (a b : RuleItem) : a.same b = true ↔ a.Agrees b := by
  constructor
  · intro h
    cases a <;> cases b <;> simp only [RuleItem.same, Bool.false_eq_true] at h
    · simp only [Bool.and_eq_true, decide_eq_true_eq] at h
      exact .declaration h.1 h.2
    · exact .other h
  · intro h
    cases h with
    | declaration property value => simp [RuleItem.same, property, value]
    | other h => exact h

theorem Rule.same_iff {r s : Rule} (hr : ∀ c, RuleItem.comment c ∉ r.items)
    (hs : ∀ c, RuleItem.comment c ∉ s.items) :
    r.same s = true ↔ List.Forall₂ RuleItem.Agrees r.items s.items := by
  simp only [Rule.same, Rule.contents_eq_items hr, Rule.contents_eq_items hs, isEqv_iff_forall₂,
    RuleItem.same_iff_agrees]

namespace Node

/-! The laws pass from the nodes of a list to the list. -/

theorem corresponds_refl_of_mem {xs : List Node} (hR : ∀ x ∈ xs, x.Agrees x) :
    Corresponds xs xs := by
  intro key
  rw [List.forall₂_same]
  intro x hx
  exact hR x (mem_ofIdentity.mp hx).1

theorem corresponds_symm_of_mem {xs ys : List Node}
    (hR : ∀ x ∈ xs, ∀ {y : Node}, x.Agrees y → y.Agrees x) (h : Corresponds xs ys) :
    Corresponds ys xs := by
  intro key
  have hkey : ∀ x ∈ ofIdentity key xs, ∀ y : Node, x.Agrees y → y.Agrees x := by
    intro x hx y hxy
    exact hR x (mem_ofIdentity.mp hx).1 hxy
  exact forall₂_symm_of_mem hkey (h key)

theorem corresponds_trans_of_mem {xs ys zs : List Node}
    (hR : ∀ x ∈ xs, ∀ {y z : Node}, x.Agrees y → y.Agrees z → x.Agrees z)
    (hxy : Corresponds xs ys) (hyz : Corresponds ys zs) : Corresponds xs zs := by
  intro key
  have hkey : ∀ x ∈ ofIdentity key xs, ∀ y z : Node, x.Agrees y → y.Agrees z → x.Agrees z := by
    intro x hx y z hxy hyz
    exact hR x (mem_ofIdentity.mp hx).1 hxy hyz
  exact forall₂_trans_of_mem hkey (hxy key) (hyz key)

theorem Agrees.refl {x : Node} (h : x.CommentFree) : x.Agrees x := by
  induction x using Node.induction with
  | rule r =>
    cases h with
    | rule h =>
      refine .rule (List.forall₂_same.mpr fun item hitem => .refl ?_)
      rintro c rfl
      exact h c hitem
  | media query children span ih =>
    cases h with
    | media h =>
      have hchildren : ∀ x ∈ children, x.Agrees x := fun x hx => ih x hx (h x hx)
      exact .media (corresponds_refl_of_mem hchildren)
  | group kind prelude children span ih =>
    cases h with
    | group h =>
      have hchildren : ∀ x ∈ children, x.Agrees x := fun x hx => ih x hx (h x hx)
      exact .group (corresponds_refl_of_mem hchildren)
  | comment c => cases h
  | other kind payload span => exact .other

theorem Agrees.symm {x y : Node} (h : x.Agrees y) : y.Agrees x := by
  induction x using Node.induction generalizing y with
  | rule r =>
    cases h with
    | rule h => exact .rule (forall₂_symm_of_mem (fun _ _ _ => .symm) h)
  | media query children span ih =>
    cases h with
    | media h => exact .media (corresponds_symm_of_mem ih h)
  | group kind prelude children span ih =>
    cases h with
    | group h => exact .group (corresponds_symm_of_mem ih h)
  | comment c => cases h
  | other kind payload span =>
    cases h with
    | other => exact .other

theorem Agrees.trans {x y z : Node} (hxy : x.Agrees y) (hyz : y.Agrees z) : x.Agrees z := by
  induction x using Node.induction generalizing y z with
  | rule r =>
    cases hxy with
    | rule h =>
      cases hyz with
      | rule h' => exact .rule (forall₂_trans_of_mem (fun _ _ _ _ => .trans) h h')
  | media query children span ih =>
    cases hxy with
    | media h =>
      cases hyz with
      | media h' => exact .media (corresponds_trans_of_mem ih h h')
  | group kind prelude children span ih =>
    cases hxy with
    | group h =>
      cases hyz with
      | group h' => exact .group (corresponds_trans_of_mem ih h h')
  | comment c => cases hxy
  | other kind payload span =>
    cases hxy with
    | other =>
      cases hyz with
      | other => exact .other

theorem Corresponds.refl {nodes : List Node} (h : ∀ x ∈ nodes, x.CommentFree) :
    Corresponds nodes nodes :=
  corresponds_refl_of_mem fun x hx => .refl (h x hx)

theorem Corresponds.symm {xs ys : List Node} (h : Corresponds xs ys) : Corresponds ys xs :=
  corresponds_symm_of_mem (fun _ _ _ => .symm) h

theorem Corresponds.trans {xs ys zs : List Node} (hxy : Corresponds xs ys)
    (hyz : Corresponds ys zs) : Corresponds xs zs :=
  corresponds_trans_of_mem (fun _ _ _ _ => .trans) hxy hyz

/-! ## The verdict -/

theorem ofKey_keyed (key : Identity) (nodes : List Node) :
    ofKey key (keyed nodes) = ofIdentity key nodes := by
  simp only [ofKey, keyed, ofIdentity, List.filter_map, List.map_map]
  exact List.map_id'' (fun _ => rfl) _

/-- The comparison of siblings decides whether they correspond, if it does so for
the pairs it makes. -/
theorem sameSiblings_iff {xs ys : List Node} (hxs : ∀ x ∈ xs, x.CommentFree)
    (hys : ∀ y ∈ ys, y.CommentFree)
    (hsame : ∀ x ∈ xs, ∀ y ∈ ys, x.identity? = y.identity? → (x.same y = true ↔ x.Agrees y)) :
    sameSiblings (comparisons xs) ys = true ↔ Corresponds xs ys := by
  have hjoin := join_complete_iff Agrees (keyed_ne_none hxs) (keyed_ne_none hys)
  simp only [ofKey_keyed] at hjoin
  rw [sameSiblings_comparisons, Bool.and_eq_true, List.all_eq_true, Corresponds, ← hjoin]
  refine and_congr_right fun _ => forall₂_congr fun p hp => ?_
  obtain ⟨hx, hy, hkey⟩ := mem_pairs_of_map hp
  exact hsame p.1 hx p.2 hy hkey

/-- Canonical nodes of one identity are found the same exactly if they agree. -/
theorem same_iff_agrees {x y : Node} (hx : x.CommentFree) (hy : y.CommentFree)
    (hkey : x.identity? = y.identity?) : x.same y = true ↔ x.Agrees y := by
  induction x using Node.induction generalizing y with
  | rule r =>
    cases hx with
    | rule hr =>
      cases hy with
      | rule hs =>
        rw [same, Rule.same_iff hr hs]
        refine ⟨.rule, fun h => ?_⟩
        cases h with
        | rule h => exact h
      | _ => simp [identity?] at hkey
  | media query children span ih =>
    cases hx with
    | media hchildren =>
      cases hy with
      | media hys =>
        rw [same, children?, Option.all_some,
          sameSiblings_iff hchildren hys fun x hx y hy => ih x hx (hchildren x hx) (hys y hy)]
        refine ⟨.media, fun h => ?_⟩
        cases h with
        | media h => exact h
      | _ => simp [identity?] at hkey
  | group kind prelude children span ih =>
    cases hx with
    | group hchildren =>
      cases hy with
      | group hys =>
        rw [same, children?, Option.all_some,
          sameSiblings_iff hchildren hys fun x hx y hy => ih x hx (hchildren x hx) (hys y hy)]
        refine ⟨.group, fun h => ?_⟩
        cases h with
        | group h => exact h
      | _ => simp [identity?] at hkey
  | comment c => cases hx
  | other kind payload span =>
    cases hy with
    | other => exact ⟨fun _ => .other, fun _ => rfl⟩
    | _ => simp [identity?] at hkey

end Node

theorem diff_changed_iff_corresponds (a b : Stylesheet) :
    (diff a b).changed = false ↔ Node.Corresponds a.canonical.nodes b.canonical.nodes := by
  have ha := Node.canonicalNodes_commentFree a.nodes
  have hb := Node.canonicalNodes_commentFree b.nodes
  rw [diff_changed, Bool.not_eq_false']
  exact Node.sameSiblings_iff ha hb fun x hx y hy => Node.same_iff_agrees (ha x hx) (hb y hy)

theorem diff_self (t : Stylesheet) : diff t t = .unchanged := by
  rw [diff_eq_unchanged_iff, diff_changed_iff_corresponds]
  exact .refl (Node.canonicalNodes_commentFree t.nodes)

/-- **The verdict is sound and complete.** A sheet is unchanged exactly if the
canonical nodes on both sides correspond, and exactly if there is nothing to report. -/
theorem diff_unchanged_iff (a b : Stylesheet) :
    ((diff a b).changed = false ↔ Node.Corresponds a.canonical.nodes b.canonical.nodes) ∧
      ((diff a b).changed = false ↔
        (diff a b).extra = [] ∧ (diff a b).missing = [] ∧ (diff a b).modified = []) :=
  ⟨diff_changed_iff_corresponds a b, diff_changed_iff_empty a b⟩

/-- **Being unchanged is reflexive and transitive.** The matchings of three sheets
need not compose pair by pair; their correspondences do, identity by identity. -/
theorem unchanged_refl_trans :
    (∀ t : Stylesheet, diff t t = .unchanged) ∧
      ∀ a b c : Stylesheet, (diff a b).changed = false → (diff b c).changed = false →
        (diff a c).changed = false := by
  refine ⟨diff_self, fun a b c hab hbc => ?_⟩
  rw [diff_changed_iff_corresponds] at hab hbc ⊢
  exact hab.trans hbc

/-- Two rules of one selector inside a block, with values to choose. -/
def twinRules (first second : String) : Stylesheet :=
  ⟨[.media "print" [.rule ⟨["a"], [.declaration ⟨"color", first, .unknown⟩], .unknown⟩,
    .rule ⟨["a"], [.declaration ⟨"content", second, .unknown⟩], .unknown⟩] .unknown]⟩

theorem unchanged_trans_twinRules :
    (diff (twinRules "#FFF" "'x'") (twinRules "#fff" "'x'")).changed = false ∧
      (diff (twinRules "#fff" "'x'") (twinRules "#fff" "\"x\"")).changed = false ∧
      (diff (twinRules "#FFF" "'x'") (twinRules "#fff" "\"x\"")).changed = false :=
  ⟨by decide, by decide,
    unchanged_refl_trans.2 _ (twinRules "#fff" "'x'") _ (by decide) (by decide)⟩

end StyleDelta
