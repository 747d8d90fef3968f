import StyleDelta.Proofs.Agreement
import StyleDelta.Proofs.Matching.Queues

/-!
The comparison that walks nodes and canonical forms side by side.

A layer holds the siblings of one depth as two sheets and, apart from them, what are
taken for their canonical forms. The forms are joined by queues, and what the join
says about positions is looked up in the lists of nodes and of forms alike; a position
outside a list fails the comparison. A pair that shares no rule and no nested nodes
passes without a look at it.

The layers that a comparison reaches hold the forms of their nodes
(`Layer.Reached.exists_of`), so that every look-up succeeds and only at-rules of one
description pass unseen. Main statement: `diff_layers`.
-/

namespace StyleDelta

open Matching

/-! ## Nodes and their forms -/

/-- Both nodes are rules, media blocks, other blocks, comments or other at-rules. -/
inductive Node.SameVariant : Node → Node → Prop
  | rule (r s : Rule) : SameVariant (.rule r) (.rule s)
  | media (query query' : String) (xs ys : List Node) (s t : Span) :
      SameVariant (.media query xs s) (.media query' ys t)
  | group (kind kind' prelude prelude' : String) (xs ys : List Node) (s t : Span) :
      SameVariant (.group kind prelude xs s) (.group kind' prelude' ys t)
  | comment (c d : Comment) : SameVariant (.comment c) (.comment d)
  | other (kind kind' : String) (payload payload' : Json) (s t : Span) :
      SameVariant (.other kind payload s) (.other kind' payload' t)

/-- What a node and its form have in common. -/
structure Node.FormOf (x form : Node) : Prop where
  canonical : x.canonical? = some form
  variant : x.SameVariant form
  kind : form.kind = x.kind
  span : form.span = x.span

theorem Node.formOf_of_canonical? {x form : Node} (h : x.canonical? = some form) :
    x.FormOf form := by
  cases x with
  | comment c => simp [Node.canonical?] at h
  | _ =>
    obtain rfl := Option.some.inj h
    exact ⟨rfl, by constructor, rfl, rfl⟩

/-- The forms of siblings stand in the order of the siblings that are no comments. -/
theorem Stylesheet.forall₂_formOf (sheet : Stylesheet) :
    List.Forall₂ Node.FormOf sheet.contents sheet.canonical.nodes := by
  rw [contents, canonical, ← Entry.map_node_ofNodes, ← Entry.map_form_ofNodes,
    List.forall₂_map_left_iff, List.forall₂_map_right_iff, List.forall₂_same]
  intro entry hmem
  exact Node.formOf_of_canonical? (Entry.canonical?_of_mem hmem)

/-- An identity is of one kind of nodes. -/
theorem Node.sameVariant_of_identity? {x y : Node} (hx : x.canonical? ≠ none)
    (h : x.canonical?.bind identity? = y.canonical?.bind identity?) : x.SameVariant y := by
  cases x <;> cases y
  case rule.rule => exact .rule ..
  case media.media => exact .media ..
  case group.group => exact .group ..
  case comment.comment => exact .comment ..
  case other.other => exact .other ..
  all_goals simp [canonical?, identity?] at hx h

/-! ## Layers -/

/-- The siblings of one depth on both sides, and what are taken for their forms. -/
structure Layer where
  first : Stylesheet
  second : Stylesheet
  firstForms : List Node
  secondForms : List Node

namespace Layer

/-! ## The comparison -/

/-- What decides whether the two nodes of a pair have the same contents. -/
inductive Question where
  | items (r s : Rule)
  | nested (layer : Layer)
  /-- Nothing is looked at. -/
  | settled

/-- The question for two nodes and their forms. -/
def Question.of (x y : Node) : Node → Node → Question
  | .rule r, .rule s => .items r s
  | form, form' =>
    match x.children?, y.children?, form.children?, form'.children? with
    | some xs, some ys, some forms, some forms' => .nested ⟨⟨xs⟩, ⟨ys⟩, forms, forms'⟩
    | _, _, _, _ => .settled

/-- The join of the forms, as positions among them. -/
def matching? (l : Layer) : Option (Matching Nat Nat) :=
  queueJoin? (l.firstForms.map Node.identity?) (l.secondForms.map Node.identity?)

/-- The question for the nodes at two positions. -/
def question? (l : Layer) (i j : Nat) : Option Question := do
  let x ← l.first.contents[i]?
  let y ← l.second.contents[j]?
  let form ← l.firstForms[i]?
  let form' ← l.secondForms[j]?
  return .of x y form form'

theorem question?_eq_some {l : Layer} {i j : Nat} {q : Question} (h : l.question? i j = some q) :
    ∃ x y form form', l.first.contents[i]? = some x ∧ l.second.contents[j]? = some y ∧
      l.firstForms[i]? = some form ∧ l.secondForms[j]? = some form' ∧
      q = .of x y form form' := by
  obtain ⟨x, hx, h⟩ := Option.bind_eq_some_iff.mp h
  obtain ⟨y, hy, h⟩ := Option.bind_eq_some_iff.mp h
  obtain ⟨form, hform, h⟩ := Option.bind_eq_some_iff.mp h
  obtain ⟨form', hform', h⟩ := Option.bind_eq_some_iff.mp h
  exact ⟨x, y, form, form', hx, hy, hform, hform', (Option.some.inj h).symm⟩

theorem Question.children?_of_nested {x y form form' : Node} {sub : Layer}
    (h : Question.of x y form form' = .nested sub) : x.children? = some sub.first.nodes := by
  unfold Question.of at h
  split at h
  · cases h
  · split at h
    · rename_i xs ys forms forms' hx _ _ _
      cases h
      exact hx
    · cases h

theorem sizeOf_children? {x : Node} {xs : List Node} (h : x.children? = some xs) :
    sizeOf xs < sizeOf x := by
  cases x with
  | media query children span =>
    obtain rfl := Option.some.inj h
    simp only [Node.media.sizeOf_spec]
    omega
  | group kind prelude children span =>
    obtain rfl := Option.some.inj h
    simp only [Node.group.sizeOf_spec]
    omega
  | _ => simp [Node.children?] at h

theorem sizeOf_of_mem {sheet : Stylesheet} {xs : List Node} {x : Node}
    (hmem : x ∈ sheet.contents) (h : x.children? = some xs) :
    sizeOf xs < sizeOf sheet.nodes := by
  have hx := List.sizeOf_lt_of_mem (List.mem_filter.mp hmem).1
  have hxs := sizeOf_children? h
  omega

/-- Nested layers are smaller. -/
theorem sizeOf_nested {l sub : Layer} {i j : Nat} (h : l.question? i j = some (.nested sub)) :
    sizeOf sub.first.nodes < sizeOf l.first.nodes := by
  obtain ⟨x, y, form, form', hx, -, -, -, hq⟩ := question?_eq_some h
  exact sizeOf_of_mem (List.mem_of_getElem? hx) (Question.children?_of_nested hq.symm)

mutual

/-- The difference of a layer. -/
def diff? (l : Layer) : Option Difference := do
  let matching ← l.matching?
  let extra ← matching.extra.mapM fun j => l.second.contents[j]?
  let missing ← matching.missing.mapM fun i => l.first.contents[i]?
  let modified ← matching.pairs.mapM fun (i, j) => do
    let same ← l.same? i j
    let before ← l.first.contents[i]?
    let after ← l.second.contents[j]?
    return if same then [] else [(⟨before, after⟩ : Modification)]
  return ⟨!(extra.isEmpty && missing.isEmpty && modified.flatten.isEmpty), extra, missing,
    modified.flatten⟩
termination_by (sizeOf l.first.nodes, 1)

/-- Whether the nodes at two positions have the same contents. -/
def same? (l : Layer) (i j : Nat) : Option Bool :=
  match _h : l.question? i j with
  | none => none
  | some (.items r s) => some (r.same s)
  | some (.nested sub) => sub.diff?.map fun d => !d.changed
  | some .settled => some true
termination_by (sizeOf l.first.nodes, 0)
decreasing_by
  apply Prod.Lex.left
  exact sizeOf_nested _h

end

/-! ## The layers of a comparison -/

/-- The layer of two sheets with their own forms. -/
def of (a b : Stylesheet) : Layer := ⟨a, b, a.canonical.nodes, b.canonical.nodes⟩

/-- The layers that the comparison of two sheets comes to. -/
inductive Reached (a b : Stylesheet) : Layer → Prop
  | top : Reached a b (of a b)
  | nested {l sub : Layer} {matching : Matching Nat Nat} {i j : Nat} (h : Reached a b l)
      (hmatching : l.matching? = some matching) (hpair : (i, j) ∈ matching.pairs)
      (hquestion : l.question? i j = some (.nested sub)) : Reached a b sub

/-- The question for two nodes whose forms have one identity: the items of rules, the
layer of nested nodes with their own forms, or nothing for two at-rules whose
descriptions have one text. -/
theorem Question.of_forms {x y form form' : Node} (hx : x.canonical? = some form)
    (hy : y.canonical? = some form') (hkey : form.identity? = form'.identity?) :
    (∃ r s, form = .rule r ∧ form' = .rule s ∧ Question.of x y form form' = .items r s) ∨
    (∃ xs ys, x.children? = some xs ∧
      Question.of x y form form' = .nested (Layer.of ⟨xs⟩ ⟨ys⟩) ∧
      form.same form' = !(diff ⟨xs⟩ ⟨ys⟩).changed) ∨
    (∃ kind p q s t, form = .other kind p s ∧ form' = .other kind q t ∧
      p.compact = q.compact ∧ Question.of x y form form' = .settled) := by
  have hsome : x.canonical? ≠ none := by simp [hx]
  have hbind : x.canonical?.bind Node.identity? = y.canonical?.bind Node.identity? := by
    simpa [hx, hy] using hkey
  cases Node.sameVariant_of_identity? hsome hbind with
  | rule r s =>
    obtain rfl := Option.some.inj hx
    obtain rfl := Option.some.inj hy
    exact Or.inl ⟨_, _, rfl, rfl, rfl⟩
  | media query query' xs ys s t =>
    obtain rfl := Option.some.inj hx
    obtain rfl := Option.some.inj hy
    refine Or.inr (Or.inl ⟨xs, ys, rfl, rfl, ?_⟩)
    rw [diff_changed, Bool.not_not]
    rfl
  | group kind kind' prelude prelude' xs ys s t =>
    obtain rfl := Option.some.inj hx
    obtain rfl := Option.some.inj hy
    refine Or.inr (Or.inl ⟨xs, ys, rfl, rfl, ?_⟩)
    rw [diff_changed, Bool.not_not]
    rfl
  | comment c d => simp [Node.canonical?] at hx
  | other kind kind' payload payload' s t =>
    obtain rfl := Option.some.inj hx
    obtain rfl := Option.some.inj hy
    simp only [Node.identity?, Option.some.injEq, Identity.other.injEq] at hkey
    obtain ⟨rfl, htext⟩ := hkey
    exact Or.inr (Or.inr ⟨_, _, _, _, _, rfl, rfl, htext, rfl⟩)

/-! ## Layers of sheets with their own forms -/

/-- The join by queues succeeds, and it is the join of the siblings. -/
theorem matching?_of (a b : Stylesheet) :
    (of a b).matching? = some ((joined a b).map Prod.snd Prod.snd) := by
  rw [matching?, ← matchSiblings_canonical]
  exact queueJoin?_identities a.canonical.nodes b.canonical.nodes

theorem question?_of {a b : Stylesheet} {p : (Entry × Nat) × (Entry × Nat)}
    (h : p ∈ (joined a b).pairs) :
    (of a b).question? p.1.2 p.2.2 =
      some (.of p.1.1.node p.2.1.node p.1.1.form p.2.1.form) := by
  obtain ⟨hx, hy, -⟩ := at_of_mem_pairs h
  simp [question?, of, hx.node, hy.node, hx.form, hy.form]

/-- What the question for a pair can be. -/
theorem question?_cases {a b : Stylesheet} {p : Nat × Nat} {q : Question}
    (hpair : p ∈ ((joined a b).map Prod.snd Prod.snd).pairs)
    (hquestion : (of a b).question? p.1 p.2 = some q) :
    (∃ r s, q = .items r s) ∨ (∃ a' b', q = .nested (of a' b')) ∨
    (∃ kind x y s t, a.canonical.nodes[p.1]? = some (.other kind x s) ∧
      b.canonical.nodes[p.2]? = some (.other kind y t) ∧ x.compact = y.compact ∧
      q = .settled) := by
  obtain ⟨p, hp, rfl⟩ := List.mem_map.mp hpair
  obtain ⟨hx, hy, hkey⟩ := at_of_mem_pairs hp
  obtain rfl := Option.some.inj ((question?_of hp).symm.trans hquestion)
  rcases Question.of_forms hx.canonical hy.canonical hkey with ⟨r, s, -, -, hq⟩ |
    ⟨xs, ys, -, hq, -⟩ | ⟨kind, x, y, s, t, hform, hform', htext, hq⟩
  · exact Or.inl ⟨r, s, hq⟩
  · exact Or.inr (Or.inl ⟨⟨xs⟩, ⟨ys⟩, hq⟩)
  · exact Or.inr (Or.inr ⟨kind, x, y, s, t, hform ▸ hx.form, hform' ▸ hy.form, htext, hq⟩)

/-! ### The difference -/

theorem mapM_map_eq_some {α β γ : Type} {f : β → Option γ} {g : α → β} {h : α → γ} {xs : List α}
    (hall : ∀ x ∈ xs, f (g x) = some (h x)) : (xs.map g).mapM f = some (xs.map h) := by
  induction xs with
  | nil => rfl
  | cons x xs ih =>
    have hx := hall x (List.mem_cons_self ..)
    have hxs := ih fun y hy => hall y (List.mem_cons_of_mem _ hy)
    simp [hx, hxs]

theorem flatten_map_ite {α β : Type} (c : α → Bool) (f : α → β) (xs : List α) :
    (xs.map fun x => if c x then [] else [f x]).flatten = (xs.filter fun x => !c x).map f := by
  induction xs with
  | nil => rfl
  | cons x xs ih => cases hc : c x <;> simp [hc, ih]

/-- A pair is answered by the comparison of its forms, if nested layers are. -/
theorem same?_of {a b : Stylesheet} {p : (Entry × Nat) × (Entry × Nat)}
    (h : p ∈ (joined a b).pairs)
    (ih : ∀ a' b' : Stylesheet, sizeOf a'.nodes < sizeOf a.nodes →
      (of a' b').diff? = some (diff a' b')) :
    (of a b).same? p.1.2 p.2.2 = some (p.1.1.form.same p.2.1.form) := by
  obtain ⟨hx, hy, hkey⟩ := at_of_mem_pairs h
  have hquestion := question?_of h
  rcases Question.of_forms hx.canonical hy.canonical hkey with ⟨r, s, hr, hs, hq⟩ |
    ⟨xs, ys, hxs, hq, hsame⟩ | ⟨kind, c, d, s, t, hform, hform', -, hq⟩
  · rw [same?, hquestion, hq, hr, hs]
    rfl
  · have hsize := sizeOf_of_mem (List.mem_of_getElem? hx.node) hxs
    rw [same?, hquestion, hq]
    simp only [ih ⟨xs⟩ ⟨ys⟩ hsize, Option.map_some, hsame]
  · rw [same?, hquestion, hq, hform, hform']
    rfl

/-- The comparison of two sheets with their own forms succeeds with their difference. -/
theorem diff?_of (a b : Stylesheet) : (of a b).diff? = some (diff a b) := by
  -- the induction is on the first sheet, whose nested nodes are smaller than it
  have hnested : ∀ a' b' : Stylesheet, sizeOf a'.nodes < sizeOf a.nodes →
      (of a' b').diff? = some (diff a' b') := by
    intro a' b' _
    exact diff?_of a' b'
  have hextra : ((joined a b).extra.map Prod.snd).mapM (fun j => b.contents[j]?) =
      some ((joined a b).extra.map fun q => q.1.node) :=
    mapM_map_eq_some fun q hq => (at_of_mem_extra hq).node
  have hmissing : ((joined a b).missing.map Prod.snd).mapM (fun i => a.contents[i]?) =
      some ((joined a b).missing.map fun q => q.1.node) :=
    mapM_map_eq_some fun q hq => (at_of_mem_missing hq).node
  have hmodified : ((joined a b).pairs.map (Prod.map Prod.snd Prod.snd)).mapM
      (fun ij => do
        let same ← (of a b).same? ij.1 ij.2
        let before ← a.contents[ij.1]?
        let after ← b.contents[ij.2]?
        return if same then [] else [(⟨before, after⟩ : Modification)]) =
      some ((joined a b).pairs.map fun p =>
        if p.1.1.form.same p.2.1.form then [] else [⟨p.1.1.node, p.2.1.node⟩]) := by
    refine mapM_map_eq_some fun p hp => ?_
    obtain ⟨hx, hy, -⟩ := at_of_mem_pairs hp
    simp [same?_of hp hnested, hx.node, hy.node]
  rw [diff?, matching?_of, diff_eq_joined]
  simp only [Matching.map, of, Option.bind_eq_bind, Option.bind_some] at hextra hmissing hmodified ⊢
  rw [hextra, hmissing, hmodified]
  simp [flatten_map_ite, Difference.ofMatching, Matching.differing, isComplete]
termination_by sizeOf a.nodes

/-! ## What holds of every layer that is reached -/

/-- The positions of a join are positions of nodes and of forms. -/
structure InRange (l : Layer) (m : Matching Nat Nat) : Prop where
  extra : ∀ j ∈ m.extra, j < l.second.contents.length
  missing : ∀ i ∈ m.missing, i < l.first.contents.length
  pairs : ∀ p ∈ m.pairs, p.1 < l.first.contents.length ∧ p.2 < l.second.contents.length ∧
    p.1 < l.firstForms.length ∧ p.2 < l.secondForms.length

/-- Of the pairs of a join, only two at-rules of one name whose descriptions have one
text pass without a look. -/
def SettledOnlyAtRules (l : Layer) (m : Matching Nat Nat) : Prop :=
  ∀ p ∈ m.pairs, l.question? p.1 p.2 = some .settled →
    ∃ kind x y s t, l.firstForms[p.1]? = some (.other kind x s) ∧
      l.secondForms[p.2]? = some (.other kind y t) ∧ x.compact = y.compact

/-- A layer is as the comparison takes it to be. -/
structure Sound (l : Layer) : Prop where
  firstForms : l.firstForms = l.first.canonical.nodes
  secondForms : l.secondForms = l.second.canonical.nodes
  first_formOf : List.Forall₂ Node.FormOf l.first.contents l.firstForms
  second_formOf : List.Forall₂ Node.FormOf l.second.contents l.secondForms
  matching : ∃ m, l.matching? = some m ∧ l.InRange m ∧ l.SettledOnlyAtRules m
  result : l.diff? = some (diff l.first l.second)

theorem lt_length_of_getElem? {α : Type} {xs : List α} {x : α} {i : Nat} (h : xs[i]? = some x) :
    i < xs.length := (List.getElem?_eq_some_iff.mp h).1

theorem inRange_of (a b : Stylesheet) :
    (of a b).InRange ((joined a b).map Prod.snd Prod.snd) := by
  constructor
  · intro j hj
    obtain ⟨q, hq, rfl⟩ := List.mem_map.mp hj
    exact lt_length_of_getElem? (at_of_mem_extra hq).node
  · intro i hi
    obtain ⟨q, hq, rfl⟩ := List.mem_map.mp hi
    exact lt_length_of_getElem? (at_of_mem_missing hq).node
  · intro ij hij
    obtain ⟨p, hp, rfl⟩ := List.mem_map.mp hij
    obtain ⟨hx, hy, -⟩ := at_of_mem_pairs hp
    exact ⟨lt_length_of_getElem? hx.node, lt_length_of_getElem? hy.node,
      lt_length_of_getElem? hx.form, lt_length_of_getElem? hy.form⟩

theorem settledOnlyAtRules_of (a b : Stylesheet) :
    (of a b).SettledOnlyAtRules ((joined a b).map Prod.snd Prod.snd) := by
  intro p hp hsettled
  rcases question?_cases hp hsettled with ⟨r, s, hq⟩ | ⟨a', b', hq⟩ |
    ⟨kind, x, y, s, t, hfirst, hsecond, htext, -⟩
  · cases hq
  · cases hq
  · exact ⟨kind, x, y, s, t, hfirst, hsecond, htext⟩

theorem sound_of (a b : Stylesheet) : (of a b).Sound where
  firstForms := rfl
  secondForms := rfl
  first_formOf := a.forall₂_formOf
  second_formOf := b.forall₂_formOf
  matching := ⟨_, matching?_of a b, inRange_of a b, settledOnlyAtRules_of a b⟩
  result := diff?_of a b

/-- From a layer of sheets with their own forms the comparison comes to such layers. -/
theorem exists_of_nested {a b : Stylesheet} {m : Matching Nat Nat} {i j : Nat} {sub : Layer}
    (hmatching : (of a b).matching? = some m) (hpair : (i, j) ∈ m.pairs)
    (hquestion : (of a b).question? i j = some (.nested sub)) : ∃ a' b', sub = of a' b' := by
  obtain rfl := Option.some.inj ((matching?_of a b).symm.trans hmatching)
  rcases question?_cases hpair hquestion with ⟨r, s, hq⟩ | ⟨a', b', hq⟩ |
    ⟨kind, x, y, s, t, -, -, -, hq⟩
  · cases hq
  · exact ⟨a', b', Question.nested.inj hq⟩
  · cases hq

/-- Every layer that is reached holds the forms of its nodes. -/
theorem Reached.exists_of {a b : Stylesheet} {l : Layer} (h : Reached a b l) :
    ∃ a' b', l = of a' b' := by
  induction h with
  | top => exact ⟨a, b, rfl⟩
  | nested _ hmatching hpair hquestion ih =>
    obtain ⟨a', b', rfl⟩ := ih
    exact exists_of_nested hmatching hpair hquestion

end Layer

/-- **The comparison cannot fail.** With every position looked up it succeeds with the
difference of the sheets, and at every depth it holds the forms of the nodes that it
compares, stays within them, and passes over nothing but at-rules of one description. -/
theorem diff_layers (a b : Stylesheet) :
    (Layer.of a b).diff? = some (diff a b) ∧ ∀ l, Layer.Reached a b l → l.Sound := by
  constructor
  · exact Layer.diff?_of a b
  · intro l hreached
    obtain ⟨a', b', rfl⟩ := hreached.exists_of
    exact Layer.sound_of a' b'

/-- Two rules on either side inside a block, which are compared in a layer of their own. -/
theorem diff_layers_twinRules :
    ∃ l, Layer.Reached (twinRules "#FFF" "'x'") (twinRules "#fff" "'y'") l ∧ l.Sound ∧
      l.first.nodes.length = 2 ∧ l.matching? = some ⟨[(0, 0), (1, 1)], [], []⟩ := by
  have hmatching : (Layer.of (twinRules "#FFF" "'x'") (twinRules "#fff" "'y'")).matching? =
      some ⟨[(0, 0)], [], []⟩ := by decide
  have hreached := Layer.Reached.nested .top hmatching (List.mem_singleton.mpr rfl) rfl
  obtain ⟨-, hsound⟩ := diff_layers (twinRules "#FFF" "'x'") (twinRules "#fff" "'y'")
  exact ⟨_, hreached, hsound _ hreached, rfl, by decide⟩

end StyleDelta
