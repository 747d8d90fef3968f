import StyleDelta.Proofs.Agreement
import StyleDelta.Proofs.Positions
import StyleDelta.Proofs.Sheet.Positionless

/-!
Sheets that differ in places of the source text alone.

The canonical form of a sheet without places is the canonical form without places
(`canonical?_unplaced`), and the join of two sheets is the same without them
(`diffMatching_unplaced`). So a difference reports nodes at the same positions of its
sheets, whatever the places. Main statement: `displacement_immaterial`.
-/

namespace StyleDelta

open Json Matching

/-! ## Canonical forms -/

theorem RuleItem.canonical?_unplaced (item : RuleItem) :
    item.unplaced.canonical? = item.canonical?.map unplaced := by
  cases item <;> rfl

theorem filterMap_map_comm {α : Type} {f : α → Option α} {g : α → α} {xs : List α}
    (h : ∀ x ∈ xs, f (g x) = (f x).map g) :
    (xs.map g).filterMap f = (xs.filterMap f).map g := by
  rw [List.filterMap_map, List.map_filterMap]
  exact List.filterMap_congr h

theorem Rule.canonical_unplaced (r : Rule) : r.unplaced.canonical = r.canonical.unplaced := by
  simp only [Rule.canonical, Rule.unplaced,
    filterMap_map_comm fun item _ => RuleItem.canonical?_unplaced item]

namespace Node

theorem canonicalNodes_unplaced {nodes : List Node}
    (h : ∀ x ∈ nodes, x.unplaced.canonical? = x.canonical?.map unplaced) :
    canonicalNodes (unplacedAll nodes) = unplacedAll (canonicalNodes nodes) := by
  rw [unplacedAll_eq_map, unplacedAll_eq_map, canonicalNodes_eq_filterMap,
    canonicalNodes_eq_filterMap, filterMap_map_comm h]

theorem canonical?_unplaced (x : Node) : x.unplaced.canonical? = x.canonical?.map unplaced := by
  induction x using Node.induction with
  | rule r => exact congrArg (fun r => some (rule r)) r.canonical_unplaced
  | media query children span ih =>
    simp only [unplaced, canonical?, Option.map_some, canonicalNodes_unplaced ih]
  | group kind prelude children span ih =>
    simp only [unplaced, canonical?, Option.map_some, canonicalNodes_unplaced ih]
  | comment c => rfl
  | other kind payload span => rfl

end Node

/-! ## Joins -/

/-- The entry without places, at its position. -/
def Entry.unplaced (q : Entry × Nat) : Entry × Nat :=
  (⟨q.1.node.unplaced, q.1.form.unplaced⟩, q.2)

theorem Entry.placedAll_unplaced (nodes : List Node) :
    placedAll (Node.unplacedAll nodes) = (placedAll nodes).map (Prod.map id unplaced) := by
  rw [placedAll, placedAll, Node.unplacedAll_eq_map, List.length_map, placed, placed,
    List.map_filterMap]
  refine List.filterMap_congr fun i _ => ?_
  rw [List.getElem?_map]
  cases nodes[i]? with
  | none => rfl
  | some x =>
    simp only [Option.map_some, Option.bind_some, Node.canonical?_unplaced, Option.map_map]
    cases x.canonical? with
    | none => rfl
    | some form => simp [Entry.unplaced, Node.identity?_unplaced]

/-- Without places, the same nodes are joined. -/
theorem diffMatching_unplaced (a b : Stylesheet) :
    diffMatching a.unplaced b.unplaced = (diffMatching a b).map Entry.unplaced Entry.unplaced := by
  rw [diffMatching, Stylesheet.unplaced, Stylesheet.unplaced, Entry.placedAll_unplaced,
    Entry.placedAll_unplaced, join_map]
  rfl

theorem differing_unplaced (m : Matching (Entry × Nat) (Entry × Nat)) :
    (m.map Entry.unplaced Entry.unplaced).differing =
      m.differing.map (Prod.map Entry.unplaced Entry.unplaced) := by
  simp only [Matching.differing, Matching.map, List.filter_map]
  congr 1
  refine List.filter_congr fun p _ => ?_
  simp [Entry.unplaced, Node.same_unplaced]

theorem diff_changed_unplaced (a b : Stylesheet) :
    (diff a.unplaced b.unplaced).changed = (diff a b).changed := by
  rw [diff_eq_diffMatching, diff_eq_diffMatching, diffMatching_unplaced]
  simp only [Difference.ofMatching, isComplete_map, differing_unplaced, List.isEmpty_map]

theorem diffPositions_unplaced (a b : Stylesheet) :
    diffPositions a.unplaced b.unplaced = diffPositions a b := by
  rw [diffPositions, diffPositions, diffMatching_unplaced]
  simp only [Places.ofMatching, differing_unplaced]
  simp only [Matching.map, List.map_map]
  rfl

/-! ## Sheets at other places -/

/-- Two differences of one verdict, which report what stands at the same positions of
their sheets. -/
structure DifferAlike (a b a' b' : Stylesheet) : Prop where
  changed : (diff a b).changed = (diff a' b').changed
  positions : diffPositions a b = diffPositions a' b'
  standsAt : (diff a b).StandsAt a b (diffPositions a b)
  standsAt_other : (diff a' b').StandsAt a' b' (diffPositions a b)

theorem differAlike_of_unplaced {a b a' b' : Stylesheet} (ha : a.unplaced = a'.unplaced)
    (hb : b.unplaced = b'.unplaced) : DifferAlike a b a' b' := by
  have hpositions : diffPositions a b = diffPositions a' b' := by
    rw [← diffPositions_unplaced, ha, hb, diffPositions_unplaced]
  refine ⟨?_, hpositions, diff_standsAt a b, ?_⟩
  · rw [← diff_changed_unplaced, ha, hb, diff_changed_unplaced]
  · rw [hpositions]
    exact diff_standsAt a' b'

/-- **Positions never take part in the comparison.** Trees that are the same without their
positions are refused with the same fault, or loaded as sheets that are the same without
their places; and with any sheet on either side, the differences of the two sheets have
one verdict and report what stands at the same positions. -/
theorem displacement_immaterial {v w : Json} (h : v.erase "position" = w.erase "position") :
    (∃ fault, Stylesheet.ofJson v = .error fault ∧ Stylesheet.ofJson w = .error fault) ∨
      ∃ a a', Stylesheet.ofJson v = .ok a ∧ Stylesheet.ofJson w = .ok a' ∧
        a.unplaced = a'.unplaced ∧
        ∀ b, DifferAlike a b a' b ∧ DifferAlike b a b a' := by
  have hload : (Stylesheet.ofJson v).map Stylesheet.unplaced =
      (Stylesheet.ofJson w).map Stylesheet.unplaced := by
    rw [← ofJson_erase, ← ofJson_erase, h]
  cases hv : Stylesheet.ofJson v with
  | error fault =>
    cases hw : Stylesheet.ofJson w with
    | error fault' =>
      rw [hv, hw] at hload
      obtain rfl := Except.error.inj hload
      exact Or.inl ⟨fault, rfl, rfl⟩
    | ok a' =>
      rw [hv, hw] at hload
      cases hload
  | ok a =>
    cases hw : Stylesheet.ofJson w with
    | error fault =>
      rw [hv, hw] at hload
      cases hload
    | ok a' =>
      rw [hv, hw] at hload
      have hsheet : a.unplaced = a'.unplaced := Except.ok.inj hload
      refine Or.inr ⟨a, a', rfl, rfl, hsheet, fun b => ⟨?_, ?_⟩⟩
      · exact differAlike_of_unplaced hsheet rfl
      · exact differAlike_of_unplaced rfl hsheet

/-- The tree of an at-rule and of a block with a rule, whose parts all have a position. -/
def placedTree (position : Members) : Json :=
  let declaration : Json := .obj (position ++
    [("property", .str "color"), ("type", .str "declaration"), ("value", .str "red")])
  let mixin : Json := .obj (("mixin", .obj position) :: position ++ [("type", .str "apply")])
  let rule : Json := .obj (("declarations", .arr [declaration, mixin]) :: position ++
    [("selectors", .arr [.str "a"]), ("type", .str "rule")])
  let charset : Json := .obj (("charset", .str "utf-8") :: position ++ [("type", .str "charset")])
  let media : Json := .obj (("media", .str "print") :: position ++
    [("rules", .arr [rule]), ("type", .str "media")])
  .obj [("stylesheet", .obj [("rules", .arr [charset, media])]), ("type", .str "stylesheet")]

/-- The sheet of the tree, at the place that the position gives. -/
def placedSheet (span : Span) : Stylesheet :=
  ⟨[.other "charset" (.obj [("charset", .str "utf-8")]) span,
    .media "print" [.rule ⟨["a"], [.declaration ⟨"color", "red", span⟩,
      .other (.obj [("mixin", .obj []), ("type", .str "apply")])], span⟩] span]⟩

/-- A well-formed position everywhere, and one that is malformed. -/
theorem displacement_immaterial_placedTree :
    let v := placedTree [("position", .obj [("start", .arr [.num (.int 3), .num (.int 5)])])]
    let w := placedTree [("position", .obj [("start", .arr [.num (.int 3)])])]
    v.erase "position" = w.erase "position" ∧
      Stylesheet.ofJson v = .ok (placedSheet ⟨3, 5⟩) ∧
      Stylesheet.ofJson w = .ok (placedSheet .unknown) ∧
      (placedSheet ⟨3, 5⟩).unplaced = (placedSheet .unknown).unplaced ∧
      DifferAlike (placedSheet ⟨3, 5⟩) (twinRules "blue" "'x'")
        (placedSheet .unknown) (twinRules "blue" "'x'") ∧
      diffPositions (placedSheet ⟨3, 5⟩) (twinRules "blue" "'x'") = ⟨[], [0], [(1, 0)]⟩ := by
  intro v w
  have h : v.erase "position" = w.erase "position" := by rfl
  have hv : Stylesheet.ofJson v = .ok (placedSheet ⟨3, 5⟩) := by rfl
  have hw : Stylesheet.ofJson w = .ok (placedSheet .unknown) := by rfl
  rcases displacement_immaterial h with ⟨fault, hfault, -⟩ | ⟨a, a', ha, ha', hsheet, hdiff⟩
  · rw [hv] at hfault
    cases hfault
  · obtain rfl := Except.ok.inj (hv.symm.trans ha)
    obtain rfl := Except.ok.inj (hw.symm.trans ha')
    exact ⟨h, hv, hw, hsheet, (hdiff _).1, by rfl⟩

end StyleDelta
