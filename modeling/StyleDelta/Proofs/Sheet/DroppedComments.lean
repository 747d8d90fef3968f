import StyleDelta.Proofs.Sheet.Stability
import StyleDelta.Sheet.OfJson

/-!
Comments in the canonical description of an at-rule.

They are dropped from the arrays of a description, of whatever depth, and under whatever
names the arrays are found. The selectors of a rule are the one array that is rebuilt by a
rule of its own: its texts are respelled and all else in it is kept, comments included
(`selectorComment_kept`). Main statement: no other array has a comment
(`descriptionComments_dropped`).
-/

namespace StyleDelta

open Text

namespace Json

/-! ## Steps into a value -/

variable {value item : Json} {name : String} {i : Nat} {rest place : List Step}

theorem at?_member_eq_some : value.at? (.member name :: rest) = some item ↔
    ∃ x, value.get? name = some x ∧ x.at? rest = some item := by
  rw [at?, Option.bind_eq_some_iff]

theorem at?_index_eq_some : value.at? (.index i :: rest) = some item ↔
    ∃ xs x, value = .arr xs ∧ xs[i]? = some x ∧ x.at? rest = some item := by
  simp only [at?, Option.bind_eq_some_iff, arr?_eq_some_iff]
  constructor
  · rintro ⟨x, ⟨xs, hvalue, hx⟩, hitem⟩
    exact ⟨xs, x, hvalue, hx, hitem⟩
  · rintro ⟨xs, x, hvalue, hx, hitem⟩
    exact ⟨x, ⟨xs, hvalue, hx⟩, hitem⟩

/-- No step leads into a text. -/
theorem at?_str (s : String) (place : List Step) (i : Nat) :
    (str s).at? (place ++ [.index i]) = none := by
  cases place with
  | nil => rfl
  | cons step place => cases step <;> rfl

/-! ## Selectors of rules -/

/-- The place is that of the selectors of a rule, or lies among them. -/
def AmongSelectors (value : Json) (place : List Step) : Prop :=
  ∃ outer inner rule selectors, place = outer ++ .member "selectors" :: inner ∧
    value.at? outer = some rule ∧ rule.type? = some "rule" ∧
    rule.get? "selectors" = some (.arr selectors)

theorem AmongSelectors.here {selectors : List Json} (type : value.type? = some "rule")
    (h : value.get? "selectors" = some (.arr selectors)) (inner : List Step) :
    value.AmongSelectors (.member "selectors" :: inner) :=
  ⟨[], inner, value, selectors, rfl, rfl, type, h⟩

theorem AmongSelectors.member {x : Json} (hx : value.get? name = some x)
    (h : x.AmongSelectors place) : value.AmongSelectors (.member name :: place) := by
  obtain ⟨outer, inner, rule, selectors, rfl, hrule, type, hselectors⟩ := h
  exact ⟨.member name :: outer, inner, rule, selectors, rfl,
    at?_member_eq_some.mpr ⟨x, hx, hrule⟩, type, hselectors⟩

theorem AmongSelectors.index {xs : List Json} {x : Json} (hx : xs[i]? = some x)
    (h : x.AmongSelectors place) : (arr xs).AmongSelectors (.index i :: place) := by
  obtain ⟨outer, inner, rule, selectors, rfl, hrule, type, hselectors⟩ := h
  exact ⟨.index i :: outer, inner, rule, selectors, rfl,
    at?_index_eq_some.mpr ⟨xs, x, rfl, hx, hrule⟩, type, hselectors⟩

/-! ## Canonical descriptions -/

theorem get?_canonical (value : Json) (name : String) :
    value.canonical.get? name = (value.get? name).map (canonicalField value.type? name) := by
  cases value with
  | obj members => rw [canonical_obj, get?, lookup_map_snd]; rfl
  | _ => rfl

/-- The items of a canonical array are the canonical forms of items that are no comments. -/
theorem exists_of_canonical_eq_arr {xs : List Json} {x : Json} (h : value.canonical = .arr xs)
    (hx : xs[i]? = some x) : ∃ y : Json, y.type? ≠ some "comment" ∧ x = y.canonical := by
  cases value with
  | arr ys =>
    rw [canonical_arr] at h
    obtain rfl := Json.arr.inj h
    obtain ⟨y, hy, rfl⟩ := List.mem_map.mp (List.mem_of_getElem? hx)
    exact ⟨y, by simpa using (List.mem_filter.mp hy).2, rfl⟩
  | _ => cases h

/-- The three ways in which a member is read. -/
theorem canonicalField_cases (kind : Option String) (name : String) (value : Json) :
    canonicalField kind name value = value.canonical ∨
      (∃ s, canonicalField kind name value = .str s) ∨
      (kind = some "rule" ∧ name = "selectors" ∧
        ∃ selectors, canonicalField kind name value = .arr selectors) := by
  cases value with
  | str s => exact .inr (.inl ⟨_, canonicalField_str kind name s⟩)
  | arr items =>
    by_cases h : kind = some "rule" ∧ name = "selectors"
    · exact .inr (.inr ⟨h.1, h.2, _, by simp [canonicalField, canonicalText?, h]; rfl⟩)
    · exact .inl (by simp [canonicalField, canonicalText?, h])
  | _ => exact .inl rfl

/-- What holds of the canonical form of a member's value holds of the member, unless it is
the selectors of a rule. -/
theorem amongSelectors_member {form : Json} {kind : Option String} {x : Json}
    (hget : form.get? name = some (canonicalField kind name x))
    (type : kind = some "rule" → form.type? = some "rule")
    (ih : x.canonical.at? (place ++ [.index i]) = some item → x.canonical.AmongSelectors place)
    (hitem : (canonicalField kind name x).at? (place ++ [.index i]) = some item) :
    form.AmongSelectors (.member name :: place) := by
  rcases canonicalField_cases kind name x with hx | ⟨s, hx⟩ | ⟨hkind, rfl, selectors, hx⟩
  · rw [hx] at hget hitem
    exact .member hget (ih hitem)
  · rw [hx, at?_str] at hitem
    cases hitem
  · rw [hx] at hget
    exact .here (type hkind) hget place

/-- A comment that is left in an array is left among selectors. -/
theorem amongSelectors_of_canonical (hitem : value.canonical.at? (place ++ [.index i]) = some item)
    (hcomment : item.type? = some "comment") : value.canonical.AmongSelectors place := by
  induction place generalizing value with
  | nil =>
    obtain ⟨xs, x, hvalue, hx, hat⟩ := at?_index_eq_some.mp hitem
    obtain ⟨y, hy, rfl⟩ := exists_of_canonical_eq_arr hvalue hx
    obtain rfl := Option.some.inj hat
    rw [type?_canonical] at hcomment
    exact absurd hcomment hy
  | cons step place ih =>
    cases step with
    | index j =>
      obtain ⟨xs, x, hvalue, hx, hat⟩ := at?_index_eq_some.mp hitem
      obtain ⟨y, -, rfl⟩ := exists_of_canonical_eq_arr hvalue hx
      rw [hvalue]
      exact .index hx (ih hat)
    | member name =>
      obtain ⟨x, hx, hat⟩ := at?_member_eq_some.mp hitem
      have hget := hx
      rw [get?_canonical] at hx
      obtain ⟨y, -, rfl⟩ := Option.map_eq_some_iff.mp hx
      exact amongSelectors_member hget (by rw [type?_canonical]; exact id) ih hat

end Json

/-- The prelude is a text; all other members are read as in any object. -/
theorem canonicalPayloadField_cases (atRule : String) (kind : Option String) (name : String)
    (value : Json) :
    canonicalPayloadField atRule kind name value = Json.canonicalField kind name value ∨
      ∃ s, canonicalPayloadField atRule kind name value = .str s := by
  unfold canonicalPayloadField
  split
  · cases h : (Json.canonicalField kind name value).str? with
    | none => exact .inl (Json.mapStr_of_str?_eq_none h)
    | some s =>
      rw [Json.str?_eq_some_iff.mp h]
      exact .inr ⟨_, rfl⟩
  · exact .inl rfl

theorem amongSelectors_of_canonicalPayload {kind : String} {payload item : Json}
    {place : List Step} {i : Nat}
    (hitem : (canonicalPayload kind payload).at? (place ++ [.index i]) = some item)
    (hcomment : item.type? = some "comment") :
    (canonicalPayload kind payload).AmongSelectors place := by
  cases payload with
  | obj members =>
    cases place with
    | nil =>
      obtain ⟨xs, x, hvalue, -⟩ := Json.at?_index_eq_some.mp hitem
      rw [canonicalPayload_obj] at hvalue
      cases hvalue
    | cons step place =>
      rw [List.cons_append] at hitem
      cases step with
      | index j =>
        obtain ⟨xs, x, hvalue, -⟩ := Json.at?_index_eq_some.mp hitem
        rw [canonicalPayload_obj] at hvalue
        cases hvalue
      | member name =>
        obtain ⟨x, hx, hat⟩ := Json.at?_member_eq_some.mp hitem
        have hget := hx
        rw [canonicalPayload_obj, Json.get?, Json.lookup_map_snd] at hx
        obtain ⟨y, -, rfl⟩ := Option.map_eq_some_iff.mp hx
        rcases canonicalPayloadField_cases kind (Json.obj members).type? name y with hy | ⟨s, hy⟩
        · rw [hy] at hget hat
          exact Json.amongSelectors_member hget (type?_canonicalPayload kind _ (.inr rfl)).mpr
            (fun h => Json.amongSelectors_of_canonical h hcomment) hat
        · rw [hy, Json.at?_str] at hat
          cases hat
  | _ => exact Json.amongSelectors_of_canonical hitem hcomment

/-- **Comments are dropped from the arrays of a description.** In the canonical form of an
at-rule, no array at any depth has a comment, apart from the selectors of a rule and what
lies among them. -/
theorem descriptionComments_dropped (kind : String) (payload : Json) (span : Span) :
    ∃ form, (Node.other kind payload span).canonical? = some (.other kind form span) ∧
      ∀ (place : List Step) (i : Nat) (item : Json), form.at? (place ++ [.index i]) = some item →
        ¬ form.AmongSelectors place → item.type? ≠ some "comment" := by
  refine ⟨canonicalPayload kind payload, rfl, fun place i item hitem hplace hcomment => ?_⟩
  exact hplace (amongSelectors_of_canonicalPayload hitem hcomment)

/-- A rule inside a layer, with a comment in front of its only selector and one in front of
its only declaration. -/
def commentedLayer : Json :=
  let comment : Json := .obj [("comment", .str "c"), ("type", .str "comment")]
  .obj [("rules", .arr [.obj [("declarations", .arr [comment,
      .obj [("property", .str "color"), ("type", .str "declaration"), ("value", .str "red")]]),
    ("selectors", .arr [comment, .str "a"]), ("type", .str "rule")]])]

theorem descriptionComments_dropped_commentedLayer :
    ∃ form item, (Node.other "layer" commentedLayer .unknown).canonical? =
        some (.other "layer" form .unknown) ∧
      form.at? ([.member "rules", .index 0, .member "declarations"] ++ [.index 0]) = some item ∧
      ¬ form.AmongSelectors [.member "rules", .index 0, .member "declarations"] ∧
      item.type? ≠ some "comment" := by
  obtain ⟨form, hform, hdropped⟩ := descriptionComments_dropped "layer" commentedLayer .unknown
  obtain rfl := (Node.other.inj (Option.some.inj hform)).2.1
  have hplace : ¬ (canonicalPayload "layer" commentedLayer).AmongSelectors
      [.member "rules", .index 0, .member "declarations"] := by
    rintro ⟨outer, inner, rule, selectors, hplace, -⟩
    have hmem : Step.member "selectors" ∈ outer ++ .member "selectors" :: inner := by simp
    rw [← hplace] at hmem
    revert hmem
    decide
  exact ⟨_, _, hform, rfl, hplace, hdropped _ 0 _ rfl hplace⟩

/-- A comment in front of the selectors of a rule is still there in the canonical form. -/
theorem selectorComment_kept :
    ((canonicalPayload "layer" commentedLayer).at?
      [.member "rules", .index 0, .member "selectors", .index 0]).bind Json.type? =
        some "comment" := by
  rfl

end StyleDelta
