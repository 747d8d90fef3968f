import StyleDelta.Proofs.Json.Members
import StyleDelta.Proofs.Sheet.Canonical
import StyleDelta.Proofs.Text.Canonical

/-!
The canonical form of a stylesheet is its own canonical form.

The second pass reads what the first one wrote. It finds every object of the type
it had (`type?_canonical`), so the same comments are gone and the same texts are
respelled, and respelling does nothing the second time. The prelude of an at-rule
is respelled under the at-rule's own name, which may be the very name that makes a
text a value or an object a rule (`canonicalPayload_idem`). Main statement:
`canonical_stable`.
-/

namespace StyleDelta

open Text

/-! ## Descriptions -/

namespace Json

/-- The canonical form of a member in an object of a type. -/
def canonicalField (kind : Option String) (name : String) (value : Json) : Json :=
  (canonicalText? kind name value).getD value.canonical

theorem canonical_arr (items : List Json) :
    (arr items).canonical = arr ((items.filter (·.type? ≠ some "comment")).map canonical) := by
  rw [canonical, canonicalItems_eq_map_filter]

theorem canonical_obj (members : List (String × Json)) :
    (obj members).canonical =
      obj (members.map fun m => (m.1, canonicalField ((obj members).type?) m.1 m.2)) := by
  rw [canonical, canonicalMembers_eq_map]
  rfl

theorem lookup_map_snd (f : String → Json → Json) (name : String)
    (members : List (String × Json)) :
    (members.map fun m => (m.1, f m.1 m.2)).lookup name = (members.lookup name).map (f name) := by
  induction members with
  | nil => rfl
  | cons m members ih =>
    obtain ⟨key, value⟩ := m
    by_cases h : name = key
    · subst h
      simp
    · simp [List.lookup_cons, beq_eq_false_iff_ne.mpr h, ih]

/-- The type of an object whose members are rewritten. -/
theorem type?_map_snd (f : String → Json → Json) (members : List (String × Json)) :
    (obj (members.map fun m => (m.1, f m.1 m.2))).type? =
      (members.lookup "type").bind fun value => (f "type" value).str? := by
  simp only [type?, get?, lookup_map_snd, Option.bind_map]
  rfl

/-! ### Members -/

theorem canonicalField_str (kind : Option String) (name s : String) :
    canonicalField kind name (.str s) =
      .str (if kind = some "declaration" ∧ name = "value" then canonicalValue s else s) := by
  by_cases h : kind = some "declaration" ∧ name = "value" <;>
    simp [canonicalField, canonicalText?, canonical, h]

/-- Only a string has a string as its canonical form. -/
theorem str?_canonicalField_eq_none {kind : Option String} {name : String} {value : Json}
    (h : value.str? = none) : (canonicalField kind name value).str? = none := by
  cases value with
  | str s => simp [str?] at h
  | arr items =>
    by_cases hr : kind = some "rule" ∧ name = "selectors" <;>
      simp [canonicalField, canonicalText?, canonical, str?, hr]
  | _ => rfl

theorem str?_canonicalField_type (kind : Option String) (value : Json) :
    (canonicalField kind "type" value).str? = value.str? := by
  cases h : value.str? with
  | none => exact str?_canonicalField_eq_none h
  | some s =>
    obtain rfl := str?_eq_some_iff.mp h
    simp [canonicalField_str, str?]

/-- An object keeps its type, and nothing else gets one. -/
theorem type?_canonical (value : Json) : value.canonical.type? = value.type? := by
  cases value with
  | obj members =>
    rw [canonical_obj, type?_map_snd]
    simp only [str?_canonicalField_type]
    rfl
  | _ => rfl

theorem mapStr_of_str?_eq_none {f : String → String} {value : Json} (h : value.str? = none) :
    value.mapStr f = value := by
  cases value with
  | str s => simp [str?] at h
  | _ => rfl

theorem mapStr_mapStr_canonicalSelector (value : Json) :
    (value.mapStr canonicalSelector).mapStr canonicalSelector =
      value.mapStr canonicalSelector := by
  cases value with
  | str s => simp [mapStr, canonicalSelector_idem]
  | _ => rfl

/-- A member is stable if the value in it is. -/
theorem canonicalField_idem (kind : Option String) (name : String) {value : Json}
    (h : value.canonical.canonical = value.canonical) :
    canonicalField kind name (canonicalField kind name value) = canonicalField kind name value := by
  cases value with
  | str s =>
    simp only [canonicalField_str]
    split
    · rw [canonicalValue_idem]
    · rfl
  | arr items =>
    by_cases hr : kind = some "rule" ∧ name = "selectors"
    · simp only [canonicalField, canonicalText?, hr, and_self, if_true, Option.getD_some,
        List.map_map]
      refine congrArg arr (List.map_congr_left fun item _ => ?_)
      exact mapStr_mapStr_canonicalSelector item
    · have hfield : ∀ xs, canonicalField kind name (.arr xs) = (arr xs).canonical := by
        intro xs
        simp [canonicalField, canonicalText?, hr]
      rw [hfield, canonical_arr, hfield, ← canonical_arr, h]
  | _ => exact h

/-! ### Whole descriptions -/

theorem canonical_idem (value : Json) : value.canonical.canonical = value.canonical := by
  induction value using Json.induction with
  | null => rfl
  | bool b => rfl
  | num n => rfl
  | str s => rfl
  | arr items ih =>
    have hkept : ∀ x ∈ (items.filter (·.type? ≠ some "comment")).map canonical,
        decide (x.type? ≠ some "comment") = true := by
      intro x hx
      obtain ⟨item, hitem, rfl⟩ := List.mem_map.mp hx
      rw [type?_canonical]
      exact (List.mem_filter.mp hitem).2
    rw [canonical_arr, canonical_arr, List.filter_eq_self.mpr hkept, List.map_map]
    refine congrArg arr (List.map_congr_left fun item hitem => ?_)
    exact ih item (List.mem_filter.mp hitem).1
  | obj members ih =>
    have htype := type?_canonical (obj members)
    rw [canonical_obj] at htype ⊢
    rw [canonical_obj, htype, List.map_map]
    refine congrArg obj (List.map_congr_left fun m hm => ?_)
    exact congrArg (Prod.mk m.1) (canonicalField_idem _ _ (ih m hm))

end Json

/-! ## At-rules -/

/-- The canonical form of a member in the description of an at-rule. -/
def canonicalPayloadField (atRule : String) (kind : Option String) (name : String)
    (value : Json) : Json :=
  if name = atRule then (Json.canonicalField kind name value).mapStr canonicalSelector
  else Json.canonicalField kind name value

theorem canonicalPayload_obj (atRule : String) (members : List (String × Json)) :
    canonicalPayload atRule (.obj members) =
      .obj (members.map fun m =>
        (m.1, canonicalPayloadField atRule (Json.obj members).type? m.1 m.2)) := by
  rw [canonicalPayload, Json.canonical_obj, Json.mapStrAt, List.map_map]
  rfl

/-- Respelling makes no text one of the types that matter, and keeps those that are. -/
theorem canonicalSelector_eq_iff {s t : String} (h : t = "declaration" ∨ t = "rule") :
    canonicalSelector s = t ↔ s = t := by
  constructor
  · intro hs
    rcases h with rfl | rfl
    · exact eq_of_canonicalSelector_eq (by decide) hs
    · exact eq_of_canonicalSelector_eq (by decide) hs
  · rintro rfl
    rcases h with rfl | rfl
    · decide
    · decide

/-- What is asked of the type of an object has the same answer after its respelling. -/
theorem type?_canonicalPayload (atRule : String) (payload : Json) {t : String}
    (h : t = "declaration" ∨ t = "rule") :
    (canonicalPayload atRule payload).type? = some t ↔ payload.type? = some t := by
  cases payload with
  | obj members =>
    rw [canonicalPayload_obj, Json.type?_map_snd]
    simp only [canonicalPayloadField, Json.type?, Json.get?]
    cases members.lookup "type" with
    | none => rfl
    | some value =>
      simp only [Option.bind_some]
      split
      · cases value with
        | str s => simp [Json.canonicalField_str, Json.mapStr, Json.str?, canonicalSelector_eq_iff h]
        | _ =>
          rw [Json.mapStr_of_str?_eq_none (Json.str?_canonicalField_eq_none rfl),
            Json.str?_canonicalField_type]
      · rw [Json.str?_canonicalField_type]
  | _ => rfl

/-- The type of an object matters for its members in two respects only. -/
theorem canonicalField_congr {k l : Option String}
    (h : ∀ t, t = "declaration" ∨ t = "rule" → (k = some t ↔ l = some t)) :
    Json.canonicalField k = Json.canonicalField l := by
  funext name value
  have hdeclaration := h "declaration" (Or.inl rfl)
  have hrule := h "rule" (Or.inr rfl)
  cases value <;> simp [Json.canonicalField, Json.canonicalText?, hdeclaration, hrule]

theorem canonicalPayloadField_idem (atRule : String) (kind : Option String) (name : String)
    (value : Json) :
    canonicalPayloadField atRule kind name (canonicalPayloadField atRule kind name value) =
      canonicalPayloadField atRule kind name value := by
  have hfield := Json.canonicalField_idem kind name value.canonical_idem
  by_cases hname : name = atRule
  · simp only [canonicalPayloadField, if_pos hname]
    cases hs : value.str? with
    | none =>
      have hplain : (Json.canonicalField kind name value).mapStr canonicalSelector =
          Json.canonicalField kind name value :=
        Json.mapStr_of_str?_eq_none (Json.str?_canonicalField_eq_none hs)
      rw [hplain, hfield, hplain]
    | some s =>
      obtain rfl := Json.str?_eq_some_iff.mp hs
      simp only [Json.canonicalField_str, Json.mapStr]
      split
      · -- a declaration whose value is under the at-rule's own name
        simp only [canonicalSelector_canonicalValue, canonicalValue_idem]
      · rw [canonicalSelector_idem]
  · simpa only [canonicalPayloadField, if_neg hname] using hfield

theorem canonicalPayload_idem (atRule : String) (payload : Json) :
    canonicalPayload atRule (canonicalPayload atRule payload) =
      canonicalPayload atRule payload := by
  cases payload with
  | obj members =>
    have htype := canonicalField_congr fun t ht =>
      type?_canonicalPayload atRule (.obj members) ht
    rw [canonicalPayload_obj] at htype ⊢
    rw [canonicalPayload_obj, List.map_map]
    refine congrArg Json.obj (List.map_congr_left fun m _ => congrArg (Prod.mk m.1) ?_)
    rw [canonicalPayloadField, htype]
    exact canonicalPayloadField_idem atRule _ m.1 m.2
  | arr items => exact Json.canonical_idem (.arr items)
  | _ => rfl

/-- A prelude that is the value of a declaration, too. -/
example : canonicalPayload "value"
      (.obj [("type", .str "declaration"), ("value", .str "'#FFF' #FFF")]) =
    .obj [("type", .str "declaration"), ("value", .str "\"#FFF\" #fff")] := by rfl

/-! ## Nodes -/

theorem RuleItem.canonical?_canonical? {item form : RuleItem} (h : item.canonical? = some form) :
    form.canonical? = some form := by
  cases item with
  | declaration d =>
    obtain rfl := Option.some.inj h
    simp [canonical?, Declaration.canonical, canonicalValue_idem]
  | comment c => simp [canonical?] at h
  | other description =>
    obtain rfl := Option.some.inj h
    rfl

/-- A list of forms that are their own forms. -/
theorem filterMap_eq_self {α : Type} {f : α → Option α} {xs : List α}
    (h : ∀ x ∈ xs, f x = some x) : xs.filterMap f = xs := by
  rw [List.filterMap_congr h, List.filterMap_some]

theorem Rule.canonical_canonical (r : Rule) : r.canonical.canonical = r.canonical := by
  have hselectors : (r.selectors.map canonicalSelector).map canonicalSelector =
      r.selectors.map canonicalSelector := by
    simp [canonicalSelector_idem]
  have hitems : (r.items.filterMap RuleItem.canonical?).filterMap RuleItem.canonical? =
      r.items.filterMap RuleItem.canonical? := by
    apply filterMap_eq_self
    intro form hform
    obtain ⟨item, -, hitem⟩ := List.mem_filterMap.mp hform
    exact RuleItem.canonical?_canonical? hitem
  simp only [Rule.canonical, hselectors, hitems]

namespace Node

theorem canonicalNodes_eq_self {forms : List Node} (h : ∀ x ∈ forms, x.canonical? = some x) :
    canonicalNodes forms = forms := by
  rw [canonicalNodes_eq_filterMap]
  exact filterMap_eq_self h

theorem canonicalNodes_canonicalNodes_of_mem {nodes : List Node}
    (h : ∀ x ∈ nodes, ∀ {form : Node}, x.canonical? = some form → form.canonical? = some form) :
    canonicalNodes (canonicalNodes nodes) = canonicalNodes nodes := by
  apply canonicalNodes_eq_self
  intro form hform
  obtain ⟨x, hx, hxform⟩ := mem_canonicalNodes.mp hform
  exact h x hx hxform

/-- A canonical form is its own canonical form. -/
theorem canonical?_canonical? {node form : Node} (h : node.canonical? = some form) :
    form.canonical? = some form := by
  induction node using Node.induction generalizing form with
  | rule r =>
    obtain rfl := Option.some.inj h
    exact congrArg (fun r => some (rule r)) r.canonical_canonical
  | media query children span ih =>
    obtain rfl := Option.some.inj h
    simp only [canonical?, canonicalSelector_idem, canonicalNodes_canonicalNodes_of_mem ih]
  | group kind prelude children span ih =>
    obtain rfl := Option.some.inj h
    simp only [canonical?, canonicalSelector_idem, canonicalNodes_canonicalNodes_of_mem ih]
  | comment c => simp [canonical?] at h
  | other kind payload span =>
    obtain rfl := Option.some.inj h
    simp only [canonical?, canonicalPayload_idem]

theorem canonicalNodes_idem (nodes : List Node) :
    canonicalNodes (canonicalNodes nodes) = canonicalNodes nodes :=
  canonicalNodes_canonicalNodes_of_mem fun _ _ => canonical?_canonical?

end Node

/-- **The canonical form is canonical.** It is its own canonical form, places
included, and it has no comment at any depth. -/
theorem canonical_stable (sheet : Stylesheet) :
    sheet.canonical.canonical = sheet.canonical ∧
      ∀ x ∈ sheet.canonical.nodes, x.CommentFree :=
  ⟨congrArg Stylesheet.mk (Node.canonicalNodes_idem sheet.nodes),
    Node.canonicalNodes_commentFree sheet.nodes⟩

end StyleDelta
