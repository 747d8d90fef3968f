import StyleDelta.Proofs.CommonNodes
import StyleDelta.Proofs.Cosmetic
import StyleDelta.Proofs.Positions
import StyleDelta.Proofs.Sheet.Stability

/-!
Cosmetic edits of the description of an at-rule.

`Json.Edit` is one edit somewhere in a description: a comment among the items of an array,
or another spelling of a text that a declaration or a rule holds. It happens at any depth,
but not among the selectors of a rule, of which the texts are respelled and nothing else
is done. An edit keeps the type of every object (`Json.Edit.type?_eq`), so all other members
are read as before it, and the canonical form is the same (`Json.Edit.canonical_eq`).
`AtRule.Edit` adds the prelude, which is under a name from the data: it may be the type of
the description or the value of a declaration. Main statement: `atRule_cosmetic`.
-/

namespace StyleDelta

open Text

/-! ## Edits -/

namespace Json

/-- The member of an object of a type that holds the selectors of a rule. -/
def IsSelectors (kind : Option String) (name : String) (value : Json) : Prop :=
  kind = some "rule" ∧ name = "selectors" ∧ value.arr?.isSome

/-- One cosmetic edit at any depth of a description. -/
inductive Edit : Json → Json → Prop
  | insert {c : Json} (h : c.type? = some "comment") (before after : List Json) :
      Edit (.arr (before ++ after)) (.arr (before ++ c :: after))
  | delete {c : Json} (h : c.type? = some "comment") (before after : List Json) :
      Edit (.arr (before ++ c :: after)) (.arr (before ++ after))
  | respellValue {v w : String} (h : canonicalValue v = canonicalValue w)
      (before after : List (String × Json))
      (htype : (obj (before ++ ("value", .str v) :: after)).type? = some "declaration") :
      Edit (.obj (before ++ ("value", .str v) :: after))
        (.obj (before ++ ("value", .str w) :: after))
  | respellSelector {s t : String} (h : canonicalSelector s = canonicalSelector t)
      (left right : List Json) (before after : List (String × Json))
      (htype : (obj (before ++ ("selectors", .arr (left ++ .str s :: right)) :: after)).type? =
        some "rule") :
      Edit (.obj (before ++ ("selectors", .arr (left ++ .str s :: right)) :: after))
        (.obj (before ++ ("selectors", .arr (left ++ .str t :: right)) :: after))
  | insideItem {x y : Json} (h : Edit x y) (before after : List Json) :
      Edit (.arr (before ++ x :: after)) (.arr (before ++ y :: after))
  | insideMember {x y : Json} (h : Edit x y) (name : String) (before after : List (String × Json))
      (hname : ¬ IsSelectors (obj (before ++ (name, x) :: after)).type? name x) :
      Edit (.obj (before ++ (name, x) :: after)) (.obj (before ++ (name, y) :: after))

end Json

/-- One cosmetic edit of the description of an at-rule of a kind. -/
inductive AtRule.Edit (kind : String) : Json → Json → Prop
  | inside {p q : Json} (h : p.Edit q) : Edit kind p q
  | prelude {s t : String} (h : canonicalSelector s = canonicalSelector t)
      (before after : List (String × Json)) :
      Edit kind (.obj (before ++ (kind, .str s) :: after))
        (.obj (before ++ (kind, .str t) :: after))

/-- The second description comes from the first by any number of cosmetic edits. -/
def AtRule.Cosmetic (kind : String) : Json → Json → Prop :=
  Relation.ReflTransGen (AtRule.Edit kind)

/-! ## What an edit keeps -/

namespace Json

variable {x y : Json} {name : String} {before after : List (String × Json)}

/-- An edit changes an array or an object, never a text. -/
theorem Edit.sort (h : Edit x y) :
    (∃ xs ys, x = .arr xs ∧ y = .arr ys) ∨ (∃ xs ys, x = .obj xs ∧ y = .obj ys) := by
  cases h with
  | insert | delete | insideItem => exact .inl ⟨_, _, rfl, rfl⟩
  | respellValue | respellSelector | insideMember => exact .inr ⟨_, _, rfl, rfl⟩

theorem Edit.str?_eq_none (h : Edit x y) : x.str? = none ∧ y.str? = none := by
  obtain ⟨xs, ys, rfl, rfl⟩ | ⟨xs, ys, rfl, rfl⟩ := h.sort
  · exact ⟨rfl, rfl⟩
  · exact ⟨rfl, rfl⟩

theorem Edit.isSome_arr? (h : Edit x y) : x.arr?.isSome = y.arr?.isSome := by
  obtain ⟨xs, ys, rfl, rfl⟩ | ⟨xs, ys, rfl, rfl⟩ := h.sort
  · rfl
  · rfl

/-- The type of an object is that of the string under its name, and of no other member. -/
theorem type?_member (h : name ≠ "type" ∨ x.str? = none ∧ y.str? = none) :
    (obj (before ++ (name, x) :: after)).type? = (obj (before ++ (name, y) :: after)).type? := by
  simp only [type?, get?, List.lookup_append, List.lookup_cons]
  rcases h with hname | ⟨hx, hy⟩
  · rw [beq_eq_false_iff_ne.mpr (Ne.symm hname)]
  · cases before.lookup "type" with
    | some value => rfl
    | none => split <;> simp [hx, hy]

theorem Edit.type?_eq (h : Edit x y) : x.type? = y.type? := by
  cases h with
  | insert | delete | insideItem => rfl
  | respellValue | respellSelector => exact type?_member (.inl (by decide))
  | insideMember h name before after => exact type?_member (.inr h.str?_eq_none)

/-- An object has the canonical form that its members have. -/
theorem canonical_member
    (htype : (obj (before ++ (name, x) :: after)).type? =
      (obj (before ++ (name, y) :: after)).type?)
    (h : canonicalField (obj (before ++ (name, x) :: after)).type? name x =
      canonicalField (obj (before ++ (name, x) :: after)).type? name y) :
    (obj (before ++ (name, x) :: after)).canonical =
      (obj (before ++ (name, y) :: after)).canonical := by
  rw [canonical_obj, canonical_obj, ← htype]
  simp only [List.map_append, List.map_cons, h]

theorem canonicalField_eq_canonical {kind : Option String} {value : Json}
    (hstr : value.str? = none) (h : ¬ IsSelectors kind name value) :
    canonicalField kind name value = value.canonical := by
  cases value with
  | str s => simp [str?] at hstr
  | arr items =>
    have hname : ¬ (kind = some "rule" ∧ name = "selectors") := by
      rintro ⟨hkind, hname⟩
      exact h ⟨hkind, hname, rfl⟩
    simp [canonicalField, canonicalText?, hname]
  | _ => rfl

theorem Edit.canonical_eq (h : Edit x y) : x.canonical = y.canonical := by
  induction h with
  | insert h before after => simp [canonical_arr, h]
  | delete h before after => simp [canonical_arr, h]
  | respellValue h before after htype =>
    apply canonical_member (type?_member (.inl (by decide)))
    simp only [htype, canonicalField_str, and_self, if_true, h]
  | respellSelector h left right before after htype =>
    apply canonical_member (type?_member (.inl (by decide)))
    rw [htype]
    simp [canonicalField, canonicalText?, mapStr, h]
  | insideItem h before after ih =>
    simp only [canonical_arr, List.filter_append, List.filter_cons, h.type?_eq, List.map_append]
    split
    · rw [List.map_cons, List.map_cons, ih]
    · rfl
  | insideMember h name before after hname ih =>
    apply canonical_member (type?_member (.inr h.str?_eq_none))
    have hother := hname
    rw [IsSelectors, h.isSome_arr?] at hother
    rw [canonicalField_eq_canonical h.str?_eq_none.1 hname,
      canonicalField_eq_canonical h.str?_eq_none.2 hother, ih]

end Json

/-! ### The prelude -/

variable {kind s t : String} {before after : List (String × Json)}

/-- A prelude that is the type of its description is respelled to no type that matters. -/
theorem type?_prelude (h : canonicalSelector s = canonicalSelector t) {u : String}
    (hu : u = "declaration" ∨ u = "rule") :
    (Json.obj (before ++ (kind, .str s) :: after)).type? = some u ↔
      (Json.obj (before ++ (kind, .str t) :: after)).type? = some u := by
  have htext : s = u ↔ t = u := by
    rw [← canonicalSelector_eq_iff hu, h, canonicalSelector_eq_iff hu]
  simp only [Json.type?, Json.get?, List.lookup_append, List.lookup_cons]
  cases before.lookup "type" with
  | some value => rfl
  | none => split <;> simp [Json.str?, htext]

theorem canonicalPayloadField_prelude (h : canonicalSelector s = canonicalSelector t)
    (type : Option String) :
    canonicalPayloadField kind type kind (.str s) =
      canonicalPayloadField kind type kind (.str t) := by
  have hvalue : canonicalValue s = canonicalValue t := by
    rw [canonicalValue, canonicalValue, scan_eq_of_canonicalSelector h]
  simp only [canonicalPayloadField, if_true, Json.canonicalField_str, Json.mapStr]
  split
  · rw [hvalue]
  · rw [h]

theorem AtRule.Edit.canonicalPayload_eq {p q : Json} (h : AtRule.Edit kind p q) :
    canonicalPayload kind p = canonicalPayload kind q := by
  cases h with
  | inside h => rw [canonicalPayload, canonicalPayload, h.canonical_eq]
  | @prelude s t h before after =>
    have hfields : Json.canonicalField (Json.obj (before ++ (kind, .str s) :: after)).type? =
        Json.canonicalField (Json.obj (before ++ (kind, .str t) :: after)).type? :=
      canonicalField_congr fun _ hu => type?_prelude h hu
    have hothers : canonicalPayloadField kind (Json.obj (before ++ (kind, .str s) :: after)).type? =
        canonicalPayloadField kind (Json.obj (before ++ (kind, .str t) :: after)).type? := by
      funext name value
      rw [canonicalPayloadField, canonicalPayloadField, hfields]
    rw [canonicalPayload_obj, canonicalPayload_obj, hothers]
    simp only [List.map_append, List.map_cons, canonicalPayloadField_prelude h]

theorem AtRule.Cosmetic.canonicalPayload_eq {p q : Json} (h : AtRule.Cosmetic kind p q) :
    canonicalPayload kind p = canonicalPayload kind q := by
  induction h with
  | refl => rfl
  | tail _ hedit ih => exact ih.trans hedit.canonicalPayload_eq

/-! ## Sheets -/

theorem Node.essence_append (xs ys : List Node) :
    essence (xs ++ ys) = essence xs ++ essence ys := by
  rw [essence, canonicalNodes_append, List.map_append]
  rfl

theorem diff_of_essence_eq {a b : Stylesheet} (h : Node.essence a.nodes = Node.essence b.nodes) :
    diff a b = .unchanged := by
  rw [diff_eq_unchanged_iff, diff_changed_essence, ← h, ← diff_changed_essence, diff_self]
  rfl

/-- **Cosmetics inside an at-rule never count.** Two at-rules of one kind of which the
descriptions come from each other by cosmetic edits have one canonical description and one
identity, and wherever they stand among the same siblings, there is no difference. -/
theorem atRule_cosmetic {kind : String} {p q : Json} (h : AtRule.Cosmetic kind p q)
    (span span' : Span) (before after : List Node) :
    ∃ payload key,
      (Node.other kind p span).canonical? = some (.other kind payload span) ∧
      (Node.other kind q span').canonical? = some (.other kind payload span') ∧
      (Node.other kind p span).canonicalIdentity? = some key ∧
      (Node.other kind q span').canonicalIdentity? = some key ∧
      diff ⟨before ++ .other kind p span :: after⟩ ⟨before ++ .other kind q span' :: after⟩ =
        .unchanged := by
  have hpayload := h.canonicalPayload_eq
  have hform : (Node.other kind p span).canonical?.map Node.unplaced =
      (Node.other kind q span').canonical?.map Node.unplaced := by
    simp [Node.canonical?, Node.unplaced, hpayload]
  refine ⟨canonicalPayload kind p, .other kind (canonicalPayload kind p).compact, rfl, ?_, rfl,
    ?_, ?_⟩
  · rw [Node.canonical?, hpayload]
  · simp [Node.canonicalIdentity?, Node.canonical?, Node.identity?, hpayload]
  · apply diff_of_essence_eq
    rw [Node.essence_append, Node.essence_append, Node.essence_cons_congr hform]

/-- A layer with one rule, with its prelude, selector, value and further items to choose. -/
def layerDescription (prelude selector value : String) (items : List Json) : Json :=
  .obj [("layer", .str prelude), ("rules", .arr [.obj [("declarations", .arr (items ++
      [.obj [("property", .str "color"), ("type", .str "declaration"), ("value", .str value)]])),
    ("selectors", .arr [.str selector]), ("type", .str "rule")]])]

/-- A comment, a colour, a selector and the prelude, one after the other. -/
theorem atRule_cosmetic_layer :
    AtRule.Cosmetic "layer" (layerDescription "'base'" "[a='x']" "#FFF" [])
        (layerDescription "\"base\"" "[a=\"x\"]" "#fff"
          [.obj [("comment", .str "c"), ("type", .str "comment")]]) ∧
      diff ⟨[.other "layer" (layerDescription "'base'" "[a='x']" "#FFF" []) ⟨1, 1⟩]⟩
        ⟨[.other "layer" (layerDescription "\"base\"" "[a=\"x\"]" "#fff"
          [.obj [("comment", .str "c"), ("type", .str "comment")]]) ⟨2, 2⟩]⟩ = .unchanged := by
  let comment : Json := .obj [("comment", .str "c"), ("type", .str "comment")]
  have inRules : ∀ {prelude : String} {r s : Json}, r.Edit s →
      AtRule.Edit "layer" (.obj [("layer", .str prelude), ("rules", .arr [r])])
        (.obj [("layer", .str prelude), ("rules", .arr [s])]) := by
    intro prelude r s h
    refine .inside (.insideMember (.insideItem h [] []) "rules" [("layer", .str prelude)] [] ?_)
    simp [Json.IsSelectors]
  have inDeclarations : ∀ {x y : Json}, x.Edit y → ∀ others : List (String × Json),
      (Json.obj (("declarations", x) :: others)).Edit (.obj (("declarations", y) :: others)) := by
    intro x y h others
    exact .insideMember h "declarations" [] others (by simp [Json.IsSelectors])
  have hcomment : AtRule.Edit "layer" (layerDescription "'base'" "[a='x']" "#FFF" [])
      (layerDescription "'base'" "[a='x']" "#FFF" [comment]) :=
    inRules (inDeclarations (.insert rfl [] _) _)
  have hcolour : AtRule.Edit "layer" (layerDescription "'base'" "[a='x']" "#FFF" [comment])
      (layerDescription "'base'" "[a='x']" "#fff" [comment]) :=
    inRules (inDeclarations (.insideItem (.respellValue (by decide)
      [("property", .str "color"), ("type", .str "declaration")] [] rfl) [comment] []) _)
  have hselector : AtRule.Edit "layer" (layerDescription "'base'" "[a='x']" "#fff" [comment])
      (layerDescription "'base'" "[a=\"x\"]" "#fff" [comment]) :=
    inRules (.respellSelector (by decide) [] [] [_] [("type", .str "rule")] rfl)
  have hprelude : AtRule.Edit "layer" (layerDescription "'base'" "[a=\"x\"]" "#fff" [comment])
      (layerDescription "\"base\"" "[a=\"x\"]" "#fff" [comment]) := .prelude (by decide) [] _
  have h : AtRule.Cosmetic "layer" (layerDescription "'base'" "[a='x']" "#FFF" [])
      (layerDescription "\"base\"" "[a=\"x\"]" "#fff" [comment]) :=
    (((Relation.ReflTransGen.single hcomment).tail hcolour).tail hselector).tail hprelude
  obtain ⟨_, _, -, -, -, -, hdiff⟩ := atRule_cosmetic h ⟨1, 1⟩ ⟨2, 2⟩ [] []
  exact ⟨h, hdiff⟩

end StyleDelta
