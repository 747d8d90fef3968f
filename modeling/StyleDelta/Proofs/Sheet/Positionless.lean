import StyleDelta.Proofs.Sheet.Loading
import StyleDelta.Proofs.Sheet.Unplaced

/-!
Trees without positions.

Wherever the loader reads the positions of a tree it reads them as places alone. A tree
whose positions are taken away, at every depth, is loaded as the sheet of the tree with
every place unknown, or is refused with the same fault. Items and nodes come first
(`itemOf_erase`, `nodeOf_erase`), then the whole tree (`ofJson_erase`).
-/

namespace StyleDelta

open Json

/-- The sheet with every place in it unknown. -/
def Stylesheet.unplaced (sheet : Stylesheet) : Stylesheet := ⟨Node.unplacedAll sheet.nodes⟩

/-! ## Members without positions -/

/-- The members of an object without positions. -/
abbrev Members.positionless (members : Members) : Members := eraseMembers "position" members

section

variable {members : Members} {kind : String} (place : List Step)

theorem lookup_positionless {field : String} (hfield : field ≠ "position") {value : Json}
    (h : members.lookup field = some value) :
    members.positionless.lookup field = some (value.erase "position") := by
  rw [lookup_eraseMembers hfield, h, Option.map_some]

theorem lookup_positionless_eq_none {field : String} (hfield : field ≠ "position")
    (h : members.lookup field = none) : members.positionless.lookup field = none := by
  rw [lookup_eraseMembers hfield, h, Option.map_none]

theorem bind_str?_positionless {field : String} (h : field ≠ "position") :
    (members.positionless.lookup field).bind str? = (members.lookup field).bind str? := by
  rw [lookup_eraseMembers h, Option.bind_map]
  congr 1
  funext value
  exact str?_erase "position" value

theorem type_positionless : members.positionless.lookup "type" = some (.str kind) ↔
    members.lookup "type" = some (.str kind) := by
  rw [← bind_str?_eq_some_iff, ← bind_str?_eq_some_iff, bind_str?_positionless (by decide)]

theorem untyped_positionless (h : ∀ kind, members.lookup "type" ≠ some (.str kind)) :
    ∀ kind, members.positionless.lookup "type" ≠ some (.str kind) :=
  fun kind hkind => h kind (type_positionless.mp hkind)

theorem Span.ofMembers_positionless (members : Members) :
    Span.ofMembers members.positionless = .unknown := by
  rw [Span.ofMembers, lookup_eraseMembers_self]
  rfl

theorem stringOf_positionless {field : String} (h : field ≠ "position") :
    stringOf place members.positionless field = stringOf place members field := by
  rw [stringOf, stringOf, bind_str?_positionless h]

theorem arr_positionless {field : String} (hfield : field ≠ "position") {items : List Json}
    (h : members.lookup field = some (.arr items)) :
    members.positionless.lookup field = some (.arr (items.map (erase "position"))) := by
  rw [lookup_positionless hfield h, erase_arr]

theorem not_arr_positionless {field : String} (hfield : field ≠ "position")
    (h : ∀ items, members.lookup field ≠ some (.arr items)) :
    ∀ items, members.positionless.lookup field ≠ some (.arr items) := by
  rw [← bind_arr?_eq_none_iff] at h ⊢
  rw [lookup_eraseMembers hfield, Option.bind_map]
  cases hvalue : members.lookup field with
  | none => rfl
  | some value => simpa [hvalue, arr?_erase] using h

/-! ## Parts of nodes -/

theorem selectorsOf_positionless (members : Members) :
    selectorsOf place members.positionless = selectorsOf place members := by
  have hselector : ∀ (x : Json) p,
      selectorOf p (x.erase "position") = (selectorOf p x).map id := by
    intro x p
    rw [selectorOf, str?_erase, ← selectorOf, Except.map_id, id]
  rcases arr_or_not (members.lookup "selectors") with ⟨selectors, h⟩ | h
  · rw [selectorsOf_of_arr place (arr_positionless (by decide) h), selectorsOf_of_arr place h,
      eachItem_map_map _ _ fun x _ => hselector x, List.map_id_fun, Except.map_id, id]
  · rw [selectorsOf_of_not_arr place (not_arr_positionless (by decide) h),
      selectorsOf_of_not_arr place h]

theorem itemOf_erase (value : Json) :
    itemOf place (value.erase "position") = (itemOf place value).map RuleItem.unplaced := by
  cases hmembers : value.obj? with
  | none =>
    rw [itemOf_of_not_obj place hmembers,
      itemOf_of_not_obj place (obj?_erase_eq_none hmembers "position")]
    rfl
  | some members =>
    obtain rfl := obj?_eq_some_iff.mp hmembers
    change itemOf place (.obj (Members.positionless members)) = _
    rcases typed_or_untyped members with ⟨kind, type⟩ | huntyped
    · have type' := type_positionless.mpr type
      by_cases hdeclaration : kind = "declaration"
      · subst hdeclaration
        rw [itemOf_declaration place type', itemOf_declaration place type,
          stringOf_positionless place (by decide), stringOf_positionless place (by decide)]
        simp only [map_bind_ok, Span.ofMembers_positionless]
        rfl
      · by_cases hcomment : kind = "comment"
        · subst hcomment
          rw [itemOf_comment place type', itemOf_comment place type,
            stringOf_positionless place (by decide)]
          simp only [map_bind_ok, Span.ofMembers_positionless]
          rfl
        · rw [itemOf_other place type' hdeclaration hcomment,
            itemOf_other place type hdeclaration hcomment]
          exact congrArg (fun x => Except.ok (RuleItem.other x))
            (erase_erase "position" (.obj members))
    · rw [itemOf_untyped place (untyped_positionless huntyped), itemOf_untyped place huntyped]
      rfl

theorem itemsOf_positionless (members : Members) :
    itemsOf place members.positionless =
      (itemsOf place members).map (List.map RuleItem.unplaced) := by
  rcases items_cases members with h | ⟨items, h⟩ | ⟨value, h, hnull, harr⟩
  · rw [itemsOf_of_absent place h, itemsOf_of_absent place]
    · rfl
    · rcases h with h | h
      · exact Or.inl (lookup_positionless_eq_none (by decide) h)
      · exact Or.inr (lookup_positionless (by decide) h)
  · rw [itemsOf_of_arr place (arr_positionless (by decide) h), itemsOf_of_arr place h,
      eachItem_map_map _ _ fun x _ p => itemOf_erase p x]
  · have h' := lookup_positionless (by decide) h
    have hnull' : value.erase "position" ≠ .null := by
      cases value <;> first | exact absurd rfl hnull | simp [erase]
    have harr' : (value.erase "position").arr? = none := by rw [arr?_erase, harr]; rfl
    rw [itemsOf_of_not_arr place h' hnull' harr', itemsOf_of_not_arr place h hnull harr]
    rfl

theorem blockKind_positionless (members : Members) (kind : String) :
    blockKind members.positionless kind = blockKind members kind := by
  rw [blockKind, blockKind, bind_str?_positionless (by decide)]

theorem blockPrelude_positionless (members : Members) (hkind : kind ∈ blockTypes) :
    blockPrelude members.positionless kind = blockPrelude members kind := by
  have hne : kind ≠ "position" := by
    rintro rfl
    revert hkind
    decide
  rw [blockPrelude, blockPrelude, bind_str?_positionless hne]

theorem payloadOf_positionless (members : Members) :
    payloadOf members.positionless = payloadOf members := by
  have hfilter := eraseMembers_filter "position" fun name => name ≠ "type"
  rw [payloadOf, payloadOf, hfilter, hfilter, eraseMembers_eraseMembers]

/-! ## Nodes -/

theorem childrenOf_positionless
    (hload : ∀ nodes, members.lookup "rules" = some (.arr nodes) → ∀ x ∈ nodes, ∀ p,
      nodeOf p (x.erase "position") = (nodeOf p x).map Node.unplaced) :
    childrenOf place members.positionless =
      (childrenOf place members).map (List.map Node.unplaced) := by
  rcases arr_or_not (members.lookup "rules") with ⟨nodes, h⟩ | h
  · rw [childrenOf_of_arr place (arr_positionless (by decide) h), childrenOf_of_arr place h,
      eachItem_map_map _ _ (hload nodes h)]
  · rw [childrenOf_of_not_arr place (not_arr_positionless (by decide) h),
      childrenOf_of_not_arr place h]
    rfl

theorem nodeOf_positionless
    (hload : ∀ nodes, members.lookup "rules" = some (.arr nodes) → ∀ x ∈ nodes, ∀ p,
      nodeOf p (x.erase "position") = (nodeOf p x).map Node.unplaced) :
    nodeOf place (.obj members.positionless) =
      (nodeOf place (.obj members)).map Node.unplaced := by
  rcases typed_or_untyped members with ⟨kind, type⟩ | huntyped
  · have type' := type_positionless.mpr type
    rcases type_cases kind with rfl | rfl | rfl | hkind | hkind
    · rw [nodeOf_rule place type', nodeOf_rule place type, selectorsOf_positionless,
        itemsOf_positionless]
      simp only [map_bind_ok, bind_map_ok, Span.ofMembers_positionless]
      rfl
    · rw [nodeOf_comment place type', nodeOf_comment place type,
        stringOf_positionless place (by decide)]
      simp only [map_bind_ok, Span.ofMembers_positionless]
      rfl
    · rw [nodeOf_media place type', nodeOf_media place type,
        stringOf_positionless place (by decide), childrenOf_positionless _ hload]
      simp only [map_bind_ok, bind_map_ok, Span.ofMembers_positionless,
        ← Node.unplacedAll_eq_map]
      rfl
    · rw [nodeOf_block place hkind type', nodeOf_block place hkind type,
        childrenOf_positionless _ hload, blockKind_positionless,
        blockPrelude_positionless members hkind]
      simp only [map_bind_ok, bind_map_ok, Span.ofMembers_positionless,
        ← Node.unplacedAll_eq_map]
      rfl
    · rw [nodeOf_other place hkind type', nodeOf_other place hkind type, payloadOf_positionless,
        Span.ofMembers_positionless]
      rfl
  · rw [nodeOf_untyped place (untyped_positionless huntyped), nodeOf_untyped place huntyped]
    rfl

end

theorem nodeOf_erase (value : Json) (place : List Step) :
    nodeOf place (value.erase "position") = (nodeOf place value).map Node.unplaced := by
  induction value using Json.nested_induction generalizing place with
  | obj members ih => exact nodeOf_positionless place fun nodes hnodes => ih "rules" nodes hnodes
  | other value h =>
    rw [nodeOf_of_not_obj place h, nodeOf_of_not_obj place (obj?_erase_eq_none h "position")]
    rfl

/-! ## The whole tree -/

theorem ofJson_body_positionless {root body : Members}
    (type : root.lookup "type" = some (.str "stylesheet"))
    (hbody : root.lookup "stylesheet" = some (.obj body)) :
    Stylesheet.ofJson (.obj root.positionless) =
      (Stylesheet.ofJson (.obj root)).map Stylesheet.unplaced := by
  have type' := type_positionless.mpr type
  have hbody' : root.positionless.lookup "stylesheet" = some (.obj body.positionless) :=
    lookup_positionless (by decide) hbody
  rcases reported_or_not body with ⟨error, more, herrors⟩ | hnone
  · have herrors' := arr_positionless (by decide) herrors
    rw [List.map_cons] at herrors'
    rw [ofJson_reported type hbody herrors, ofJson_reported type' hbody' herrors',
      List.length_cons, List.length_map, ← List.length_cons]
    rfl
  · have hnone' : ∀ error more,
        body.positionless.lookup "parsingErrors" ≠ some (.arr (error :: more)) := by
      intro error more herrors
      rcases arr_or_not (body.lookup "parsingErrors") with ⟨errors, h⟩ | h
      · cases errors with
        | nil =>
          rw [arr_positionless (by decide) h] at herrors
          cases herrors
        | cons first rest => exact hnone first rest h
      · exact not_arr_positionless (by decide) h _ herrors
    rw [ofJson_body type hbody hnone, ofJson_body type' hbody' hnone',
      childrenOf_positionless _ fun nodes _ x _ p => nodeOf_erase x p]
    simp only [map_bind_ok, bind_map_ok, ← Node.unplacedAll_eq_map]
    rfl

/-- A tree without positions is loaded as the sheet of the tree, with every place unknown;
otherwise both have the same fault. -/
theorem ofJson_erase (tree : Json) :
    Stylesheet.ofJson (tree.erase "position") =
      (Stylesheet.ofJson tree).map Stylesheet.unplaced := by
  cases hroot : tree.obj? with
  | none =>
    rw [ofJson_of_not_obj hroot, ofJson_of_not_obj (obj?_erase_eq_none hroot "position")]
    rfl
  | some root =>
    obtain rfl := obj?_eq_some_iff.mp hroot
    change Stylesheet.ofJson (.obj (Members.positionless root)) = _
    rcases typed_or_untyped root with ⟨kind, type⟩ | huntyped
    · have type' := type_positionless.mpr type
      by_cases hkind : kind = "stylesheet"
      · subst hkind
        cases hvalue : root.lookup "stylesheet" with
        | none =>
          rw [ofJson_bodiless type hvalue,
            ofJson_bodiless type' (lookup_positionless_eq_none (by decide) hvalue)]
          rfl
        | some value =>
          cases hbody : value.obj? with
          | none =>
            have hvalue' := lookup_positionless (by decide) hvalue
            rw [ofJson_body_of_not_obj type hvalue hbody,
              ofJson_body_of_not_obj type' hvalue' (obj?_erase_eq_none hbody "position")]
            rfl
          | some body =>
            obtain rfl := obj?_eq_some_iff.mp hbody
            exact ofJson_body_positionless type hvalue
      · rw [ofJson_otherType type hkind, ofJson_otherType type' hkind]
        rfl
    · rw [ofJson_untyped huntyped, ofJson_untyped (untyped_positionless huntyped)]
      rfl

end StyleDelta
