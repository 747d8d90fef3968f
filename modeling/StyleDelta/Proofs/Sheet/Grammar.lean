import StyleDelta.Proofs.Sheet.Loading

/-!
The trees that describe a stylesheet.

The shapes say what a tree has to hold, type by type, without a word on how it is read:
`Json.IsItem` and `Json.IsNode` have a constructor for each type, and `Json.IsSheet` is
the tree as a whole. What a type does not ask for is free. Loading succeeds exactly on
trees of the shape (`exists_nodeOf_iff`, `exists_ofJson_iff`).
-/

namespace StyleDelta

namespace Json

/-! ## Shapes -/

def IsText (value : Json) : Prop := ∃ s, value = .str s

/-- An item of a rule. -/
inductive IsItem : Json → Prop
  | declaration {members : Members} {property value : String}
      (type : members.lookup "type" = some (.str "declaration"))
      (hproperty : members.lookup "property" = some (.str property))
      (hvalue : members.lookup "value" = some (.str value)) : IsItem (.obj members)
  | comment {members : Members} {text : String}
      (type : members.lookup "type" = some (.str "comment"))
      (htext : members.lookup "comment" = some (.str text)) : IsItem (.obj members)
  | other {members : Members} {kind : String}
      (type : members.lookup "type" = some (.str kind)) (hdeclaration : kind ≠ "declaration")
      (hcomment : kind ≠ "comment") : IsItem (.obj members)

/-- The items of a rule, where it has any. -/
inductive AreItems : Option Json → Prop
  | absent : AreItems none
  | null : AreItems (some .null)
  | arr {items : List Json} (h : ∀ x ∈ items, IsItem x) : AreItems (some (.arr items))

/-- A node; one of a type that is not known is free. -/
inductive IsNode : Json → Prop
  | rule {members : Members} {selectors : List Json}
      (type : members.lookup "type" = some (.str "rule"))
      (hselectors : members.lookup "selectors" = some (.arr selectors))
      (texts : ∀ x ∈ selectors, IsText x)
      (items : AreItems (members.lookup "declarations")) : IsNode (.obj members)
  | comment {members : Members} {text : String}
      (type : members.lookup "type" = some (.str "comment"))
      (htext : members.lookup "comment" = some (.str text)) : IsNode (.obj members)
  | media {members : Members} {query : String} {nodes : List Json}
      (type : members.lookup "type" = some (.str "media"))
      (hquery : members.lookup "media" = some (.str query))
      (hnodes : members.lookup "rules" = some (.arr nodes))
      (h : ∀ x ∈ nodes, IsNode x) : IsNode (.obj members)
  | block {members : Members} {kind : String} {nodes : List Json} (hkind : kind ∈ blockTypes)
      (type : members.lookup "type" = some (.str kind))
      (hnodes : members.lookup "rules" = some (.arr nodes))
      (h : ∀ x ∈ nodes, IsNode x) : IsNode (.obj members)
  | other {members : Members} {kind : String} (hkind : kind ∉ knownTypes)
      (type : members.lookup "type" = some (.str kind)) : IsNode (.obj members)

/-- The tree of a stylesheet, for which the parser reported no errors. -/
inductive IsSheet : Json → Prop
  | sheet {members body : Members} {nodes : List Json}
      (type : members.lookup "type" = some (.str "stylesheet"))
      (hbody : members.lookup "stylesheet" = some (.obj body))
      (noErrors : ∀ error more, body.lookup "parsingErrors" ≠ some (.arr (error :: more)))
      (hnodes : body.lookup "rules" = some (.arr nodes)) (h : ∀ x ∈ nodes, IsNode x) :
      IsSheet (.obj members)

end Json

open Json

/-! ## Parts of nodes -/

theorem exists_selectorOf_iff (value : Json) (place : List Step) :
    (∃ text, selectorOf place value = .ok text) ↔ value.IsText := by
  cases value <;> simp [selectorOf, str?, IsText]

theorem exists_selectorsOf_iff (place : List Step) (members : Members) :
    (∃ texts, selectorsOf place members = .ok texts) ↔
      ∃ selectors, members.lookup "selectors" = some (.arr selectors) ∧
        ∀ x ∈ selectors, x.IsText := by
  rcases arr_or_not (members.lookup "selectors") with ⟨selectors, hselectors⟩ | hnone
  · rw [selectorsOf_of_arr place hselectors,
      exists_eachItem_iff _ 0 fun x _ p => exists_selectorOf_iff x p]
    simp [hselectors]
  · rw [selectorsOf_of_not_arr place hnone]
    simp [hnone]

theorem exists_itemOf_iff (value : Json) (place : List Step) :
    (∃ item, itemOf place value = .ok item) ↔ value.IsItem := by
  constructor
  · rintro ⟨item, h⟩
    cases hmembers : value.obj? with
    | none =>
      rw [itemOf_of_not_obj place hmembers] at h
      cases h
    | some members =>
      obtain rfl := obj?_eq_some_iff.mp hmembers
      rcases typed_or_untyped members with ⟨kind, type⟩ | huntyped
      · by_cases hdeclaration : kind = "declaration"
        · subst hdeclaration
          rw [itemOf_declaration place type] at h
          obtain ⟨property, hproperty, h⟩ := bind_eq_ok.mp h
          obtain ⟨text, htext, -⟩ := bind_eq_ok.mp h
          exact .declaration type ((stringOf_eq_ok_iff place).mp hproperty)
            ((stringOf_eq_ok_iff place).mp htext)
        · by_cases hcomment : kind = "comment"
          · subst hcomment
            rw [itemOf_comment place type] at h
            obtain ⟨text, htext, -⟩ := bind_eq_ok.mp h
            exact .comment type ((stringOf_eq_ok_iff place).mp htext)
          · exact .other type hdeclaration hcomment
      · rw [itemOf_untyped place huntyped] at h
        cases h
  · intro h
    cases h with
    | declaration type hproperty hvalue =>
      rw [itemOf_declaration place type, (stringOf_eq_ok_iff place).mpr hproperty,
        (stringOf_eq_ok_iff place).mpr hvalue]
      exact ⟨_, rfl⟩
    | comment type htext =>
      rw [itemOf_comment place type, (stringOf_eq_ok_iff place).mpr htext]
      exact ⟨_, rfl⟩
    | other type hdeclaration hcomment =>
      exact ⟨_, itemOf_other place type hdeclaration hcomment⟩

theorem exists_itemsOf_iff (place : List Step) (members : Members) :
    (∃ items, itemsOf place members = .ok items) ↔
      AreItems (members.lookup "declarations") := by
  rcases items_cases members with h | ⟨items, h⟩ | ⟨value, h, hnull, harr⟩
  · rw [itemsOf_of_absent place h]
    refine ⟨fun _ => ?_, fun _ => ⟨[], rfl⟩⟩
    rcases h with h | h <;> rw [h]
    · exact .absent
    · exact .null
  · rw [itemsOf_of_arr place h, exists_eachItem_iff _ 0 fun x _ p => exists_itemOf_iff x p, h]
    refine ⟨.arr, fun hitems => ?_⟩
    cases hitems with
    | arr hall => exact hall
  · rw [itemsOf_of_not_arr place h hnull harr, h]
    simp only [reduceCtorEq, exists_false, false_iff]
    intro hitems
    cases hitems with
    | null => exact hnull rfl
    | arr _ => cases harr

/-! ## Nodes -/

theorem exists_childrenOf_iff (place : List Step) {members : Members}
    (hload : ∀ nodes, members.lookup "rules" = some (.arr nodes) → ∀ x ∈ nodes, ∀ p,
      (∃ node, nodeOf p x = .ok node) ↔ x.IsNode) :
    (∃ children, childrenOf place members = .ok children) ↔
      ∃ nodes, members.lookup "rules" = some (.arr nodes) ∧ ∀ x ∈ nodes, x.IsNode := by
  rcases arr_or_not (members.lookup "rules") with ⟨nodes, hnodes⟩ | hnone
  · rw [childrenOf_of_arr place hnodes, exists_eachItem_iff place 0 (hload nodes hnodes)]
    simp [hnodes]
  · rw [childrenOf_of_not_arr place hnone]
    simp [hnone]

theorem isNode_of_nodeOf {members : Members} (hload : ∀ nodes,
      members.lookup "rules" = some (.arr nodes) → ∀ x ∈ nodes, ∀ p,
        (∃ node, nodeOf p x = .ok node) ↔ x.IsNode)
    {place : List Step} {node : Node} (h : nodeOf place (.obj members) = .ok node) :
    (obj members).IsNode := by
  rcases typed_or_untyped members with ⟨kind, type⟩ | huntyped
  · rcases type_cases kind with rfl | rfl | rfl | hkind | hkind
    · rw [nodeOf_rule place type] at h
      obtain ⟨texts, htexts, h⟩ := bind_eq_ok.mp h
      obtain ⟨items, hitems, -⟩ := bind_eq_ok.mp h
      obtain ⟨selectors, hselectors, hall⟩ := (exists_selectorsOf_iff place members).mp ⟨_, htexts⟩
      exact .rule type hselectors hall ((exists_itemsOf_iff place members).mp ⟨_, hitems⟩)
    · rw [nodeOf_comment place type] at h
      obtain ⟨text, htext, -⟩ := bind_eq_ok.mp h
      exact .comment type ((stringOf_eq_ok_iff place).mp htext)
    · rw [nodeOf_media place type] at h
      obtain ⟨query, hquery, h⟩ := bind_eq_ok.mp h
      obtain ⟨children, hchildren, -⟩ := bind_eq_ok.mp h
      obtain ⟨nodes, hnodes, hall⟩ := (exists_childrenOf_iff _ hload).mp ⟨_, hchildren⟩
      exact .media type ((stringOf_eq_ok_iff place).mp hquery) hnodes hall
    · rw [nodeOf_block place hkind type] at h
      obtain ⟨children, hchildren, -⟩ := bind_eq_ok.mp h
      obtain ⟨nodes, hnodes, hall⟩ := (exists_childrenOf_iff _ hload).mp ⟨_, hchildren⟩
      exact .block hkind type hnodes hall
    · exact .other hkind type
  · rw [nodeOf_untyped place huntyped] at h
    cases h

theorem exists_nodeOf {value : Json} (h : value.IsNode) (place : List Step) :
    ∃ node, nodeOf place value = .ok node := by
  induction h generalizing place with
  | @rule members selectors type hselectors texts items =>
    obtain ⟨_, htexts⟩ := (exists_selectorsOf_iff place members).mpr ⟨selectors, hselectors, texts⟩
    obtain ⟨_, hitems⟩ := (exists_itemsOf_iff place members).mpr items
    rw [nodeOf_rule place type, htexts, hitems]
    exact ⟨_, rfl⟩
  | comment type htext =>
    rw [nodeOf_comment place type, (stringOf_eq_ok_iff place).mpr htext]
    exact ⟨_, rfl⟩
  | @media members query nodes type hquery hnodes h ih =>
    obtain ⟨_, hchildren⟩ := (exists_eachItem_iff (place ++ [.member "rules"]) 0
      fun x hx p => ⟨fun _ => h x hx, fun _ => ih x hx p⟩).mpr h
    rw [nodeOf_media place type, (stringOf_eq_ok_iff place).mpr hquery,
      childrenOf_of_arr _ hnodes, hchildren]
    exact ⟨_, rfl⟩
  | @block members kind nodes hkind type hnodes h ih =>
    obtain ⟨_, hchildren⟩ := (exists_eachItem_iff (place ++ [.member "rules"]) 0
      fun x hx p => ⟨fun _ => h x hx, fun _ => ih x hx p⟩).mpr h
    rw [nodeOf_block place hkind type, childrenOf_of_arr _ hnodes, hchildren]
    exact ⟨_, rfl⟩
  | other hkind type => exact ⟨_, nodeOf_other place hkind type⟩

theorem exists_nodeOf_iff (value : Json) (place : List Step) :
    (∃ node, nodeOf place value = .ok node) ↔ value.IsNode := by
  induction value using Json.nested_induction generalizing place with
  | obj members ih =>
    refine ⟨fun ⟨node, h⟩ => ?_, fun h => exists_nodeOf h place⟩
    exact isNode_of_nodeOf (fun nodes hnodes x hx p => ih "rules" nodes hnodes x hx p) h
  | other value h =>
    refine ⟨fun ⟨node, hnode⟩ => ?_, fun h => exists_nodeOf h place⟩
    rw [nodeOf_of_not_obj place h] at hnode
    cases hnode

theorem exists_ofJson_iff (tree : Json) :
    (∃ sheet, Stylesheet.ofJson tree = .ok sheet) ↔ tree.IsSheet := by
  have hload : ∀ (body : Members) (nodes : List Json),
      body.lookup "rules" = some (.arr nodes) → ∀ x ∈ nodes, ∀ p,
        (∃ node, nodeOf p x = .ok node) ↔ x.IsNode :=
    fun _ _ _ x _ p => exists_nodeOf_iff x p
  constructor
  · rintro ⟨sheet, h⟩
    obtain ⟨root, body, rfl, type, hbody, noErrors, hchildren⟩ := exists_body_of_ofJson h
    obtain ⟨nodes, hnodes, hall⟩ := (exists_childrenOf_iff _ (hload body)).mp ⟨_, hchildren⟩
    exact .sheet type hbody noErrors hnodes hall
  · rintro ⟨type, hbody, noErrors, hnodes, hall⟩
    obtain ⟨children, hchildren⟩ := (exists_childrenOf_iff _ (hload _)).mpr ⟨_, hnodes, hall⟩
    rw [ofJson_body type hbody noErrors, hchildren]
    exact ⟨⟨children⟩, rfl⟩

end StyleDelta
