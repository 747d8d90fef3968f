import StyleDelta.Proofs.Json.Members
import StyleDelta.Sheet.OfJson

/-!
The loader by the types of nodes.

Checks follow one another and the first that fails ends them (`bind_eq_ok`,
`bind_eq_error`). Items of an array are taken in order, so a fault in one says that all
before it are loaded (`eachItem_error`). For each type of node there is one equation
that says what is read of it (`nodeOf_rule` and those after it), and a node of any type
falls under one of them (`type_cases`). Likewise for what may be wrong with the tree as a
whole (`ofJson_of_not_obj` and those after it).
-/

namespace StyleDelta

/-! ## Checks one after the other -/

section

variable {ε α β : Type}

theorem bind_eq_ok {x : Except ε α} {f : α → Except ε β} {b : β} :
    x >>= f = .ok b ↔ ∃ a, x = .ok a ∧ f a = .ok b := by
  cases x <;> simp [bind, Except.bind]

theorem bind_eq_error {x : Except ε α} {f : α → Except ε β} {e : ε} :
    x >>= f = .error e ↔ x = .error e ∨ ∃ a, x = .ok a ∧ f a = .error e := by
  cases x <;> simp [bind, Except.bind]

theorem map_bind_ok {γ : Type} (g : β → γ) (x : Except ε α) (f : α → Except ε β) :
    (x >>= f).map g = x >>= fun a => (f a).map g := by
  cases x <;> rfl

theorem bind_map_ok {γ : Type} (g : α → β) (x : Except ε α) (f : β → Except ε γ) :
    x.map g >>= f = x >>= fun a => f (g a) := by
  cases x <;> rfl

end

/-! ## Items of an array -/

section

variable {α β : Type} {load : List Step → α → Except Misfit β} {place : List Step} {i : Nat}

theorem eachItem_cons (load : List Step → α → Except Misfit β) (place : List Step) (i : Nat)
    (item : α) (rest : List α) :
    eachItem load place i (item :: rest) =
      (load (place ++ [.index i]) item >>= fun first =>
        eachItem load place (i + 1) rest >>= fun more => .ok (first :: more)) := rfl

/-- What is loaded comes from the items. -/
theorem mem_of_eachItem {items : List α} {ys : List β}
    (h : eachItem load place i items = .ok ys) :
    ∀ y ∈ ys, ∃ x ∈ items, ∃ p, load p x = .ok y := by
  induction items generalizing i ys with
  | nil =>
    obtain rfl := Except.ok.inj h
    simp
  | cons item rest ih =>
    rw [eachItem_cons] at h
    obtain ⟨first, hfirst, h⟩ := bind_eq_ok.mp h
    obtain ⟨more, hmore, h⟩ := bind_eq_ok.mp h
    obtain rfl := Except.ok.inj h
    intro y hy
    rcases List.mem_cons.mp hy with rfl | hy
    · exact ⟨item, List.mem_cons_self .., _, hfirst⟩
    · obtain ⟨x, hx, p, hload⟩ := ih hmore y hy
      exact ⟨x, List.mem_cons_of_mem _ hx, p, hload⟩

/-- Items that were written are loaded as what they were written of. -/
theorem eachItem_map (write : β → α) {ys : List β} (place : List Step) (i : Nat)
    (h : ∀ y ∈ ys, ∀ p, load p (write y) = .ok y) :
    eachItem load place i (ys.map write) = .ok ys := by
  induction ys generalizing i with
  | nil => rfl
  | cons y ys ih =>
    obtain ⟨hy, hrest⟩ := List.forall_mem_cons.mp h
    rw [List.map_cons, eachItem_cons, hy, ih (i + 1) hrest]
    rfl

/-- Items that are rewritten are loaded as what the items give, rewritten. -/
theorem eachItem_map_map {α' β' : Type} {load' : List Step → α' → Except Misfit β'}
    {g : α → α'} {f : β → β'} {items : List α} (place : List Step) (i : Nat)
    (h : ∀ x ∈ items, ∀ p, load' p (g x) = (load p x).map f) :
    eachItem load' place i (items.map g) = (eachItem load place i items).map (List.map f) := by
  induction items generalizing i with
  | nil => rfl
  | cons item rest ih =>
    obtain ⟨hitem, hrest⟩ := List.forall_mem_cons.mp h
    rw [List.map_cons, eachItem_cons, eachItem_cons, hitem, ih (i + 1) hrest]
    simp only [bind_map_ok, map_bind_ok]
    rfl

/-- All items are loaded exactly if all have the shape that loading one asks for. -/
theorem exists_eachItem_iff {Shape : α → Prop} {items : List α} (place : List Step) (i : Nat)
    (hload : ∀ x ∈ items, ∀ p, (∃ y, load p x = .ok y) ↔ Shape x) :
    (∃ ys, eachItem load place i items = .ok ys) ↔ ∀ x ∈ items, Shape x := by
  induction items generalizing i with
  | nil => simp [eachItem]
  | cons item rest ih =>
    obtain ⟨hitem, hrest⟩ := List.forall_mem_cons.mp hload
    rw [List.forall_mem_cons, ← hitem (place ++ [.index i]), ← ih (i + 1) hrest, eachItem_cons]
    constructor
    · rintro ⟨ys, h⟩
      obtain ⟨first, hfirst, h⟩ := bind_eq_ok.mp h
      obtain ⟨more, hmore, -⟩ := bind_eq_ok.mp h
      exact ⟨⟨first, hfirst⟩, more, hmore⟩
    · rintro ⟨⟨first, hfirst⟩, more, hmore⟩
      exact ⟨first :: more, bind_eq_ok.mpr ⟨first, hfirst, bind_eq_ok.mpr ⟨more, hmore, rfl⟩⟩⟩

/-- A fault comes from the first item that does not have the shape. -/
theorem eachItem_error {Shape : α → Prop} {items : List α} {fault : Misfit}
    (hload : ∀ x ∈ items, ∀ p, (∃ y, load p x = .ok y) ↔ Shape x)
    (h : eachItem load place i items = .error fault) :
    ∃ j x, items[j]? = some x ∧ load (place ++ [.index (i + j)]) x = .error fault ∧
      ¬ Shape x ∧ ∀ y ∈ items.take j, Shape y := by
  induction items generalizing i with
  | nil => cases h
  | cons item rest ih =>
    obtain ⟨hitem, hrest⟩ := List.forall_mem_cons.mp hload
    rw [eachItem_cons] at h
    rcases bind_eq_error.mp h with hfirst | ⟨first, hfirst, h⟩
    · have hshape : ¬ Shape item := by
        rw [← hitem (place ++ [.index i]), hfirst]
        simp
      exact ⟨0, item, rfl, hfirst, hshape, by simp⟩
    · rcases bind_eq_error.mp h with hmore | ⟨more, -, h⟩
      · obtain ⟨j, x, hx, hfault, hshape, hbefore⟩ := ih hrest hmore
        refine ⟨j + 1, x, hx, ?_, hshape, ?_⟩
        · rwa [show i + (j + 1) = i + 1 + j by omega]
        · rw [List.take_succ_cons, List.forall_mem_cons]
          exact ⟨(hitem _).mp ⟨first, hfirst⟩, hbefore⟩
      · cases h

end

/-! ## Types of nodes and items -/

/-- The types of blocks that take a name of a vendor in front. -/
def blockTypes : List String := ["supports", "document", "host"]

/-- The types of nodes that have a shape of their own. -/
def knownTypes : List String := ["rule", "comment", "media"] ++ blockTypes

theorem mem_blockTypes {kind : String} :
    kind ∈ blockTypes ↔ kind = "supports" ∨ kind = "document" ∨ kind = "host" := by
  simp [blockTypes]

theorem typed_or_untyped (members : Members) :
    (∃ kind, members.lookup "type" = some (.str kind)) ∨
      ∀ kind, members.lookup "type" ≠ some (.str kind) := by
  by_cases h : ∃ kind, members.lookup "type" = some (.str kind)
  · exact Or.inl h
  · exact Or.inr fun kind hkind => h ⟨kind, hkind⟩

theorem type_cases (kind : String) :
    kind = "rule" ∨ kind = "comment" ∨ kind = "media" ∨ kind ∈ blockTypes ∨
      kind ∉ knownTypes := by
  simp only [knownTypes, List.mem_append, List.mem_cons, List.not_mem_nil, or_false]
  tauto

section

variable {members : Members} {kind : String} (place : List Step)

theorem typeOf_eq_ok_iff : typeOf place members = .ok kind ↔
    members.lookup "type" = some (.str kind) := by
  rw [← Json.bind_str?_eq_some_iff, typeOf]
  cases (members.lookup "type").bind Json.str? <;> simp

theorem stringOf_eq_ok_iff {field text : String} : stringOf place members field = .ok text ↔
    members.lookup field = some (.str text) := by
  rw [← Json.bind_str?_eq_some_iff, stringOf]
  cases (members.lookup field).bind Json.str? <;> simp

theorem typeOf_of_untyped (h : ∀ kind, members.lookup "type" ≠ some (.str kind)) :
    typeOf place members = .error ⟨place, .untyped⟩ := by
  rw [typeOf, Json.bind_str?_eq_none_iff.mpr h]

theorem stringOf_eq_error {field : String} {fault : Misfit}
    (h : stringOf place members field = .error fault) :
    fault = ⟨place, .noString field⟩ ∧ ∀ text, members.lookup field ≠ some (.str text) := by
  simp only [ne_eq, ← Json.bind_str?_eq_some_iff]
  rw [stringOf] at h
  cases htext : (members.lookup field).bind Json.str? with
  | none =>
    rw [htext] at h
    exact ⟨(Except.error.inj h).symm, by simp⟩
  | some text =>
    rw [htext] at h
    cases h

/-! ### Items -/

theorem itemOf_declaration (h : members.lookup "type" = some (.str "declaration")) :
    itemOf place (.obj members) = (stringOf place members "property" >>= fun property =>
      stringOf place members "value" >>= fun value =>
        .ok (.declaration ⟨property, value, Span.ofMembers members⟩)) := by
  rw [itemOf, membersOf, Json.obj?]
  simp only [bind, Except.bind, (typeOf_eq_ok_iff place).mpr h]
  rfl

theorem itemOf_comment (h : members.lookup "type" = some (.str "comment")) :
    itemOf place (.obj members) = (stringOf place members "comment" >>= fun text =>
      .ok (.comment ⟨text, Span.ofMembers members⟩)) := by
  rw [itemOf, membersOf, Json.obj?]
  simp only [bind, Except.bind, (typeOf_eq_ok_iff place).mpr h]
  rfl

theorem itemOf_other (h : members.lookup "type" = some (.str kind))
    (hdeclaration : kind ≠ "declaration") (hcomment : kind ≠ "comment") :
    itemOf place (.obj members) = .ok (.other ((Json.obj members).erase "position")) := by
  simp [itemOf, membersOf, Json.obj?, bind, Except.bind, (typeOf_eq_ok_iff place).mpr h,
    hdeclaration, hcomment, pure, Except.pure]

theorem itemOf_untyped (h : ∀ kind, members.lookup "type" ≠ some (.str kind)) :
    itemOf place (.obj members) = .error ⟨place, .untyped⟩ := by
  simp [itemOf, membersOf, Json.obj?, bind, Except.bind, typeOf_of_untyped place h]

theorem itemOf_of_not_obj {value : Json} (h : value.obj? = none) :
    itemOf place value = .error ⟨place, .notObject⟩ := by
  simp [itemOf, membersOf, h, bind, Except.bind]

/-! ### Selectors and items of a rule -/

theorem selectorsOf_of_arr {selectors : List Json}
    (h : members.lookup "selectors" = some (.arr selectors)) :
    selectorsOf place members =
      eachItem selectorOf (place ++ [.member "selectors"]) 0 selectors := by
  rw [selectorsOf, Json.bind_arr?_eq_some_iff.mpr h]

theorem selectorsOf_of_not_arr
    (h : ∀ selectors, members.lookup "selectors" ≠ some (.arr selectors)) :
    selectorsOf place members = .error ⟨place, .noSelectors⟩ := by
  rw [selectorsOf, Json.bind_arr?_eq_none_iff.mpr h]

theorem itemsOf_of_absent
    (h : members.lookup "declarations" = none ∨ members.lookup "declarations" = some .null) :
    itemsOf place members = .ok [] := by
  rcases h with h | h <;> rw [itemsOf, h]

theorem itemsOf_of_arr {items : List Json} (h : members.lookup "declarations" = some (.arr items)) :
    itemsOf place members = eachItem itemOf (place ++ [.member "declarations"]) 0 items := by
  rw [itemsOf, h]

theorem itemsOf_of_not_arr {value : Json} (h : members.lookup "declarations" = some value)
    (hnull : value ≠ .null) (harr : value.arr? = none) :
    itemsOf place members = .error ⟨place ++ [.member "declarations"], .notItems⟩ := by
  rw [itemsOf, h]
  cases value <;> simp_all [Json.arr?]

omit place in
theorem items_cases (members : Members) :
    (members.lookup "declarations" = none ∨ members.lookup "declarations" = some .null) ∨
      (∃ items, members.lookup "declarations" = some (.arr items)) ∨
      ∃ value, members.lookup "declarations" = some value ∧ value ≠ .null ∧ value.arr? = none := by
  cases h : members.lookup "declarations" with
  | none => simp
  | some value => cases value <;> simp [Json.arr?]

/-! ### Nodes -/

theorem nodeOf_rule (h : members.lookup "type" = some (.str "rule")) :
    nodeOf place (.obj members) = (selectorsOf place members >>= fun selectors =>
      itemsOf place members >>= fun items =>
        .ok (.rule ⟨selectors, items, Span.ofMembers members⟩)) := by
  rw [nodeOf, (typeOf_eq_ok_iff place).mpr h]
  rfl

theorem nodeOf_comment (h : members.lookup "type" = some (.str "comment")) :
    nodeOf place (.obj members) = (stringOf place members "comment" >>= fun text =>
      .ok (.comment ⟨text, Span.ofMembers members⟩)) := by
  rw [nodeOf, (typeOf_eq_ok_iff place).mpr h]
  rfl

theorem nodeOf_media (h : members.lookup "type" = some (.str "media")) :
    nodeOf place (.obj members) = (stringOf place members "media" >>= fun query =>
      childrenOf (place ++ [.member "rules"]) members >>= fun children =>
        .ok (.media query children (Span.ofMembers members))) := by
  rw [nodeOf, (typeOf_eq_ok_iff place).mpr h]
  rfl

theorem nodeOf_block (hkind : kind ∈ blockTypes) (h : members.lookup "type" = some (.str kind)) :
    nodeOf place (.obj members) =
      (childrenOf (place ++ [.member "rules"]) members >>= fun children =>
        .ok (.group (blockKind members kind) (blockPrelude members kind) children
          (Span.ofMembers members))) := by
  rw [nodeOf, (typeOf_eq_ok_iff place).mpr h]
  rcases mem_blockTypes.mp hkind with rfl | rfl | rfl <;> rfl

theorem nodeOf_other (hkind : kind ∉ knownTypes) (h : members.lookup "type" = some (.str kind)) :
    nodeOf place (.obj members) =
      .ok (.other kind (payloadOf members) (Span.ofMembers members)) := by
  rw [nodeOf, (typeOf_eq_ok_iff place).mpr h]
  simp only [knownTypes, blockTypes, List.mem_append, List.mem_cons, List.not_mem_nil, or_false,
    not_or] at hkind
  simp [bind, Except.bind, pure, Except.pure, hkind]

theorem nodeOf_untyped (h : ∀ kind, members.lookup "type" ≠ some (.str kind)) :
    nodeOf place (.obj members) = .error ⟨place, .untyped⟩ := by
  rw [nodeOf, typeOf_of_untyped place h]
  rfl

theorem nodeOf_of_not_obj {value : Json} (h : value.obj? = none) :
    nodeOf place value = .error ⟨place, .notObject⟩ := by
  cases value with
  | obj members => simp [Json.obj?] at h
  | _ => rfl

/-! ### Nested nodes -/

theorem childrenOf_of_arr {nodes : List Json} (h : members.lookup "rules" = some (.arr nodes)) :
    childrenOf place members = eachItem nodeOf place 0 nodes := by
  rw [childrenOf_eq_lookup, h]
  exact nodesFrom_eq_eachItem place 0 nodes

theorem childrenOf_of_not_arr
    (h : ∀ nodes, members.lookup "rules" ≠ some (.arr nodes)) :
    childrenOf place members = .error ⟨place, .notNodes⟩ := by
  rw [childrenOf_eq_lookup]
  cases hrules : members.lookup "rules" with
  | none => rfl
  | some value =>
    cases value with
    | arr nodes => exact absurd hrules (h nodes)
    | _ => rfl

end

/-! ## The whole tree -/

section

variable {tree : Json} {root body : Members}

theorem ofJson_of_not_obj (h : tree.obj? = none) :
    Stylesheet.ofJson tree = .error ⟨[], .notObject⟩ := by
  rw [Stylesheet.ofJson, membersOf, h]
  rfl

theorem ofJson_untyped (h : ∀ kind, root.lookup "type" ≠ some (.str kind)) :
    Stylesheet.ofJson (.obj root) = .error ⟨[], .rootUntyped⟩ := by
  simp only [Stylesheet.ofJson, membersOf, Json.obj?, bind, Except.bind,
    Json.bind_str?_eq_none_iff.mpr h]

theorem ofJson_otherType {kind : String} (type : root.lookup "type" = some (.str kind))
    (h : kind ≠ "stylesheet") :
    Stylesheet.ofJson (.obj root) = .error ⟨[.member "type"], .rootType kind⟩ := by
  simp [Stylesheet.ofJson, membersOf, Json.obj?, bind, Except.bind, type, Json.str?, h]

variable (type : root.lookup "type" = some (.str "stylesheet"))

include type

theorem ofJson_bodiless (h : root.lookup "stylesheet" = none) :
    Stylesheet.ofJson (.obj root) = .error ⟨[], .noBody⟩ := by
  simp [Stylesheet.ofJson, membersOf, Json.obj?, bind, Except.bind, type, Json.str?, h]

theorem ofJson_body_of_not_obj {value : Json} (hbody : root.lookup "stylesheet" = some value)
    (h : value.obj? = none) :
    Stylesheet.ofJson (.obj root) = .error ⟨[.member "stylesheet"], .notObject⟩ := by
  cases value with
  | obj members => simp [Json.obj?] at h
  | _ => simp [Stylesheet.ofJson, membersOf, Json.obj?, bind, Except.bind, type, Json.str?, hbody]

theorem ofJson_reported {error : Json} {more : List Json}
    (hbody : root.lookup "stylesheet" = some (.obj body))
    (h : body.lookup "parsingErrors" = some (.arr (error :: more))) :
    Stylesheet.ofJson (.obj root) = .error ⟨[.member "stylesheet", .member "parsingErrors"],
      .parserErrors (error :: more).length⟩ := by
  simp [Stylesheet.ofJson, membersOf, Json.obj?, bind, Except.bind, type, Json.str?, hbody, h,
    Json.arr?]

theorem ofJson_body (hbody : root.lookup "stylesheet" = some (.obj body))
    (h : ∀ error more, body.lookup "parsingErrors" ≠ some (.arr (error :: more))) :
    Stylesheet.ofJson (.obj root) =
      (childrenOf [.member "stylesheet", .member "rules"] body >>= fun nodes => .ok ⟨nodes⟩) := by
  simp only [Stylesheet.ofJson, membersOf, Json.obj?, bind, Except.bind, type, Json.str?, hbody,
    Option.bind, ne_eq, not_true_eq_false, if_false]
  split
  · rename_i error more herrors
    exact absurd (Json.bind_arr?_eq_some_iff.mp herrors) (h error more)
  · rfl

end

theorem reported_or_not (body : Members) :
    (∃ error more, body.lookup "parsingErrors" = some (.arr (error :: more))) ∨
      ∀ error more, body.lookup "parsingErrors" ≠ some (.arr (error :: more)) := by
  by_cases h : ∃ error more, body.lookup "parsingErrors" = some (.arr (error :: more))
  · exact Or.inl h
  · exact Or.inr fun error more herrors => h ⟨error, more, herrors⟩

/-- A tree that is loaded has a body without reported errors, whose nodes are loaded. -/
theorem exists_body_of_ofJson {tree : Json} {sheet : Stylesheet}
    (h : Stylesheet.ofJson tree = .ok sheet) :
    ∃ root body, tree = .obj root ∧ root.lookup "type" = some (.str "stylesheet") ∧
      root.lookup "stylesheet" = some (.obj body) ∧
      (∀ error more, body.lookup "parsingErrors" ≠ some (.arr (error :: more))) ∧
      childrenOf [.member "stylesheet", .member "rules"] body = .ok sheet.nodes := by
  cases hroot : tree.obj? with
  | none => rw [ofJson_of_not_obj hroot] at h; cases h
  | some root =>
    obtain rfl := Json.obj?_eq_some_iff.mp hroot
    rcases typed_or_untyped root with ⟨kind, type⟩ | huntyped
    · by_cases hkind : kind = "stylesheet"
      · subst hkind
        cases hvalue : root.lookup "stylesheet" with
        | none => rw [ofJson_bodiless type hvalue] at h; cases h
        | some value =>
          cases hbody : value.obj? with
          | none => rw [ofJson_body_of_not_obj type hvalue hbody] at h; cases h
          | some body =>
            obtain rfl := Json.obj?_eq_some_iff.mp hbody
            rcases reported_or_not body with ⟨error, more, herrors⟩ | hnone
            · rw [ofJson_reported type hvalue herrors] at h; cases h
            · rw [ofJson_body type hvalue hnone] at h
              obtain ⟨nodes, hnodes, heq⟩ := bind_eq_ok.mp h
              obtain rfl := Except.ok.inj heq
              exact ⟨root, body, rfl, type, hvalue, hnone, hnodes⟩
      · rw [ofJson_otherType type hkind] at h; cases h
    · rw [ofJson_untyped huntyped] at h; cases h

end StyleDelta
