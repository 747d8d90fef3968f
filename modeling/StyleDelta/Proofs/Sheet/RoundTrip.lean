import StyleDelta.Proofs.Sheet.Loading

/-!
Writing stylesheets as the trees that they are loaded from.

`Stylesheet.Loadable` says what a stylesheet has to be like to come out of a tree: names
of blocks end in a type of blocks, types of other nodes are not known ones, descriptions
are objects of such types without positions, and places fit into words. Loading gives
such stylesheets only (`loadable_of_ofJson`), and each of them is loaded from the tree
that is written of it (`ofJson_toJson`). Main statement: `loading_lossless`.
-/

namespace StyleDelta

open Json

/-! ## Stylesheets that can be loaded -/

def Span.Loadable (span : Span) : Prop := span.line < wordBound ∧ span.column < wordBound

def RuleItem.Loadable : RuleItem → Prop
  | .declaration d => d.span.Loadable
  | .comment c => c.span.Loadable
  | .other description => ∃ members kind, description = .obj members ∧
      members.lookup "type" = some (.str kind) ∧ kind ≠ "declaration" ∧ kind ≠ "comment" ∧
      description.Lacks "position"

inductive Node.Loadable : Node → Prop
  | rule {r : Rule} (items : ∀ x ∈ r.items, x.Loadable) (span : r.span.Loadable) :
      Loadable (.rule r)
  | media {query : String} {children : List Node} {span : Span}
      (nodes : ∀ x ∈ children, Loadable x) (hspan : span.Loadable) :
      Loadable (.media query children span)
  | group {vendor block prelude : String} {children : List Node} {span : Span}
      (hblock : block ∈ blockTypes) (nodes : ∀ x ∈ children, Loadable x)
      (hspan : span.Loadable) : Loadable (.group (vendor ++ block) prelude children span)
  | comment {c : Comment} (span : c.span.Loadable) : Loadable (.comment c)
  | other {kind : String} {members : Members} {span : Span} (hkind : kind ∉ knownTypes)
      (names : ∀ m ∈ members, m.1 ≠ "type") (lacks : (obj members).Lacks "position")
      (hspan : span.Loadable) : Loadable (.other kind (.obj members) span)

def Stylesheet.Loadable (sheet : Stylesheet) : Prop := ∀ x ∈ sheet.nodes, x.Loadable

/-! ### What is loaded -/

theorem lt_of_coordinate? {value : Json} {n : Nat} (h : coordinate? value = some n) :
    n < wordBound := by
  unfold coordinate? at h
  split at h
  · split at h
    · obtain rfl := Option.some.inj h
      assumption
    · cases h
  · cases h

theorem Span.loadable_of_ofStart? {value : Json} {span : Span}
    (h : Span.ofStart? value = some span) : span.Loadable := by
  unfold Span.ofStart? at h
  split at h
  · obtain ⟨line, hline, h⟩ := Option.bind_eq_some_iff.mp h
    obtain ⟨column, hcolumn, h⟩ := Option.bind_eq_some_iff.mp h
    obtain rfl := Option.some.inj h
    obtain ⟨_, -, hline⟩ := Option.bind_eq_some_iff.mp hline
    obtain ⟨_, -, hcolumn⟩ := Option.bind_eq_some_iff.mp hcolumn
    exact ⟨lt_of_coordinate? hline, lt_of_coordinate? hcolumn⟩
  · obtain ⟨line, hline, h⟩ := Option.bind_eq_some_iff.mp h
    obtain ⟨column, hcolumn, h⟩ := Option.bind_eq_some_iff.mp h
    obtain rfl := Option.some.inj h
    exact ⟨lt_of_coordinate? hline, lt_of_coordinate? hcolumn⟩
  · cases h

theorem Span.loadable_of_ofPosition? {value : Json} {span : Span}
    (h : Span.ofPosition? value = some span) : span.Loadable := by
  unfold Span.ofPosition? at h
  split at h
  · obtain ⟨start, -, h⟩ := Option.bind_eq_some_iff.mp h
    exact loadable_of_ofStart? h
  · exact loadable_of_ofStart? h
  · cases h

theorem Span.loadable_ofMembers (members : Members) : (Span.ofMembers members).Loadable := by
  rw [Span.ofMembers]
  cases h : (members.lookup "position").bind Span.ofPosition? with
  | none => exact ⟨by decide, by decide⟩
  | some span =>
    obtain ⟨position, -, hspan⟩ := Option.bind_eq_some_iff.mp h
    exact loadable_of_ofPosition? hspan

section

variable {members : Members} {place : List Step}

theorem loadable_of_itemOf {value : Json} {item : RuleItem} (h : itemOf place value = .ok item) :
    item.Loadable := by
  cases hmembers : value.obj? with
  | none =>
    rw [itemOf_of_not_obj place hmembers] at h
    cases h
  | some members =>
    obtain rfl := obj?_eq_some_iff.mp hmembers
    rcases typed_or_untyped members with ⟨kind, type⟩ | huntyped
    · by_cases hdeclaration : kind = "declaration"
      · subst hdeclaration
        rw [itemOf_declaration place type] at h
        obtain ⟨property, -, h⟩ := bind_eq_ok.mp h
        obtain ⟨text, -, h⟩ := bind_eq_ok.mp h
        obtain rfl := Except.ok.inj h
        exact Span.loadable_ofMembers members
      · by_cases hcomment : kind = "comment"
        · subst hcomment
          rw [itemOf_comment place type] at h
          obtain ⟨text, -, h⟩ := bind_eq_ok.mp h
          obtain rfl := Except.ok.inj h
          exact Span.loadable_ofMembers members
        · rw [itemOf_other place type hdeclaration hcomment] at h
          obtain rfl := Except.ok.inj h
          have htype : (eraseMembers "position" members).lookup "type" = some (.str kind) := by
            rw [lookup_eraseMembers (by decide), type]
            rfl
          exact ⟨_, kind, rfl, htype, hdeclaration, hcomment, lacks_erase ..⟩
    · rw [itemOf_untyped place huntyped] at h
      cases h

theorem loadable_of_itemsOf {items : List RuleItem} (h : itemsOf place members = .ok items) :
    ∀ x ∈ items, x.Loadable := by
  rcases items_cases members with hitems | ⟨described, hitems⟩ | ⟨value, hitems, hnull, harr⟩
  · rw [itemsOf_of_absent place hitems] at h
    obtain rfl := Except.ok.inj h
    simp
  · rw [itemsOf_of_arr place hitems] at h
    intro x hx
    obtain ⟨y, -, p, hy⟩ := mem_of_eachItem h x hx
    exact loadable_of_itemOf hy
  · rw [itemsOf_of_not_arr place hitems hnull harr] at h
    cases h

theorem loadable_of_childrenOf {children : List Node}
    (hload : ∀ nodes, members.lookup "rules" = some (.arr nodes) → ∀ x ∈ nodes, ∀ p node,
      nodeOf p x = .ok node → node.Loadable)
    (h : childrenOf place members = .ok children) : ∀ x ∈ children, x.Loadable := by
  rcases arr_or_not (members.lookup "rules") with ⟨nodes, hnodes⟩ | hnone
  · rw [childrenOf_of_arr place hnodes] at h
    intro x hx
    obtain ⟨y, hy, p, hnode⟩ := mem_of_eachItem h x hx
    exact hload nodes hnodes y hy p x hnode
  · rw [childrenOf_of_not_arr place hnone] at h
    cases h

end

theorem loadable_payloadOf {kind : String} {members : Members} {span : Span}
    (hkind : kind ∉ knownTypes) (hspan : span.Loadable) :
    (Node.other kind (payloadOf members) span).Loadable := by
  refine .other hkind (fun m hm => ?_) (lacks_erase "position" (.obj _)) hspan
  rw [eraseMembers_eq_map_filter] at hm
  obtain ⟨m', hm', rfl⟩ := List.mem_map.mp hm
  simpa using (List.mem_filter.mp (List.mem_filter.mp hm').1).2

theorem loadable_of_nodeOf {value : Json} {place : List Step} {node : Node}
    (h : nodeOf place value = .ok node) : node.Loadable := by
  induction value using Json.nested_induction generalizing place node with
  | other value hvalue =>
    rw [nodeOf_of_not_obj place hvalue] at h
    cases h
  | obj members ih =>
    have hspan := Span.loadable_ofMembers members
    have hchildren : ∀ {place : List Step} {children : List Node},
        childrenOf place members = .ok children → ∀ x ∈ children, x.Loadable :=
      loadable_of_childrenOf fun nodes hnodes x hx _ _ hnode => ih "rules" nodes hnodes x hx hnode
    rcases typed_or_untyped members with ⟨kind, type⟩ | huntyped
    · rcases type_cases kind with rfl | rfl | rfl | hkind | hkind
      · rw [nodeOf_rule place type] at h
        obtain ⟨selectors, -, h⟩ := bind_eq_ok.mp h
        obtain ⟨items, hitems, h⟩ := bind_eq_ok.mp h
        obtain rfl := Except.ok.inj h
        exact .rule (loadable_of_itemsOf hitems) hspan
      · rw [nodeOf_comment place type] at h
        obtain ⟨text, -, h⟩ := bind_eq_ok.mp h
        obtain rfl := Except.ok.inj h
        exact .comment hspan
      · rw [nodeOf_media place type] at h
        obtain ⟨query, -, h⟩ := bind_eq_ok.mp h
        obtain ⟨children, hnodes, h⟩ := bind_eq_ok.mp h
        obtain rfl := Except.ok.inj h
        exact .media (hchildren hnodes) hspan
      · rw [nodeOf_block place hkind type] at h
        obtain ⟨children, hnodes, h⟩ := bind_eq_ok.mp h
        obtain rfl := Except.ok.inj h
        exact .group hkind (hchildren hnodes) hspan
      · rw [nodeOf_other place hkind type] at h
        obtain rfl := Except.ok.inj h
        exact loadable_payloadOf hkind hspan
    · rw [nodeOf_untyped place huntyped] at h
      cases h

theorem loadable_of_ofJson {tree : Json} {sheet : Stylesheet}
    (h : Stylesheet.ofJson tree = .ok sheet) : sheet.Loadable := by
  obtain ⟨root, body, -, -, -, -, hnodes⟩ := exists_body_of_ofJson h
  exact loadable_of_childrenOf (fun _ _ _ _ _ _ => loadable_of_nodeOf) hnodes

/-! ## Writing -/

def Span.toJson (span : Span) : Json :=
  .obj [("start", .obj [("column", .num (.int span.column)), ("line", .num (.int span.line))])]

def Declaration.toJson (d : Declaration) : Json :=
  .obj (sorted [("type", .str "declaration"), ("property", .str d.property),
    ("value", .str d.value), ("position", d.span.toJson)])

def Comment.toJson (c : Comment) : Json :=
  .obj (sorted [("type", .str "comment"), ("comment", .str c.text), ("position", c.span.toJson)])

def RuleItem.toJson : RuleItem → Json
  | .declaration d => d.toJson
  | .comment c => c.toJson
  | .other description => description

def Rule.toJson (r : Rule) : Json :=
  .obj (sorted [("type", .str "rule"), ("selectors", .arr (r.selectors.map .str)),
    ("declarations", .arr (r.items.map RuleItem.toJson)), ("position", r.span.toJson)])

/-- The name of a block as the vendor's part of it and the type. -/
def splitKind (kind : String) : String × String :=
  match blockTypes.find? fun block => block.toList.isSuffixOf kind.toList with
  | some block => (String.ofList (kind.toList.take (kind.length - block.length)), block)
  | none => ("", kind)

/-- A block without a vendor has no member for it. -/
def vendorMember (vendor : String) : Members :=
  if vendor = "" then [] else [("vendor", .str vendor)]

namespace Node

mutual

def toJson : Node → Json
  | rule r => r.toJson
  | media query children span => .obj (sorted [("type", .str "media"), ("media", .str query),
      ("rules", .arr (toJsonAll children)), ("position", span.toJson)])
  | group kind prelude children span =>
    .obj (sorted ([("type", .str (splitKind kind).2), ((splitKind kind).2, .str prelude),
      ("rules", .arr (toJsonAll children)), ("position", span.toJson)] ++
      vendorMember (splitKind kind).1))
  | comment c => c.toJson
  -- the members of the payload stand beside the type and the position
  | other kind (.obj members) span =>
    .obj (insert "type" (.str kind) (insert "position" span.toJson members))
  | other _ payload _ => payload
termination_by structural node => node

def toJsonAll : List Node → List Json
  | [] => []
  | node :: rest => toJson node :: toJsonAll rest
termination_by structural nodes => nodes

end

theorem toJsonAll_eq_map (nodes : List Node) : toJsonAll nodes = nodes.map toJson := by
  induction nodes with
  | nil => rfl
  | cons node rest ih => rw [toJsonAll, List.map_cons, ih]

end Node

def Stylesheet.body (sheet : Stylesheet) : Members :=
  sorted [("rules", .arr (sheet.nodes.map Node.toJson)), ("parsingErrors", .arr [])]

def Stylesheet.toJson (sheet : Stylesheet) : Json :=
  .obj (sorted [("type", .str "stylesheet"), ("stylesheet", .obj sheet.body)])

/-! ### What was written is loaded -/

theorem splitKind_spec (vendor : String) {block : String} (h : block ∈ blockTypes) :
    (splitKind (vendor ++ block)).1 ++ (splitKind (vendor ++ block)).2 = vendor ++ block ∧
      (splitKind (vendor ++ block)).2 ∈ blockTypes := by
  cases hfind : blockTypes.find? fun other => other.toList.isSuffixOf (vendor ++ block).toList with
  | none =>
    have hblock := List.find?_eq_none.mp hfind block h
    simp [String.toList_append] at hblock
  | some other =>
    have hsuffix := List.find?_some hfind
    obtain ⟨front, hfront⟩ := List.isSuffixOf_iff_suffix.mp hsuffix
    have hlength : (vendor ++ block).length - other.length = front.length := by
      rw [← String.length_toList, ← hfront, List.length_append, String.length_toList,
        Nat.add_sub_cancel]
    simp only [splitKind, hfind]
    refine ⟨?_, List.mem_of_find?_eq_some hfind⟩
    rw [← String.toList_inj, String.toList_append, String.toList_ofList, hlength, ← hfront,
      List.take_left]

theorem vendor_vendorMember (vendor : String) :
    (((vendorMember vendor).lookup "vendor").bind str?).getD "" = vendor := by
  by_cases h : vendor = "" <;> simp [vendorMember, h, str?]

theorem coordinate?_ofNat {n : Nat} (h : n < wordBound) :
    coordinate? (.num (.int n)) = some n := if_pos h

theorem Span.ofMembers_of_position {members : Members} {span : Span} (hspan : span.Loadable)
    (h : members.lookup "position" = some span.toJson) : Span.ofMembers members = span := by
  simp [Span.ofMembers, h, Span.toJson, Span.ofPosition?, Span.ofStart?, List.lookup_cons,
    coordinate?_ofNat hspan.1, coordinate?_ofNat hspan.2]

/-! #### Items -/

section

variable {members : Members} (place : List Step)

theorem itemOf_declaration_of_lookup {d : Declaration} (hspan : d.span.Loadable)
    (type : members.lookup "type" = some (.str "declaration"))
    (hproperty : members.lookup "property" = some (.str d.property))
    (hvalue : members.lookup "value" = some (.str d.value))
    (hposition : members.lookup "position" = some d.span.toJson) :
    itemOf place (.obj members) = .ok (.declaration d) := by
  rw [itemOf_declaration place type, (stringOf_eq_ok_iff place).mpr hproperty,
    (stringOf_eq_ok_iff place).mpr hvalue, Span.ofMembers_of_position hspan hposition]
  rfl

theorem itemOf_comment_of_lookup {c : Comment} (hspan : c.span.Loadable)
    (type : members.lookup "type" = some (.str "comment"))
    (htext : members.lookup "comment" = some (.str c.text))
    (hposition : members.lookup "position" = some c.span.toJson) :
    itemOf place (.obj members) = .ok (.comment c) := by
  rw [itemOf_comment place type, (stringOf_eq_ok_iff place).mpr htext,
    Span.ofMembers_of_position hspan hposition]
  rfl

end

theorem itemOf_toJson {item : RuleItem} (h : item.Loadable) (place : List Step) :
    itemOf place item.toJson = .ok item := by
  cases item with
  | declaration d =>
    refine itemOf_declaration_of_lookup place h ?_ ?_ ?_ ?_ <;>
      simp [lookup_sorted, List.lookup_cons]
  | comment c =>
    refine itemOf_comment_of_lookup place h ?_ ?_ ?_ <;> simp [lookup_sorted, List.lookup_cons]
  | other description =>
    obtain ⟨members, kind, rfl, type, hdeclaration, hcomment, hlacks⟩ := h
    rw [RuleItem.toJson, itemOf_other place type hdeclaration hcomment, hlacks.erase_eq]

/-! #### Nodes -/

section

variable {members : Members} {children : List Node} {span : Span} (place : List Step)

theorem nodeOf_rule_of_lookup {r : Rule} (items : ∀ x ∈ r.items, x.Loadable)
    (hspan : r.span.Loadable) (type : members.lookup "type" = some (.str "rule"))
    (hselectors : members.lookup "selectors" = some (.arr (r.selectors.map .str)))
    (hitems : members.lookup "declarations" = some (.arr (r.items.map RuleItem.toJson)))
    (hposition : members.lookup "position" = some r.span.toJson) :
    nodeOf place (.obj members) = .ok (.rule r) := by
  have hselectorsOf : selectorsOf place members = .ok r.selectors := by
    rw [selectorsOf_of_arr place hselectors]
    exact eachItem_map Json.str _ 0 fun _ _ _ => rfl
  have hitemsOf : itemsOf place members = .ok r.items := by
    rw [itemsOf_of_arr place hitems]
    exact eachItem_map RuleItem.toJson _ 0 fun x hx p => itemOf_toJson (items x hx) p
  rw [nodeOf_rule place type, hselectorsOf, hitemsOf, Span.ofMembers_of_position hspan hposition]
  rfl

theorem nodeOf_comment_of_lookup {c : Comment} (hspan : c.span.Loadable)
    (type : members.lookup "type" = some (.str "comment"))
    (htext : members.lookup "comment" = some (.str c.text))
    (hposition : members.lookup "position" = some c.span.toJson) :
    nodeOf place (.obj members) = .ok (.comment c) := by
  rw [nodeOf_comment place type, (stringOf_eq_ok_iff place).mpr htext,
    Span.ofMembers_of_position hspan hposition]
  rfl

theorem childrenOf_of_lookup (hload : ∀ x ∈ children, ∀ p, nodeOf p x.toJson = .ok x)
    (hrules : members.lookup "rules" = some (.arr (children.map Node.toJson))) :
    childrenOf place members = .ok children := by
  rw [childrenOf_of_arr place hrules]
  exact eachItem_map Node.toJson place 0 hload

theorem nodeOf_media_of_lookup {query : String}
    (hload : ∀ x ∈ children, ∀ p, nodeOf p x.toJson = .ok x) (hspan : span.Loadable)
    (type : members.lookup "type" = some (.str "media"))
    (hquery : members.lookup "media" = some (.str query))
    (hrules : members.lookup "rules" = some (.arr (children.map Node.toJson)))
    (hposition : members.lookup "position" = some span.toJson) :
    nodeOf place (.obj members) = .ok (.media query children span) := by
  rw [nodeOf_media place type, (stringOf_eq_ok_iff place).mpr hquery,
    childrenOf_of_lookup _ hload hrules, Span.ofMembers_of_position hspan hposition]
  rfl

theorem nodeOf_block_of_lookup {vendor block prelude : String} (hblock : block ∈ blockTypes)
    (hload : ∀ x ∈ children, ∀ p, nodeOf p x.toJson = .ok x) (hspan : span.Loadable)
    (type : members.lookup "type" = some (.str block))
    (hvendor : ((members.lookup "vendor").bind str?).getD "" = vendor)
    (hprelude : members.lookup block = some (.str prelude))
    (hrules : members.lookup "rules" = some (.arr (children.map Node.toJson)))
    (hposition : members.lookup "position" = some span.toJson) :
    nodeOf place (.obj members) = .ok (.group (vendor ++ block) prelude children span) := by
  rw [nodeOf_block place hblock type, childrenOf_of_lookup _ hload hrules,
    Span.ofMembers_of_position hspan hposition, blockKind, hvendor, blockPrelude, hprelude]
  rfl

end

section

variable {members : Members}

theorem payloadOf_eq_self (names : ∀ m ∈ members, m.1 ≠ "type")
    (lacks : (obj members).Lacks "position") : payloadOf members = .obj members := by
  have hfilter : members.filter (·.1 ≠ "type") = members := by
    rw [List.filter_eq_self]
    intro m hm
    simpa using names m hm
  rw [payloadOf, hfilter]
  exact lacks.erase_eq

/-- The payload has neither the type nor the position of its node. -/
theorem payloadOf_insert {name : String} (h : name = "type" ∨ name = "position") (value : Json) :
    payloadOf (insert name value members) = payloadOf members := by
  have hnames : ∀ ms : Members, (ms.filter (·.1 ≠ "type")).filter (·.1 ≠ "position") =
      ms.filter fun m => m.1 ≠ "position" && m.1 ≠ "type" := fun ms => List.filter_filter ..
  have hname : (name ≠ "position" && name ≠ "type") = false := by
    rcases h with rfl | rfl <;> decide
  have hinsert := filter_insert (p := fun n => n ≠ "position" && n ≠ "type") hname value members
  rw [payloadOf, payloadOf, eraseMembers_eq_map_filter, eraseMembers_eq_map_filter, hnames, hnames,
    hinsert]

end

theorem nodeOf_toJson {node : Node} (h : node.Loadable) (place : List Step) :
    nodeOf place node.toJson = .ok node := by
  induction h generalizing place with
  | rule items span =>
    refine nodeOf_rule_of_lookup place items span ?_ ?_ ?_ ?_ <;>
      simp [lookup_sorted, List.lookup_cons]
  | media nodes hspan ih =>
    rw [Node.toJson, Node.toJsonAll_eq_map]
    refine nodeOf_media_of_lookup place ih hspan ?_ ?_ ?_ ?_ <;>
      simp [lookup_sorted, List.lookup_cons]
  | @group vendor block prelude children span hblock nodes hspan ih =>
    obtain ⟨hkind, hsplit⟩ := splitKind_spec vendor hblock
    rw [Node.toJson, Node.toJsonAll_eq_map]
    generalize splitKind (vendor ++ block) = split at hkind hsplit ⊢
    obtain ⟨front, type⟩ := split
    rw [← hkind]
    refine nodeOf_block_of_lookup place hsplit ih hspan ?_ ?_ ?_ ?_ ?_
    all_goals
      rcases mem_blockTypes.mp hsplit with rfl | rfl | rfl <;>
        simp [lookup_sorted, List.lookup_cons, vendor_vendorMember]
  | comment span =>
    refine nodeOf_comment_of_lookup place span ?_ ?_ ?_ <;> simp [lookup_sorted, List.lookup_cons]
  | @other kind members span hkind names lacks hspan =>
    rw [Node.toJson, nodeOf_other place hkind (by simp [lookup_insert]),
      payloadOf_insert (.inl rfl), payloadOf_insert (.inr rfl), payloadOf_eq_self names lacks,
      Span.ofMembers_of_position hspan (by simp [lookup_insert])]

theorem ofJson_of_lookup {sheet : Stylesheet} {root body : Members} (h : sheet.Loadable)
    (type : root.lookup "type" = some (.str "stylesheet"))
    (hbody : root.lookup "stylesheet" = some (.obj body))
    (hnone : body.lookup "parsingErrors" = some (.arr []))
    (hrules : body.lookup "rules" = some (.arr (sheet.nodes.map Node.toJson))) :
    Stylesheet.ofJson (.obj root) = .ok sheet := by
  rw [ofJson_body type hbody (by simp [hnone]),
    childrenOf_of_lookup _ (fun x hx p => nodeOf_toJson (h x hx) p) hrules]
  rfl

theorem ofJson_toJson {sheet : Stylesheet} (h : sheet.Loadable) :
    Stylesheet.ofJson sheet.toJson = .ok sheet := by
  have hbody : (sorted [("type", .str "stylesheet"), ("stylesheet", .obj sheet.body)]).lookup
      "stylesheet" = some (.obj sheet.body) := by
    simp [lookup_sorted, List.lookup_cons]
  refine ofJson_of_lookup h ?_ hbody ?_ ?_ <;>
    simp [Stylesheet.body, lookup_sorted, List.lookup_cons]

/-- **Loading loses nothing.** What is loaded is known, and it can be written as a tree
that is loaded as the same again. -/
theorem loading_lossless :
    (∀ tree sheet, Stylesheet.ofJson tree = .ok sheet → sheet.Loadable) ∧
      ∀ sheet : Stylesheet, sheet.Loadable → Stylesheet.ofJson sheet.toJson = .ok sheet :=
  ⟨fun _ _ => loadable_of_ofJson, fun _ => ofJson_toJson⟩

/-- A vendor's block with a rule that includes something, and an at-rule of another kind. -/
def vendoredSheet : Stylesheet :=
  ⟨[.group "-moz-document" "url-prefix()" [.rule ⟨["a", "b"],
      [.declaration ⟨"color", "red", ⟨3, 5⟩⟩,
        .other (.obj [("name", .str "shadow"), ("type", .str "include")])], ⟨2, 3⟩⟩] ⟨1, 1⟩,
    .other "charset" (.obj [("charset", .str "utf-8")]) .unknown]⟩

/-- The tree that a parser writes of it. -/
def vendoredTree : Json :=
  let position (line column : Nat) : String × Json := ("position", (Span.mk line column).toJson)
  let items : List Json := [
    .obj [position 3 5, ("property", .str "color"), ("type", .str "declaration"),
      ("value", .str "red")],
    .obj [("name", .str "shadow"), position 4 5, ("type", .str "include")]]
  let rule : Json := .obj [("declarations", .arr items), position 2 3,
    ("selectors", .arr [.str "a", .str "b"]), ("type", .str "rule")]
  let nodes : List Json := [
    .obj [("document", .str "url-prefix()"), position 1 1, ("rules", .arr [rule]),
      ("type", .str "document"), ("vendor", .str "-moz-")],
    .obj [("charset", .str "utf-8"), ("type", .str "charset")]]
  .obj [("stylesheet", .obj [("rules", .arr nodes)]), ("type", .str "stylesheet")]

theorem loading_lossless_vendoredSheet :
    Stylesheet.ofJson vendoredTree = .ok vendoredSheet ∧ vendoredSheet.Loadable ∧
      Stylesheet.ofJson vendoredSheet.toJson = .ok vendoredSheet := by
  have h : Stylesheet.ofJson vendoredTree = .ok vendoredSheet := by rfl
  have hloadable : vendoredSheet.Loadable := loading_lossless.1 _ _ h
  exact ⟨h, hloadable, loading_lossless.2 _ hloadable⟩

end StyleDelta
