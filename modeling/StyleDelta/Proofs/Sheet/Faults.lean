import StyleDelta.Proofs.Sheet.Grammar
import StyleDelta.Proofs.Sheet.Places

/-!
The faults that loading reports.

`Json.FaultAt` says what a report is worth: the place that it names is there (or only
the array of nodes is missing from it), the part at the place has the fault, and nothing
that is looked at before it has one, neither the items that stand before one on the way
nor what else is asked of these. It is stated for any value, relative to it, so that it
goes from a part to the whole by a member (`FaultAt.under`) or by an item of an array
(`FaultAt.item`). Main statement: `ofJson_grammar`.
-/

namespace StyleDelta

/-! ## Reports -/

/-- The arrays that are loaded item by item. -/
inductive Listing where
  | nodes
  | selectors
  | items
  deriving DecidableEq, Repr

/-- The member that holds the array. -/
def Listing.name : Listing → String
  | nodes => "rules"
  | selectors => "selectors"
  | items => "declarations"

def Listing.Shape : Listing → Json → Prop
  | nodes => Json.IsNode
  | selectors => Json.IsText
  | items => Json.IsItem

/-- The texts that nodes and items of a type have to give, in the order they are asked for. -/
def textFields (kind : String) : List String :=
  if kind = "declaration" then ["property", "value"]
  else if kind = "comment" then ["comment"]
  else if kind = "media" then ["media"]
  else []

/-- The members that loading goes into. -/
def partNames : List String :=
  ["type", "stylesheet", "parsingErrors", "rules", "selectors", "declarations"]

/-- What is asked of a node before its member is gone into: of a rule the selectors, and
the texts that the type of a node has to give. -/
def Entered (name : String) (members : Members) : Prop :=
  (name = "declarations" → ∃ selectors, members.lookup "selectors" = some (.arr selectors) ∧
    ∀ x ∈ selectors, x.IsText) ∧
  (name = "rules" → ∃ kind, members.lookup "type" = some (.str kind) ∧
    ∀ field ∈ textFields kind, ∃ text, members.lookup field = some (.str text))

/-- What the reason says of the part that is to blame. -/
def Reason.Describes : Reason → Json → Prop
  | .notObject, part => part.obj? = none
  | .rootType found, part => part = .str found ∧ found ≠ "stylesheet"
  | .rootUntyped, part | .untyped, part =>
    ∃ members, part = .obj members ∧ ∀ kind, members.lookup "type" ≠ some (.str kind)
  | .noBody, part => ∃ members, part = .obj members ∧ members.lookup "stylesheet" = none
  | .parserErrors count, part => ∃ errors, part = .arr errors ∧ errors.length = count ∧ 0 < count
  | .notNodes, part => part.arr? = none
  | .noSelectors, part => ∃ members, part = .obj members ∧
      members.lookup "type" = some (.str "rule") ∧
      ∀ items, members.lookup "selectors" ≠ some (.arr items)
  | .selectorNotString, part => part.str? = none
  | .notItems, part => part.arr? = none ∧ part ≠ .null
  | .noString field, part => ∃ members kind before after, part = .obj members ∧
      members.lookup "type" = some (.str kind) ∧ textFields kind = before ++ field :: after ∧
      (∀ name ∈ before, ∃ text, members.lookup name = some (.str text)) ∧
      ∀ text, members.lookup field ≠ some (.str text)

/-- The value has, at the place, the fault that the reason names, and nothing that is
looked at on the way has one before it. -/
structure Json.FaultAt (value : Json) (place : List Step) (reason : Reason) : Prop where
  /-- The place exists, or leads to the missing nodes of an object. -/
  found : (∃ part, value.at? place = some part ∧ reason.Describes part) ∨
    reason = .notNodes ∧ ∃ front members, place = front ++ [.member "rules"] ∧
      value.at? front = some (.obj members) ∧ members.lookup "rules" = none
  /-- Items of an array that stand before the one on the way are well-formed. -/
  first : ∀ front i rest, place = front ++ .index i :: rest →
    ∃ (listing : Listing) (owner : List Step) (items : List Json) (x : Json),
      front = owner ++ [.member listing.name] ∧ value.at? front = some (.arr items) ∧
      items[i]? = some x ∧ ¬ listing.Shape x ∧ ∀ y ∈ items.take i, listing.Shape y
  /-- An item on the way has what is asked for before its member. -/
  entered : ∀ front i name rest, place = front ++ .index i :: .member name :: rest →
    ∃ members, value.at? (front ++ [.index i]) = some (.obj members) ∧ Entered name members
  named : ∀ name, .member name ∈ place → name ∈ partNames

/-- The first step of the way, if it goes into a member, may be taken. -/
def Json.Ready (value : Json) (steps : List Step) : Prop :=
  ∀ name rest, steps = .member name :: rest →
    ∃ members, value = .obj members ∧ Entered name members

namespace Json.FaultAt

variable {value part : Json} {members : Members} {steps : List Step} {reason : Reason}

theorem here (h : reason.Describes value) : value.FaultAt [] reason where
  found := .inl ⟨value, rfl, h⟩
  first front i rest heq := by simp at heq
  entered front i name rest heq := by simp at heq
  named := by simp

theorem absent (h : members.lookup "rules" = none) :
    (obj members).FaultAt [.member "rules"] .notNodes where
  found := .inr ⟨rfl, [], members, rfl, rfl, h⟩
  first front i rest heq := by
    rcases List.singleton_eq_append_iff.mp heq with ⟨-, htail⟩ | ⟨-, htail⟩ <;> simp at htail
  entered front i name rest heq := by
    rcases List.singleton_eq_append_iff.mp heq with ⟨-, htail⟩ | ⟨-, htail⟩ <;> simp at htail
  named := by simp [partNames]

theorem under {name : String} (hname : name ∈ partNames)
    (hpart : members.lookup name = some part) (h : part.FaultAt steps reason) :
    (obj members).FaultAt (.member name :: steps) reason where
  found := by
    rcases h.found with ⟨fault, hfault, hreason⟩ | ⟨rfl, front, owner, rfl, howner, habsent⟩
    · exact .inl ⟨fault, by simp [at?, get?, hpart, hfault], hreason⟩
    · exact .inr ⟨rfl, .member name :: front, owner, rfl, by simp [at?, get?, hpart, howner],
        habsent⟩
  first front i rest heq := by
    cases front with
    | nil => cases heq
    | cons step front =>
      obtain ⟨rfl, rfl⟩ := List.cons.inj heq
      obtain ⟨listing, owner, items, x, rfl, hitems, hx⟩ := h.first front i rest rfl
      exact ⟨listing, .member name :: owner, items, x, rfl, by simp [at?, get?, hpart, hitems], hx⟩
  entered front i other rest heq := by
    cases front with
    | nil => cases heq
    | cons step front =>
      obtain ⟨rfl, rfl⟩ := List.cons.inj heq
      obtain ⟨node, hnode, hentered⟩ := h.entered front i other rest rfl
      exact ⟨node, by simp [at?, get?, hpart, hnode], hentered⟩
  named other hother := by
    rcases List.mem_cons.mp hother with heq | hother
    · rw [Step.member.inj heq]
      exact hname
    · exact h.named other hother

/-- An index on the way to a part of an item is the item's own or comes after it. -/
theorem front_of_item {name : String} {i j : Nat} {front rest : List Step}
    (h : .member name :: .index i :: steps = front ++ .index j :: rest) :
    (front = [.member name] ∧ j = i ∧ rest = steps) ∨
      ∃ inner, front = .member name :: .index i :: inner ∧ steps = inner ++ .index j :: rest := by
  cases front with
  | nil => cases h
  | cons step front =>
    obtain ⟨rfl, htail⟩ := List.cons.inj h
    cases front with
    | nil =>
      obtain ⟨hstep, rfl⟩ := List.cons.inj htail
      exact .inl ⟨rfl, (Step.index.inj hstep).symm, rfl⟩
    | cons step' inner =>
      obtain ⟨rfl, rfl⟩ := List.cons.inj htail
      exact .inr ⟨inner, rfl, rfl⟩

theorem item {listing : Listing} {items : List Json} {i : Nat}
    (hitems : members.lookup listing.name = some (.arr items)) (hpart : items[i]? = some part)
    (hshape : ¬ listing.Shape part) (hbefore : ∀ y ∈ items.take i, listing.Shape y)
    (hready : part.Ready steps) (h : part.FaultAt steps reason) :
    (obj members).FaultAt (.member listing.name :: .index i :: steps) reason where
  found := by
    rcases h.found with ⟨fault, hfault, hreason⟩ | ⟨rfl, front, owner, rfl, howner, habsent⟩
    · exact .inl ⟨fault, by simp [at?, get?, arr?, hitems, hpart, hfault], hreason⟩
    · exact .inr ⟨rfl, .member listing.name :: .index i :: front, owner, rfl,
        by simp [at?, get?, arr?, hitems, hpart, howner], habsent⟩
  first front j rest heq := by
    rcases front_of_item heq with ⟨rfl, rfl, rfl⟩ | ⟨inner, rfl, rfl⟩
    · exact ⟨listing, [], items, part, rfl, by simp [at?, get?, hitems], hpart, hshape, hbefore⟩
    · obtain ⟨listing', owner, items', x, rfl, hitems', hx⟩ := h.first inner j rest rfl
      exact ⟨listing', .member listing.name :: .index i :: owner, items', x, rfl,
        by simp [at?, get?, arr?, hitems, hpart, hitems'], hx⟩
  entered front j name rest heq := by
    rcases front_of_item heq with ⟨rfl, rfl, rfl⟩ | ⟨inner, rfl, rfl⟩
    · obtain ⟨node, rfl, hentered⟩ := hready name rest rfl
      exact ⟨node, by simp [at?, get?, arr?, hitems, hpart], hentered⟩
    · obtain ⟨node, hnode, hentered⟩ := h.entered inner j name rest rfl
      exact ⟨node, by simp [at?, get?, arr?, hitems, hpart, hnode], hentered⟩
  named other hother := by
    simp only [List.mem_cons, reduceCtorEq, false_or] at hother
    rcases hother with heq | hother
    · rw [Step.member.inj heq]
      cases listing <;> simp [Listing.name, partNames]
    · exact h.named other hother

end Json.FaultAt

/-! ## The loader's reports -/

open Json

namespace Misfit

/-- The fault lies in the value, whose own place is given. -/
def Blames (fault : Misfit) (place : List Step) (value : Json) : Prop :=
  ∃ steps, fault.place = place ++ steps ∧ value.FaultAt steps fault.reason

/-- The fault lies in the value as an item of an array. -/
def BlamesItem (fault : Misfit) (place : List Step) (value : Json) : Prop :=
  ∃ steps, fault.place = place ++ steps ∧ value.FaultAt steps fault.reason ∧ value.Ready steps

/-- The fault lies in a member of the object, or in that there is none. -/
def BlamesMember (fault : Misfit) (place : List Step) (members : Members) (name : String) :
    Prop :=
  ∃ steps, fault.place = place ++ .member name :: steps ∧
    (obj members).FaultAt (.member name :: steps) fault.reason

variable {fault : Misfit} {place : List Step} {value : Json} {members : Members} {name : String}

theorem blamesItem_here {reason : Reason} (place : List Step) (h : reason.Describes value) :
    (Misfit.mk place reason).BlamesItem place value :=
  ⟨[], by simp, .here h, by simp [Ready]⟩

theorem BlamesItem.blames (h : fault.BlamesItem place value) : fault.Blames place value := by
  obtain ⟨steps, hplace, hfault, -⟩ := h
  exact ⟨steps, hplace, hfault⟩

theorem blames_here {reason : Reason} (place : List Step) (h : reason.Describes value) :
    (Misfit.mk place reason).Blames place value :=
  (blamesItem_here place h).blames

theorem BlamesMember.blames (h : fault.BlamesMember place members name) :
    fault.Blames place (obj members) := by
  obtain ⟨steps, hplace, hfault⟩ := h
  exact ⟨_, hplace, hfault⟩

theorem BlamesMember.blamesItem (h : fault.BlamesMember place members name)
    (hentered : Entered name members) : fault.BlamesItem place (obj members) := by
  obtain ⟨steps, hplace, hfault⟩ := h
  refine ⟨_, hplace, hfault, fun other rest heq => ?_⟩
  obtain ⟨hstep, rfl⟩ := List.cons.inj heq
  obtain rfl := Step.member.inj hstep
  exact ⟨members, rfl, hentered⟩

theorem Blames.under {part : Json} (hname : name ∈ partNames)
    (hpart : members.lookup name = some part)
    (h : fault.Blames (place ++ [.member name]) part) :
    fault.BlamesMember place members name := by
  obtain ⟨steps, hplace, hfault⟩ := h
  exact ⟨steps, by simp [hplace], hfault.under hname hpart⟩

end Misfit

section

variable {members : Members} {place : List Step} {fault : Misfit}

theorem blames_of_eachItem {β : Type} {load : List Step → Json → Except Misfit β}
    (listing : Listing) {items : List Json}
    (hitems : members.lookup listing.name = some (.arr items))
    (hload : ∀ x ∈ items, ∀ p, (∃ y, load p x = .ok y) ↔ listing.Shape x)
    (hblames : ∀ x ∈ items, ∀ p fault, load p x = .error fault → fault.BlamesItem p x)
    (h : eachItem load (place ++ [.member listing.name]) 0 items = .error fault) :
    fault.BlamesMember place members listing.name := by
  obtain ⟨i, x, hx, hfault, hshape, hbefore⟩ := eachItem_error hload h
  obtain ⟨steps, hplace, hsteps, hready⟩ := hblames x (List.mem_of_getElem? hx) _ fault hfault
  exact ⟨.index i :: steps, by simp [hplace], hsteps.item hitems hx hshape hbefore hready⟩

theorem blames_of_selectorsOf (type : members.lookup "type" = some (.str "rule"))
    (h : selectorsOf place members = .error fault) : fault.BlamesItem place (obj members) := by
  rcases arr_or_not (members.lookup "selectors") with ⟨selectors, hselectors⟩ | hnone
  · rw [selectorsOf_of_arr place hselectors] at h
    have hmember : fault.BlamesMember place members "selectors" := by
      refine blames_of_eachItem .selectors hselectors (fun x _ p => exists_selectorOf_iff x p)
        (fun x _ p fault hfault => ?_) h
      cases x with
      | str s => cases hfault
      | _ =>
        obtain rfl := Except.error.inj hfault
        exact Misfit.blamesItem_here p rfl
    exact hmember.blamesItem ⟨by simp, by simp⟩
  · rw [selectorsOf_of_not_arr place hnone] at h
    obtain rfl := Except.error.inj h
    exact Misfit.blamesItem_here place ⟨members, rfl, type, hnone⟩

theorem blames_of_stringOf {kind field : String} (before : List String) {after : List String}
    (type : members.lookup "type" = some (.str kind))
    (hfields : textFields kind = before ++ field :: after)
    (hbefore : ∀ name ∈ before, ∃ text, members.lookup name = some (.str text))
    (h : stringOf place members field = .error fault) : fault.BlamesItem place (obj members) := by
  obtain ⟨rfl, hfield⟩ := stringOf_eq_error place h
  exact Misfit.blamesItem_here place
    ⟨members, kind, before, after, rfl, type, hfields, hbefore, hfield⟩

theorem blames_of_itemOf {value : Json} (h : itemOf place value = .error fault) :
    fault.BlamesItem place value := by
  cases hmembers : value.obj? with
  | none =>
    rw [itemOf_of_not_obj place hmembers] at h
    obtain rfl := Except.error.inj h
    exact Misfit.blamesItem_here place hmembers
  | some members =>
    obtain rfl := obj?_eq_some_iff.mp hmembers
    rcases typed_or_untyped members with ⟨kind, type⟩ | huntyped
    · by_cases hdeclaration : kind = "declaration"
      · subst hdeclaration
        rw [itemOf_declaration place type] at h
        rcases bind_eq_error.mp h with h | ⟨property, hproperty, h⟩
        · exact blames_of_stringOf [] type rfl (by simp) h
        · rcases bind_eq_error.mp h with h | ⟨text, -, h⟩
          · refine blames_of_stringOf ["property"] type rfl ?_ h
            simp [(stringOf_eq_ok_iff place).mp hproperty]
          · cases h
      · by_cases hcomment : kind = "comment"
        · subst hcomment
          rw [itemOf_comment place type] at h
          rcases bind_eq_error.mp h with h | ⟨text, -, h⟩
          · exact blames_of_stringOf [] type rfl (by simp) h
          · cases h
        · rw [itemOf_other place type hdeclaration hcomment] at h
          cases h
    · rw [itemOf_untyped place huntyped] at h
      obtain rfl := Except.error.inj h
      exact Misfit.blamesItem_here place ⟨members, rfl, huntyped⟩

theorem blames_of_itemsOf (h : itemsOf place members = .error fault) :
    fault.BlamesMember place members "declarations" := by
  rcases items_cases members with hitems | ⟨items, hitems⟩ | ⟨value, hitems, hnull, harr⟩
  · rw [itemsOf_of_absent place hitems] at h
    cases h
  · rw [itemsOf_of_arr place hitems] at h
    exact blames_of_eachItem .items hitems (fun x _ p => exists_itemOf_iff x p)
      (fun _ _ _ _ => blames_of_itemOf) h
  · rw [itemsOf_of_not_arr place hitems hnull harr] at h
    obtain rfl := Except.error.inj h
    exact Misfit.Blames.under (by simp [partNames]) hitems (Misfit.blames_here _ ⟨harr, hnull⟩)

theorem blames_of_childrenOf
    (hblames : ∀ nodes, members.lookup "rules" = some (.arr nodes) → ∀ x ∈ nodes,
      ∀ p fault, nodeOf p x = .error fault → fault.BlamesItem p x)
    (h : childrenOf (place ++ [.member "rules"]) members = .error fault) :
    fault.BlamesMember place members "rules" := by
  rcases arr_or_not (members.lookup "rules") with ⟨nodes, hnodes⟩ | hnone
  · rw [childrenOf_of_arr _ hnodes] at h
    exact blames_of_eachItem .nodes hnodes (fun x _ p => exists_nodeOf_iff x p)
      (hblames nodes hnodes) h
  · rw [childrenOf_of_not_arr _ hnone] at h
    obtain rfl := Except.error.inj h
    cases hrules : members.lookup "rules" with
    | none => exact ⟨[], rfl, .absent hrules⟩
    | some value =>
      have harr : value.arr? = none := by
        rw [hrules] at hnone
        exact bind_arr?_eq_none_iff.mpr hnone
      exact Misfit.Blames.under (by simp [partNames]) hrules (Misfit.blames_here _ harr)

end

theorem blames_of_nodeOf {value : Json} {place : List Step} {fault : Misfit}
    (h : nodeOf place value = .error fault) : fault.BlamesItem place value := by
  induction value using Json.nested_induction generalizing place fault with
  | other value hvalue =>
    rw [nodeOf_of_not_obj place hvalue] at h
    obtain rfl := Except.error.inj h
    exact Misfit.blamesItem_here place hvalue
  | obj members ih =>
    have hchildren : ∀ {fault : Misfit},
        childrenOf (place ++ [.member "rules"]) members = .error fault →
          fault.BlamesMember place members "rules" :=
      blames_of_childrenOf fun nodes hnodes x hx _ _ hfault => ih "rules" nodes hnodes x hx hfault
    rcases typed_or_untyped members with ⟨kind, type⟩ | huntyped
    · rcases type_cases kind with rfl | rfl | rfl | hkind | hkind
      · rw [nodeOf_rule place type] at h
        rcases bind_eq_error.mp h with h | ⟨texts, htexts, h⟩
        · exact blames_of_selectorsOf type h
        · rcases bind_eq_error.mp h with h | ⟨items, -, h⟩
          · have hselectors := (exists_selectorsOf_iff place members).mp ⟨texts, htexts⟩
            exact (blames_of_itemsOf h).blamesItem ⟨fun _ => hselectors, by simp⟩
          · cases h
      · rw [nodeOf_comment place type] at h
        rcases bind_eq_error.mp h with h | ⟨text, -, h⟩
        · exact blames_of_stringOf [] type rfl (by simp) h
        · cases h
      · rw [nodeOf_media place type] at h
        rcases bind_eq_error.mp h with h | ⟨query, hquery, h⟩
        · exact blames_of_stringOf [] type rfl (by simp) h
        · rcases bind_eq_error.mp h with h | ⟨children, -, h⟩
          · refine (hchildren h).blamesItem ⟨by simp, fun _ => ⟨"media", type, ?_⟩⟩
            simp [textFields, (stringOf_eq_ok_iff place).mp hquery]
          · cases h
      · rw [nodeOf_block place hkind type] at h
        rcases bind_eq_error.mp h with h | ⟨children, -, h⟩
        · refine (hchildren h).blamesItem ⟨by simp, fun _ => ⟨kind, type, ?_⟩⟩
          rcases mem_blockTypes.mp hkind with rfl | rfl | rfl <;> simp [textFields]
        · cases h
      · rw [nodeOf_other place hkind type] at h
        cases h
    · rw [nodeOf_untyped place huntyped] at h
      obtain rfl := Except.error.inj h
      exact Misfit.blamesItem_here place ⟨members, rfl, huntyped⟩

/-! ## The whole tree -/

theorem blames_of_typed {root : Members} {fault : Misfit}
    (type : root.lookup "type" = some (.str "stylesheet"))
    (h : Stylesheet.ofJson (.obj root) = .error fault) : fault.Blames [] (obj root) := by
  cases hvalue : root.lookup "stylesheet" with
  | none =>
    rw [ofJson_bodiless type hvalue] at h
    obtain rfl := Except.error.inj h
    exact Misfit.blames_here [] ⟨root, rfl, hvalue⟩
  | some value =>
    have hbody : fault.Blames [.member "stylesheet"] value := by
      cases hmembers : value.obj? with
      | none =>
        rw [ofJson_body_of_not_obj type hvalue hmembers] at h
        obtain rfl := Except.error.inj h
        exact Misfit.blames_here _ hmembers
      | some body =>
        obtain rfl := obj?_eq_some_iff.mp hmembers
        rcases reported_or_not body with ⟨error, more, herrors⟩ | hnone
        · rw [ofJson_reported type hvalue herrors] at h
          obtain rfl := Except.error.inj h
          refine Misfit.BlamesMember.blames (Misfit.Blames.under (by simp [partNames]) herrors ?_)
          exact Misfit.blames_here _ ⟨error :: more, rfl, rfl, by simp⟩
        · rw [ofJson_body type hvalue hnone] at h
          rcases bind_eq_error.mp h with h | ⟨nodes, -, h⟩
          · exact (blames_of_childrenOf (fun _ _ _ _ _ _ => blames_of_nodeOf) h).blames
          · cases h
    exact (Misfit.Blames.under (by simp [partNames]) hvalue hbody).blames

theorem blames_of_ofJson {tree : Json} {fault : Misfit}
    (h : Stylesheet.ofJson tree = .error fault) : fault.Blames [] tree := by
  cases hroot : tree.obj? with
  | none =>
    rw [ofJson_of_not_obj hroot] at h
    obtain rfl := Except.error.inj h
    exact Misfit.blames_here [] hroot
  | some root =>
    obtain rfl := obj?_eq_some_iff.mp hroot
    rcases typed_or_untyped root with ⟨kind, type⟩ | huntyped
    · by_cases hkind : kind = "stylesheet"
      · subst hkind
        exact blames_of_typed type h
      · rw [ofJson_otherType type hkind] at h
        obtain rfl := Except.error.inj h
        refine Misfit.BlamesMember.blames (Misfit.Blames.under (by simp [partNames]) type ?_)
        exact Misfit.blames_here _ ⟨rfl, hkind⟩
    · rw [ofJson_untyped huntyped] at h
      obtain rfl := Except.error.inj h
      exact Misfit.blames_here [] ⟨root, rfl, huntyped⟩

/-- No name of a member on the way to a fault has a delimiter of places in it. -/
theorem Json.FaultAt.plain {value : Json} {place : List Step} {reason : Reason}
    (h : value.FaultAt place reason) : ∀ step ∈ place, step.Plain := by
  have hnames : ∀ name ∈ partNames, (Step.member name).Plain := by
    simp [partNames, Step.Plain, isDelimiter]
  intro step hstep
  cases step with
  | member name => exact hnames name (h.named name hstep)
  | index i => trivial

/-- **The loader accepts its grammar.** The trees of stylesheets are loaded, and no others;
of any other tree the first fault is reported, by a text that gives its place. -/
theorem ofJson_grammar (tree : Json) :
    ((∃ sheet, Stylesheet.ofJson tree = .ok sheet) ↔ tree.IsSheet) ∧
      ∀ fault, Stylesheet.ofJson tree = .error fault →
        tree.FaultAt fault.place fault.reason ∧
          placeOfText (placeText fault.place) = fault.place := by
  refine ⟨exists_ofJson_iff tree, fun fault h => ?_⟩
  obtain ⟨steps, hplace, hfault⟩ := blames_of_ofJson h
  obtain rfl : fault.place = steps := by simpa using hplace
  exact ⟨hfault, placeOfText_placeText hfault.plain⟩

/-- A comment and a media query with a rule, whose second declaration has no value. -/
def valuelessTree : Json :=
  let declaration : Members := [("property", .str "color"), ("type", .str "declaration")]
  let rule : Members := [
    ("declarations", .arr [.obj (declaration ++ [("value", .str "red")]), .obj declaration]),
    ("selectors", .arr [.str "a"]), ("type", .str "rule")]
  let nodes : List Json := [
    .obj [("comment", .str "colours"), ("type", .str "comment")],
    .obj [("media", .str "print"), ("rules", .arr [.obj rule]), ("type", .str "media")]]
  .obj [("stylesheet", .obj [("rules", .arr nodes)]), ("type", .str "stylesheet")]

theorem ofJson_grammar_valuelessTree :
    ∃ fault, Stylesheet.ofJson valuelessTree = .error fault ∧ fault.reason = .noString "value" ∧
      placeText fault.place = "$.stylesheet.rules[1].rules[0].declarations[1]" ∧
      valuelessTree.FaultAt fault.place fault.reason ∧
      placeOfText (placeText fault.place) = fault.place := by
  have h : Stylesheet.ofJson valuelessTree = .error ⟨[.member "stylesheet", .member "rules",
      .index 1, .member "rules", .index 0, .member "declarations", .index 1],
      .noString "value"⟩ := by rfl
  exact ⟨_, h, rfl, by decide +kernel, (ofJson_grammar valuelessTree).2 _ h⟩

end StyleDelta
