import StyleDelta.Proofs.Json.Equality

/-!
Reading, erasing and sorting members.

`Lacks` says that no object has a member of a name, at any depth. Erasing a name leaves
a value that lacks it (`lacks_erase`) and does nothing to one that lacks it already
(`Lacks.erase_eq`). Members are found under their names in any order (`lookup_sorted`),
and one that is inserted stands in no part of an object that leaves its name out
(`filter_insert`).
-/

namespace StyleDelta.Json

/-! ## Values of one sort -/

theorem str?_eq_some_iff {value : Json} {s : String} : value.str? = some s ↔ value = .str s := by
  cases value <;> simp [str?]

theorem arr?_eq_some_iff {value : Json} {items : List Json} :
    value.arr? = some items ↔ value = .arr items := by
  cases value <;> simp [arr?]

theorem obj?_eq_some_iff {value : Json} {members : List (String × Json)} :
    value.obj? = some members ↔ value = .obj members := by
  cases value <;> simp [obj?]

theorem bind_str?_eq_some_iff {member : Option Json} {s : String} :
    member.bind str? = some s ↔ member = some (.str s) := by
  cases member with
  | none => simp
  | some value => simp [str?_eq_some_iff]

theorem bind_arr?_eq_some_iff {member : Option Json} {items : List Json} :
    member.bind arr? = some items ↔ member = some (.arr items) := by
  cases member with
  | none => simp
  | some value => simp [arr?_eq_some_iff]

theorem bind_str?_eq_none_iff {member : Option Json} :
    member.bind str? = none ↔ ∀ s, member ≠ some (.str s) := by
  simp [Option.eq_none_iff_forall_ne_some, bind_str?_eq_some_iff]

theorem bind_arr?_eq_none_iff {member : Option Json} :
    member.bind arr? = none ↔ ∀ items, member ≠ some (.arr items) := by
  simp [Option.eq_none_iff_forall_ne_some, bind_arr?_eq_some_iff]

theorem arr_or_not (member : Option Json) :
    (∃ items, member = some (.arr items)) ∨ ∀ items, member ≠ some (.arr items) := by
  by_cases h : ∃ items, member = some (.arr items)
  · exact Or.inl h
  · exact Or.inr fun items hitems => h ⟨items, hitems⟩

theorem mem_of_lookup {members : List (String × Json)} {name : String} {value : Json}
    (h : members.lookup name = some value) : (name, value) ∈ members := by
  obtain ⟨before, after, rfl, -⟩ := List.lookup_eq_some_iff.mp h
  exact List.mem_append_right _ (List.mem_cons_self ..)

/-- Induction over objects that hold arrays of others. -/
theorem nested_induction {P : Json → Prop} (obj : ∀ members, (∀ name items,
      members.lookup name = some (.arr items) → ∀ x ∈ items, P x) → P (.obj members))
    (other : ∀ value, value.obj? = none → P value) (value : Json) : P value := by
  -- an array is no object, but what holds of its items is needed where it is a member
  have hboth : P value ∧ ∀ items, value = .arr items → ∀ x ∈ items, P x := by
    induction value using Json.induction with
    | arr items ih =>
      refine ⟨other _ rfl, fun items' heq x hx => ?_⟩
      obtain rfl := Json.arr.inj heq
      exact (ih x hx).1
    | obj members ih =>
      refine ⟨obj members fun name items hitems => ?_, by simp⟩
      exact (ih _ (mem_of_lookup hitems)).2 items rfl
    | _ => exact ⟨other _ rfl, by simp⟩
  exact hboth.1

/-! ## Members of one name at every depth -/

/-- No member of the name at any depth. -/
inductive Lacks (name : String) : Json → Prop
  | null : Lacks name .null
  | bool (b : Bool) : Lacks name (.bool b)
  | num (n : Number) : Lacks name (.num n)
  | str (s : String) : Lacks name (.str s)
  | arr {items : List Json} (h : ∀ x ∈ items, Lacks name x) : Lacks name (.arr items)
  | obj {members : List (String × Json)} (names : ∀ m ∈ members, m.1 ≠ name)
      (values : ∀ m ∈ members, Lacks name m.2) : Lacks name (.obj members)

theorem lacks_erase (name : String) (value : Json) : (value.erase name).Lacks name := by
  induction value using Json.induction with
  | null => exact .null
  | bool b => exact .bool b
  | num n => exact .num n
  | str s => exact .str s
  | arr items ih =>
    rw [erase, eraseItems_eq_map]
    refine .arr fun x hx => ?_
    obtain ⟨item, hitem, rfl⟩ := List.mem_map.mp hx
    exact ih item hitem
  | obj members ih =>
    rw [erase, eraseMembers_eq_map_filter]
    have hkept : ∀ m ∈ (members.filter (·.1 ≠ name)).map fun m => (m.1, erase name m.2),
        ∃ m' ∈ members, m'.1 ≠ name ∧ m = (m'.1, erase name m'.2) := by
      intro m hm
      obtain ⟨m', hm', rfl⟩ := List.mem_map.mp hm
      obtain ⟨hmem, hname⟩ := List.mem_filter.mp hm'
      exact ⟨m', hmem, by simpa using hname, rfl⟩
    refine .obj (fun m hm => ?_) (fun m hm => ?_)
    · obtain ⟨m', -, hname, rfl⟩ := hkept m hm
      exact hname
    · obtain ⟨m', hmem, -, rfl⟩ := hkept m hm
      exact ih m' hmem

theorem Lacks.erase_eq {name : String} {value : Json} (h : value.Lacks name) :
    value.erase name = value := by
  induction h with
  | null => rfl
  | bool b => rfl
  | num n => rfl
  | str s => rfl
  | @arr items _ ih =>
    have hitems : items.map (erase name) = items.map id := List.map_congr_left ih
    rw [erase, eraseItems_eq_map, hitems, List.map_id]
  | @obj members names _ ih =>
    have hnames : members.filter (·.1 ≠ name) = members := by
      rw [List.filter_eq_self]
      intro m hm
      simpa using names m hm
    have hvalues : members.map (fun m => (m.1, erase name m.2)) = members.map id :=
      List.map_congr_left fun m hm => Prod.ext rfl (ih m hm)
    rw [erase, eraseMembers_eq_map_filter, hnames, hvalues, List.map_id]

theorem lookup_eraseMembers {name other : String} (h : other ≠ name)
    (members : List (String × Json)) :
    (eraseMembers name members).lookup other = (members.lookup other).map (erase name) := by
  induction members with
  | nil => rfl
  | cons m members ih =>
    obtain ⟨key, value⟩ := m
    by_cases hk : key = name
    · subst hk
      simp [eraseMembers, List.lookup_cons, beq_eq_false_iff_ne.mpr h, ih]
    · by_cases ho : other = key
      · subst ho
        simp [eraseMembers, h]
      · simp [eraseMembers, hk, List.lookup_cons, beq_eq_false_iff_ne.mpr ho, ih]

theorem lookup_eraseMembers_self (name : String) (members : List (String × Json)) :
    (eraseMembers name members).lookup name = none := by
  induction members with
  | nil => rfl
  | cons m members ih =>
    obtain ⟨key, value⟩ := m
    by_cases hk : key = name
    · simp [eraseMembers, hk, ih]
    · simp [eraseMembers, hk, List.lookup_cons, beq_eq_false_iff_ne.mpr (Ne.symm hk), ih]

theorem erase_erase (name : String) (value : Json) :
    (value.erase name).erase name = value.erase name := (lacks_erase name value).erase_eq

theorem eraseMembers_eraseMembers (name : String) (members : List (String × Json)) :
    eraseMembers name (eraseMembers name members) = eraseMembers name members :=
  Json.obj.inj (erase_erase name (.obj members))

theorem eraseMembers_filter (name : String) (p : String → Bool) (members : List (String × Json)) :
    eraseMembers name (members.filter fun m => p m.1) =
      (eraseMembers name members).filter fun m => p m.1 := by
  rw [eraseMembers_eq_map_filter, eraseMembers_eq_map_filter, List.filter_map, List.filter_filter,
    List.filter_filter]
  simp only [Function.comp_def, Bool.and_comm]

/-! ### Values of one sort -/

theorem erase_arr (name : String) (items : List Json) :
    (arr items).erase name = arr (items.map (erase name)) := by
  rw [erase, eraseItems_eq_map]

theorem str?_erase (name : String) (value : Json) : (value.erase name).str? = value.str? := by
  cases value <;> rfl

theorem arr?_erase (name : String) (value : Json) :
    (value.erase name).arr? = value.arr?.map (List.map (erase name)) := by
  cases value with
  | arr items => rw [erase_arr]; rfl
  | _ => rfl

theorem obj?_erase (name : String) (value : Json) :
    (value.erase name).obj? = value.obj?.map (eraseMembers name) := by
  cases value <;> rfl

theorem obj?_erase_eq_none {value : Json} (h : value.obj? = none) (name : String) :
    (value.erase name).obj? = none := by
  rw [obj?_erase, h, Option.map_none]

/-! ## Members in the order of their names -/

/-- The members in the order of their names; of equal names the first stays. -/
def sorted (members : List (String × Json)) : List (String × Json) :=
  members.foldr (fun m rest => insert m.1 m.2 rest) []

theorem lookup_sorted (members : List (String × Json)) (name : String) :
    (sorted members).lookup name = members.lookup name := by
  induction members with
  | nil => rfl
  | cons m members ih =>
    obtain ⟨key, value⟩ := m
    rw [sorted, List.foldr_cons, ← sorted, lookup_insert, ih, List.lookup_cons]
    by_cases h : name = key <;> simp [h, beq_eq_false_iff_ne.mpr]

/-- The part of an object that leaves a name out does not change with its member. -/
theorem filter_insert {p : String → Bool} {name : String} (h : p name = false) (value : Json)
    (members : List (String × Json)) :
    (insert name value members).filter (fun m => p m.1) = members.filter fun m => p m.1 := by
  induction members with
  | nil => simp [insert, h]
  | cons m members ih =>
    obtain ⟨key, old⟩ := m
    by_cases hk : name = key
    · subst hk
      simp [insert, h]
    · by_cases hlt : name < key
      · simp [insert, hk, hlt, h]
      · simp [insert, hk, hlt, List.filter_cons, ih]

end StyleDelta.Json
