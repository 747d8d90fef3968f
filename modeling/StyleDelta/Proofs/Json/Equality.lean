import Mathlib.Data.List.Forall2
import StyleDelta.Json.Basic

/-!
Equality of JSON values is an equivalence.

A value is equal to values of its own sort only, arrays item by item and objects
member by member, so the three laws come down to those of numbers.
-/

namespace StyleDelta

/-! ## Lists related item by item -/

theorem isEqv_iff_forall₂ {α : Type} (f : α → α → Bool) (xs ys : List α) :
    xs.isEqv ys f = true ↔ List.Forall₂ (fun x y => f x y = true) xs ys := by
  induction xs generalizing ys with
  | nil => cases ys <;> simp
  | cons x xs ih => cases ys <;> simp [List.isEqv, ih]

theorem forall₂_symm_of_mem {α : Type} {R : α → α → Prop} {xs ys : List α}
    (hR : ∀ x ∈ xs, ∀ y, R x y → R y x) (h : List.Forall₂ R xs ys) : List.Forall₂ R ys xs := by
  induction h with
  | nil => exact .nil
  | @cons x y xs ys hxy _ ih =>
    exact .cons (hR x (List.mem_cons_self ..) y hxy)
      (ih fun x' hx' => hR x' (List.mem_cons_of_mem _ hx'))

theorem forall₂_trans_of_mem {α : Type} {R : α → α → Prop} {xs ys zs : List α}
    (hR : ∀ x ∈ xs, ∀ y z, R x y → R y z → R x z) (hxy : List.Forall₂ R xs ys)
    (hyz : List.Forall₂ R ys zs) : List.Forall₂ R xs zs := by
  induction hxy generalizing zs with
  | nil =>
    cases hyz
    exact .nil
  | @cons x y xs ys h _ ih =>
    cases hyz with
    | @cons _ z _ zs h' hrest =>
      exact .cons (hR x (List.mem_cons_self ..) y z h h')
        (ih (fun x' hx' => hR x' (List.mem_cons_of_mem _ hx')) hrest)

/-! ## Numbers -/

theorem Binary64.eqv_refl (x : Binary64) : x.eqv x = true := by
  simp [Binary64.eqv]

theorem Binary64.eqv_symm {x y : Binary64} (h : x.eqv y = true) : y.eqv x = true := by
  simp only [Binary64.eqv, Bool.and_eq_true, Bool.or_eq_true, decide_eq_true_eq] at h ⊢
  obtain ⟨hrank, hsign | hzero⟩ := h
  · exact ⟨hrank.symm, Or.inl hsign.symm⟩
  · exact ⟨hrank.symm, Or.inr (hrank ▸ hzero)⟩

theorem Binary64.eqv_trans {x y z : Binary64} (hxy : x.eqv y = true) (hyz : y.eqv z = true) :
    x.eqv z = true := by
  simp only [Binary64.eqv, Bool.and_eq_true, Bool.or_eq_true, decide_eq_true_eq] at hxy hyz ⊢
  obtain ⟨hrank, hsign⟩ := hxy
  obtain ⟨hrank', hsign'⟩ := hyz
  refine ⟨hrank.trans hrank', ?_⟩
  rcases hsign with hsign | hzero
  · rcases hsign' with hsign' | hzero
    · exact Or.inl (hsign.trans hsign')
    · exact Or.inr (hrank.trans hzero)
  · exact Or.inr hzero

theorem Number.eqv_refl (n : Number) : n.eqv n = true := by
  cases n with
  | int n => simp [Number.eqv]
  | float x => exact x.eqv_refl

theorem Number.eqv_symm {m n : Number} (h : m.eqv n = true) : n.eqv m = true := by
  cases m <;> cases n <;> simp only [Number.eqv, Bool.false_eq_true, decide_eq_true_eq] at h ⊢
  · exact h.symm
  · exact Binary64.eqv_symm h

theorem Number.eqv_trans {l m n : Number} (hlm : l.eqv m = true) (hmn : m.eqv n = true) :
    l.eqv n = true := by
  cases l <;> cases m <;> cases n <;>
    simp only [Number.eqv, Bool.false_eq_true, decide_eq_true_eq] at hlm hmn ⊢
  · exact hlm.trans hmn
  · exact Binary64.eqv_trans hlm hmn

/-! ## Values -/

namespace Json

/-- Induction over values with a hypothesis for every item and every member. -/
theorem induction {P : Json → Prop} (null : P .null) (bool : ∀ b, P (.bool b))
    (num : ∀ n, P (.num n)) (str : ∀ s, P (.str s))
    (arr : ∀ items, (∀ x ∈ items, P x) → P (.arr items))
    (obj : ∀ members, (∀ m ∈ members, P m.2) → P (.obj members)) (value : Json) : P value := by
  refine @Json.rec P (fun items => ∀ x ∈ items, P x) (fun members => ∀ m ∈ members, P m.2)
    (fun m => P m.2) null bool num str arr obj ?_ ?_ ?_ ?_ ?_ value
  · simp
  · intro x items hx hitems
    exact List.forall_mem_cons.mpr ⟨hx, hitems⟩
  · simp
  · intro m members hm hmembers
    exact List.forall_mem_cons.mpr ⟨hm, hmembers⟩
  · intro name value hvalue
    exact hvalue

/-- Members agree in their names and their values. -/
def MemberEqv (m n : String × Json) : Prop := m.1 = n.1 ∧ m.2.eqv n.2 = true

theorem eqvItems_iff (xs ys : List Json) :
    eqvItems xs ys = true ↔ List.Forall₂ (fun x y => x.eqv y = true) xs ys := by
  rw [eqvItems_eq_isEqv, isEqv_iff_forall₂]

theorem eqvMembers_iff (xs ys : List (String × Json)) :
    eqvMembers xs ys = true ↔ List.Forall₂ MemberEqv xs ys := by
  induction xs generalizing ys with
  | nil => cases ys <;> simp [eqvMembers]
  | cons x xs ih =>
    cases ys with
    | nil => simp [eqvMembers]
    | cons y ys => simp [eqvMembers, MemberEqv, ih, and_assoc]

theorem eqv_null_iff (b : Json) : null.eqv b = true ↔ b = null := by
  cases b <;> simp [eqv]

theorem eqv_bool_iff (x : Bool) (b : Json) : (bool x).eqv b = true ↔ b = bool x := by
  cases b <;> simp [eqv, eq_comm]

theorem eqv_str_iff (s : String) (b : Json) : (str s).eqv b = true ↔ b = str s := by
  cases b <;> simp [eqv, eq_comm]

theorem eqv_arr_iff (xs : List Json) (b : Json) :
    (arr xs).eqv b = true ↔ ∃ ys, b = arr ys ∧ List.Forall₂ (fun x y => x.eqv y = true) xs ys := by
  cases b <;> simp [eqv, eqvItems_iff]

theorem eqv_obj_iff (xs : List (String × Json)) (b : Json) :
    (obj xs).eqv b = true ↔ ∃ ys, b = obj ys ∧ List.Forall₂ MemberEqv xs ys := by
  cases b <;> simp [eqv, eqvMembers_iff]

theorem eqv_num_iff (n : Number) (b : Json) :
    (num n).eqv b = true ↔ ∃ m, b = num m ∧ n.eqv m = true := by
  cases b <;> simp [eqv]

theorem eqv_refl (a : Json) : a.eqv a = true := by
  induction a using Json.induction with
  | null => rfl
  | bool b => simp [eqv]
  | num n => exact n.eqv_refl
  | str s => simp [eqv]
  | arr items ih => exact (eqvItems_iff items items).mpr (List.forall₂_same.mpr ih)
  | obj members ih =>
    exact (eqvMembers_iff members members).mpr
      (List.forall₂_same.mpr fun m hm => ⟨rfl, ih m hm⟩)

theorem eqv_symm {a b : Json} (h : a.eqv b = true) : b.eqv a = true := by
  induction a using Json.induction generalizing b with
  | null =>
    obtain rfl := (eqv_null_iff b).mp h
    exact h
  | bool x =>
    obtain rfl := (eqv_bool_iff x b).mp h
    exact h
  | str s =>
    obtain rfl := (eqv_str_iff s b).mp h
    exact h
  | num n =>
    obtain ⟨m, rfl, hm⟩ := (eqv_num_iff n b).mp h
    exact Number.eqv_symm hm
  | arr items ih =>
    obtain ⟨ys, rfl, hys⟩ := (eqv_arr_iff items b).mp h
    exact (eqvItems_iff ys items).mpr (forall₂_symm_of_mem (fun x hx _ => ih x hx) hys)
  | obj members ih =>
    obtain ⟨ys, rfl, hys⟩ := (eqv_obj_iff members b).mp h
    exact (eqvMembers_iff ys members).mpr
      (forall₂_symm_of_mem (fun m hm _ hmn => ⟨hmn.1.symm, ih m hm hmn.2⟩) hys)

theorem eqv_trans {a b c : Json} (hab : a.eqv b = true) (hbc : b.eqv c = true) :
    a.eqv c = true := by
  induction a using Json.induction generalizing b c with
  | null =>
    obtain rfl := (eqv_null_iff b).mp hab
    exact hbc
  | bool x =>
    obtain rfl := (eqv_bool_iff x b).mp hab
    exact hbc
  | str s =>
    obtain rfl := (eqv_str_iff s b).mp hab
    exact hbc
  | num n =>
    obtain ⟨m, rfl, hm⟩ := (eqv_num_iff n b).mp hab
    obtain ⟨l, rfl, hl⟩ := (eqv_num_iff m c).mp hbc
    exact Number.eqv_trans hm hl
  | arr items ih =>
    obtain ⟨ys, rfl, hys⟩ := (eqv_arr_iff items b).mp hab
    obtain ⟨zs, rfl, hzs⟩ := (eqv_arr_iff ys c).mp hbc
    exact (eqvItems_iff items zs).mpr (forall₂_trans_of_mem (fun x hx _ _ => ih x hx) hys hzs)
  | obj members ih =>
    obtain ⟨ys, rfl, hys⟩ := (eqv_obj_iff members b).mp hab
    obtain ⟨zs, rfl, hzs⟩ := (eqv_obj_iff ys c).mp hbc
    exact (eqvMembers_iff members zs).mpr
      (forall₂_trans_of_mem (fun m hm _ _ h h' => ⟨h.1.trans h'.1, ih m hm h.2 h'.2⟩) hys hzs)

end Json

end StyleDelta
