import StyleDelta.Proofs.Json.Equality

/-!
How far equal values may differ.

Equality of values takes the two zeros among the floats for one number, and nothing else
that differs. So a value is known from the values that are equal to it and the signs of
its zeros (`eq_iff_eqv`).
-/

namespace StyleDelta

/-- The sign of a float that is zero. -/
def Number.zeroSigns : Number → List Bool
  | .float x => if x.rank = 0 then [x.negative] else []
  | .int _ => []

namespace Json

mutual

/-- The signs of the zeros among the floats, in the order of the text. -/
def zeroSigns : Json → List Bool
  | .num n => n.zeroSigns
  | .arr items => zeroSignsItems items
  | .obj members => zeroSignsMembers members
  | _ => []
termination_by structural value => value

def zeroSignsItems : List Json → List Bool
  | [] => []
  | item :: rest => zeroSigns item ++ zeroSignsItems rest
termination_by structural items => items

def zeroSignsMembers : List (String × Json) → List Bool
  | [] => []
  | (_, value) :: rest => zeroSigns value ++ zeroSignsMembers rest
termination_by structural members => members

end

end Json

variable {signs signs' : List Bool}

theorem Number.eq_of_zeroSigns {m n : Number} (heqv : m.eqv n = true)
    (hsigns : m.zeroSigns ++ signs = n.zeroSigns ++ signs') : m = n ∧ signs = signs' := by
  cases m <;> cases n <;> simp only [eqv, Bool.false_eq_true, decide_eq_true_eq] at heqv
  next m n => exact ⟨by rw [heqv], hsigns⟩
  next x y =>
    obtain ⟨negative, rank, hrank⟩ := x
    obtain ⟨negative', rank', hrank'⟩ := y
    simp only [Binary64.eqv, Bool.and_eq_true, Bool.or_eq_true, decide_eq_true_eq] at heqv
    obtain ⟨rfl, hsign⟩ := heqv
    by_cases hzero : rank = 0
    · simpa [zeroSigns, hzero] using hsigns
    · obtain rfl := hsign.resolve_right hzero
      simpa [zeroSigns, hzero] using hsigns

namespace Json

/-- A value equal to `a` with the same signs of zeros, further signs following, is `a`. -/
def Settled (a : Json) : Prop := ∀ (b : Json) (signs signs' : List Bool), a.eqv b = true →
  a.zeroSigns ++ signs = b.zeroSigns ++ signs' → a = b ∧ signs = signs'

theorem items_settled {xs ys : List Json} (hxs : ∀ x ∈ xs, x.Settled)
    (heqv : List.Forall₂ (fun x y => x.eqv y = true) xs ys)
    (hsigns : zeroSignsItems xs ++ signs = zeroSignsItems ys ++ signs') :
    xs = ys ∧ signs = signs' := by
  induction heqv with
  | nil => exact ⟨rfl, hsigns⟩
  | @cons x y xs ys hxy _ ih =>
    simp only [zeroSignsItems, List.append_assoc] at hsigns
    obtain ⟨rfl, hrest⟩ := hxs x (List.mem_cons_self ..) y _ _ hxy hsigns
    obtain ⟨rfl, hleft⟩ := ih (fun x hx => hxs x (List.mem_cons_of_mem _ hx)) hrest
    exact ⟨rfl, hleft⟩

theorem members_settled {xs ys : List (String × Json)} (hxs : ∀ m ∈ xs, m.2.Settled)
    (heqv : List.Forall₂ MemberEqv xs ys)
    (hsigns : zeroSignsMembers xs ++ signs = zeroSignsMembers ys ++ signs') :
    xs = ys ∧ signs = signs' := by
  induction heqv with
  | nil => exact ⟨rfl, hsigns⟩
  | @cons x y xs ys hxy _ ih =>
    simp only [zeroSignsMembers, List.append_assoc] at hsigns
    obtain ⟨hvalue, hrest⟩ := hxs x (List.mem_cons_self ..) y.2 _ _ hxy.2 hsigns
    obtain ⟨rfl, hleft⟩ := ih (fun m hm => hxs m (List.mem_cons_of_mem _ hm)) hrest
    exact ⟨congrArg (· :: xs) (Prod.ext hxy.1 hvalue), hleft⟩

theorem settled (a : Json) : a.Settled := by
  induction a using Json.induction with
  | null =>
    intro b signs signs' heqv hsigns
    obtain rfl := (eqv_null_iff b).mp heqv
    exact ⟨rfl, hsigns⟩
  | bool x =>
    intro b signs signs' heqv hsigns
    obtain rfl := (eqv_bool_iff x b).mp heqv
    exact ⟨rfl, hsigns⟩
  | num n =>
    intro b signs signs' heqv hsigns
    obtain ⟨m, rfl, hm⟩ := (eqv_num_iff n b).mp heqv
    obtain ⟨rfl, hleft⟩ := Number.eq_of_zeroSigns hm hsigns
    exact ⟨rfl, hleft⟩
  | str s =>
    intro b signs signs' heqv hsigns
    obtain rfl := (eqv_str_iff s b).mp heqv
    exact ⟨rfl, hsigns⟩
  | arr items ih =>
    intro b signs signs' heqv hsigns
    obtain ⟨ys, rfl, hys⟩ := (eqv_arr_iff items b).mp heqv
    obtain ⟨rfl, hleft⟩ := items_settled ih hys hsigns
    exact ⟨rfl, hleft⟩
  | obj members ih =>
    intro b signs signs' heqv hsigns
    obtain ⟨ys, rfl, hys⟩ := (eqv_obj_iff members b).mp heqv
    obtain ⟨rfl, hleft⟩ := members_settled ih hys hsigns
    exact ⟨rfl, hleft⟩

/-- Equal values are the same one if the signs of their zeros are the same. -/
theorem eq_iff_eqv {a b : Json} : a = b ↔ a.eqv b = true ∧ a.zeroSigns = b.zeroSigns := by
  constructor
  · rintro rfl
    exact ⟨a.eqv_refl, rfl⟩
  · rintro ⟨heqv, hsigns⟩
    exact (settled a b [] [] heqv (by rw [hsigns])).1

end Json

end StyleDelta
