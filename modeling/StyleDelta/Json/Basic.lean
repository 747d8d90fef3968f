import StyleDelta.Number.Binary64

/-!
JSON values, the access to their parts, and their equality.

Members of an object are kept in a list. The reader builds it with `insert`, so
what is read has its names in ascending order, each once; no operation relies on
that, and a look-up takes the first member of a name. Integers and floats are
different numbers even where their values agree, and floats are compared as
numbers, so that the two zeros are equal.
-/

namespace StyleDelta

/-- Whole numbers of 64 bits lie below it. -/
def wordBound : Nat := 0x10000000000000000

inductive Number where
  | int (n : Int)
  | float (x : Binary64)
  deriving DecidableEq, Repr

inductive Json where
  | null
  | bool (b : Bool)
  | num (n : Number)
  | str (s : String)
  | arr (items : List Json)
  | obj (members : List (String × Json))
  deriving Inhabited

/-- A float equals a float of the same value, an integer only itself. -/
def Number.eqv : Number → Number → Bool
  | .int m, .int n => m = n
  | .float x, .float y => x.eqv y
  | _, _ => false

namespace Json

def str? : Json → Option String
  | .str s => some s
  | _ => none

def arr? : Json → Option (List Json)
  | .arr items => some items
  | _ => none

def obj? : Json → Option (List (String × Json))
  | .obj members => some members
  | _ => none

/-- The member of an object; other values have none. -/
def get? (name : String) : Json → Option Json
  | .obj members => members.lookup name
  | _ => none

/-- Puts a member into a list with ascending names; an earlier value of that name
is replaced. -/
def insert (name : String) (value : Json) : List (String × Json) → List (String × Json)
  | [] => [(name, value)]
  | (other, old) :: rest =>
    if name = other then (name, value) :: rest
    else if name < other then (name, value) :: (other, old) :: rest
    else (other, old) :: insert name value rest

theorem lookup_insert (name other : String) (value : Json) (members : List (String × Json)) :
    (insert name value members).lookup other =
      if other = name then some value else members.lookup other := by
  induction members with
  | nil => by_cases h : other = name <;>
      simp [insert, List.lookup_cons, List.lookup_nil, h, beq_eq_false_iff_ne.mpr]
  | cons member rest ih =>
    obtain ⟨key, old⟩ := member
    by_cases hk : name = key
    · subst hk
      by_cases h : other = name <;>
        simp [insert, List.lookup_cons, h, beq_eq_false_iff_ne.mpr]
    · by_cases h : other = name
      · subst h
        simp only [insert, hk, if_false, if_true] at ih ⊢
        split <;> simp [List.lookup_cons, ih, beq_eq_false_iff_ne.mpr hk]
      · simp only [insert, hk, if_false, h] at ih ⊢
        split <;> simp [List.lookup_cons, ih, beq_eq_false_iff_ne.mpr h]

mutual

/-- Equality of values. -/
def eqv : Json → Json → Bool
  | .null, .null => true
  | .bool a, .bool b => a = b
  | .num a, .num b => a.eqv b
  | .str a, .str b => a = b
  | .arr xs, .arr ys => eqvItems xs ys
  | .obj xs, .obj ys => eqvMembers xs ys
  | _, _ => false
termination_by structural value => value

def eqvItems : List Json → List Json → Bool
  | [], [] => true
  | x :: xs, y :: ys => eqv x y && eqvItems xs ys
  | _, _ => false
termination_by structural items => items

def eqvMembers : List (String × Json) → List (String × Json) → Bool
  | [], [] => true
  | (a, x) :: xs, (b, y) :: ys => a = b && eqv x y && eqvMembers xs ys
  | _, _ => false
termination_by structural members => members

end

theorem eqvItems_eq_isEqv (xs ys : List Json) : eqvItems xs ys = xs.isEqv ys eqv := by
  induction xs generalizing ys with
  | nil => cases ys <;> rfl
  | cons x xs ih => cases ys <;> simp [eqvItems, List.isEqv, ih]

mutual

/-- The value without any member of the given name, at every depth. -/
def erase (name : String) : Json → Json
  | .arr items => .arr (eraseItems name items)
  | .obj members => .obj (eraseMembers name members)
  | value => value
termination_by structural value => value

def eraseItems (name : String) : List Json → List Json
  | [] => []
  | item :: rest => erase name item :: eraseItems name rest
termination_by structural items => items

def eraseMembers (name : String) : List (String × Json) → List (String × Json)
  | [] => []
  | (key, value) :: rest =>
    if key = name then eraseMembers name rest
    else (key, erase name value) :: eraseMembers name rest
termination_by structural members => members

end

theorem eraseItems_eq_map (name : String) (items : List Json) :
    eraseItems name items = items.map (erase name) := by
  induction items with
  | nil => rfl
  | cons item rest ih => rw [eraseItems, List.map_cons, ih]

theorem eraseMembers_eq_map_filter (name : String) (members : List (String × Json)) :
    eraseMembers name members =
      (members.filter (·.1 ≠ name)).map fun (key, value) => (key, erase name value) := by
  induction members with
  | nil => rfl
  | cons member rest ih =>
    obtain ⟨key, value⟩ := member
    by_cases h : key = name <;> simp [eraseMembers, h, ih]

end Json

end StyleDelta
