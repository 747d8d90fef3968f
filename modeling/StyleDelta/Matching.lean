/-!
The rank join of two sequences whose entries may have a key.

An entry of the first sequence is paired with the first entry of the second that
has the same key and is not paired yet, so the entries of one key are paired in
order of appearance. What is left over on either side stays in its order. An
entry without a key is never paired.
-/

namespace StyleDelta

structure Matching (α β : Type) where
  /-- In the order of the first sequence. -/
  pairs : List (α × β)
  /-- Left over from the second sequence. -/
  extra : List β
  /-- Left over from the first sequence. -/
  missing : List α
  deriving DecidableEq, Repr

namespace Matching

variable {κ α β : Type} [DecidableEq κ]

/-- The first entry with a key, and the entries without it. -/
def takeFirst (key : κ) : List (Option κ × β) → Option (β × List (Option κ × β))
  | [] => none
  | (other, y) :: rest =>
    if other = some key then some (y, rest)
    else (takeFirst key rest).map fun (found, left) => (found, (other, y) :: left)

/-- The partner of an entry among those of the second sequence, and the others. -/
def partner (key : Option κ) (second : List (Option κ × β)) :
    Option (β × List (Option κ × β)) :=
  key.bind fun key => takeFirst key second

def join : List (Option κ × α) → List (Option κ × β) → Matching α β
  | [], second => ⟨[], second.map Prod.snd, []⟩
  | (key, x) :: first, second =>
    match partner key second with
    | some (y, second) =>
      let matching := join first second
      { matching with pairs := (x, y) :: matching.pairs }
    | none =>
      let matching := join first second
      { matching with missing := x :: matching.missing }

/-- No entry is left over. -/
def isComplete (matching : Matching α β) : Bool :=
  matching.extra.isEmpty && matching.missing.isEmpty

end Matching

end StyleDelta
