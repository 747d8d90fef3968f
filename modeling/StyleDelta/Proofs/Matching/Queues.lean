import Mathlib.Logic.Function.Basic
import StyleDelta.Proofs.Matching
import StyleDelta.Sheet.Siblings

/-!
The rank join by queues and marks.

The positions of every key wait in a queue, and a list of marks says which positions
are taken. An entry takes the position that waits first, and marks it; the positions
that are not marked in the end are left over. A mark outside the list fails the join.

Queues and marks stand for the entries that the rank join has not taken yet
(`Queues.Stand`), a step keeps that (`Queues.Stand.take`), and so the join by queues
never fails and is the rank join (`queueJoin?_eq`).
-/

namespace StyleDelta.Matching

variable {κ : Type} [DecidableEq κ]

/-- The positions that wait under each key. -/
abbrev Queues (κ : Type) := κ → List Nat

/-- Puts positions at the ends of the queues of their keys. -/
def enqueue (queues : Queues κ) : List (Option κ × Nat) → Queues κ
  | [] => queues
  | (none, _) :: rest => enqueue queues rest
  | (some key, j) :: rest => enqueue (Function.update queues key (queues key ++ [j])) rest

/-- Marks a position as taken. -/
def mark? (taken : List Bool) (j : Nat) : Option (List Bool) :=
  if j < taken.length then some (taken.set j true) else none

def unmarked (taken : List Bool) : List Nat :=
  (List.range taken.length).filter fun j => taken[j]? = some false

/-- The position that waits first under a key, and the queues without it. -/
def dequeue (queues : Queues κ) (key : Option κ) : Option (Nat × Queues κ) :=
  key.bind fun key =>
    match queues key with
    | [] => none
    | j :: waiting => some (j, Function.update queues key waiting)

/-- The join of the positions of a first sequence with those that wait. -/
def joinQueues? (queues : Queues κ) (taken : List Bool) :
    List (Option κ × Nat) → Option (Matching Nat Nat)
  | [] => some ⟨[], unmarked taken, []⟩
  | (key, i) :: first =>
    match dequeue queues key with
    | some (j, queues) => do
      let taken ← mark? taken j
      let matching ← joinQueues? queues taken first
      return { matching with pairs := (i, j) :: matching.pairs }
    | none => do
      let matching ← joinQueues? queues taken first
      return { matching with missing := i :: matching.missing }

/-- A sequence of keys with its positions. -/
def positioned (keys : List (Option κ)) : List (Option κ × Nat) := keys.zipIdx

/-- The join of two sequences of keys. -/
def queueJoin? (first second : List (Option κ)) : Option (Matching Nat Nat) :=
  joinQueues? (enqueue (fun _ => []) (positioned second)) (List.replicate second.length false)
    (positioned first)

/-! ## What queues and marks stand for -/

theorem enqueue_apply (queues : Queues κ) (seq : List (Option κ × Nat)) (key : κ) :
    enqueue queues seq key = queues key ++ ofKey key seq := by
  induction seq generalizing queues with
  | nil => simp [enqueue, ofKey]
  | cons e seq ih =>
    obtain ⟨other, j⟩ := e
    cases other with
    | none => simp [enqueue, ih, ofKey_cons]
    | some other =>
      by_cases h : other = key
      · subst h
        simp [enqueue, ih, ofKey_cons]
      · simp [enqueue, ih, ofKey_cons, h, Function.update_of_ne (Ne.symm h)]

theorem unmarked_replicate (n : Nat) : unmarked (List.replicate n false) = List.range n := by
  have hall : ∀ j ∈ List.range n, decide ((List.replicate n false)[j]? = some false) = true := by
    intro j hj
    have hlt : j < n := List.mem_range.mp hj
    simp [hlt]
  rw [unmarked, List.length_replicate, List.filter_eq_self.mpr hall]

theorem unmarked_set (taken : List Bool) (j : Nat) :
    unmarked (taken.set j true) = (unmarked taken).filter fun k => decide (k ≠ j) := by
  rw [unmarked, unmarked, List.length_set, List.filter_filter]
  refine List.filter_congr fun k hk => ?_
  have hlt : k < taken.length := List.mem_range.mp hk
  by_cases hkj : k = j
  · subst hkj
    simp [hlt]
  · simp [List.getElem?_set_ne (Ne.symm hkj), hkj]

/-- A position that stands once among others goes alone. -/
theorem filter_ne_middle {before after : List Nat} {j : Nat} (h : (before ++ j :: after).Nodup) :
    ((before ++ j :: after).filter fun k => decide (k ≠ j)) = before ++ after := by
  obtain ⟨hj, -⟩ := List.nodup_cons.mp (List.perm_middle.nodup_iff.mp h)
  have hkeep : ∀ k ∈ before ++ after, decide (k ≠ j) = true := by
    intro k hk
    have hne : k ≠ j := by
      rintro rfl
      exact hj hk
    simpa using hne
  have hothers := List.filter_eq_self.mpr hkeep
  rw [List.filter_append] at hothers ⊢
  rw [List.filter_cons_of_neg (by simp), hothers]

/-- The queues and marks of a join in which some entries are not taken yet. -/
structure Queues.Stand (queues : Queues κ) (taken : List Bool) (left : List (Option κ × Nat)) :
    Prop where
  queue : ∀ key, queues key = ofKey key left
  marks : left.map Prod.snd = unmarked taken

/-- Taking an entry: its position waits first, it can be marked, and the others stay. -/
theorem Queues.Stand.take {queues : Queues κ} {taken : List Bool}
    {left left' : List (Option κ × Nat)} (h : Stand queues taken left) {key : κ} {j : Nat}
    (htake : takeFirst key left = some (j, left')) :
    ∃ queues' taken', dequeue queues (some key) = some (j, queues') ∧
      mark? taken j = some taken' ∧ Stand queues' taken' left' := by
  have hkey : queues key = j :: ofKey key left' := by
    rw [h.queue, takeFirst_ofKey htake, ofKey_cons, if_pos rfl]
  obtain ⟨before, after, rfl, rfl, -⟩ := takeFirst_split htake
  have hmem : j ∈ unmarked taken := by
    rw [← h.marks]
    simp
  have hlt : j < taken.length := List.mem_range.mp (List.mem_filter.mp hmem).1
  refine ⟨Function.update queues key (ofKey key (before ++ after)), taken.set j true, ?_, ?_, ?_⟩
  · simp [dequeue, hkey]
  · simp [mark?, hlt]
  constructor
  · intro k
    by_cases hk : key = k
    · subst hk
      simp
    · rw [Function.update_of_ne (Ne.symm hk), h.queue, takeFirst_ofKey htake, ofKey_cons,
        if_neg (by simpa using hk)]
  · have hnodup : (unmarked taken).Nodup := List.nodup_range.filter _
    rw [← h.marks, List.map_append, List.map_cons] at hnodup
    rw [unmarked_set, ← h.marks, List.map_append, List.map_append, List.map_cons,
      filter_ne_middle hnodup]

/-- An entry without a partner finds no position that waits. -/
theorem Queues.Stand.dequeue_eq_none {queues : Queues κ} {taken : List Bool}
    {left : List (Option κ × Nat)} (h : Stand queues taken left) {key : Option κ}
    (hp : partner key left = none) : dequeue queues key = none := by
  cases key with
  | none => rfl
  | some key =>
    have hnil : queues key = [] := by
      rw [h.queue]
      exact (takeFirst_eq_none_iff key left).mp hp
    simp [dequeue, hnil]

theorem joinQueues?_eq (first left : List (Option κ × Nat)) {queues : Queues κ}
    {taken : List Bool} (h : queues.Stand taken left) :
    joinQueues? queues taken first = some (join first left) := by
  induction first, left using join_induction generalizing queues taken with
  | nil left => simp [joinQueues?, join, h.marks]
  | alone key i first left hp ih =>
    simp [joinQueues?, h.dequeue_eq_none hp, ih h, join_alone hp]
  | paired key i first left j left' htake ih =>
    obtain ⟨queues', taken', hdequeue, hmark, hstand⟩ := h.take htake
    simp [joinQueues?, hdequeue, hmark, ih hstand, join_paired htake]

/-- The join by queues succeeds, and it is the rank join. -/
theorem queueJoin?_eq (first second : List (Option κ)) :
    queueJoin? first second = some (join (positioned first) (positioned second)) := by
  apply joinQueues?_eq
  constructor
  · intro key
    rw [enqueue_apply, List.nil_append]
  · rw [unmarked_replicate, positioned, List.zipIdx_map_snd]
    rw [List.range_eq_range']

/-! ## Siblings -/

theorem positioned_identities (nodes : List Node) :
    positioned (nodes.map Node.identity?) = Node.numbered nodes := by
  simp [positioned, Node.numbered, List.zipIdx_map]

theorem queueJoin?_identities (first second : List Node) :
    queueJoin? (first.map Node.identity?) (second.map Node.identity?) =
      some (Node.matchSiblings first second) := by
  rw [queueJoin?_eq, positioned_identities, positioned_identities, Node.matchSiblings]

end StyleDelta.Matching
