import StyleDelta.Json.Reader
import StyleDelta.Proofs.Json.Compact

/-!
The reader undoes the indented writer.

The reader has room for values that are not nested deeper than it is told and whose whole
numbers fit in 64 bits (`Within`). Their indented text, with any text behind it that does not
go on with a character of numbers, is read as the value with its members in the order of
their names (`readValue_pretty`). The blanks of the layout stand only where the reader skips
them: after an opening bracket, after a comma, after a colon and before a closing bracket.
-/

namespace StyleDelta

/-- Whole numbers that 64 bits hold, with or without a sign. -/
def Number.InWord : Number → Prop
  | .int n => -(wordBound / 2 : Nat) ≤ n ∧ n < wordBound
  | .float _ => True

namespace Json

/-- The reader gives such values back: at most `depth` arrays and objects hold one another, and
no whole number is too large. -/
inductive Within : Nat → Json → Prop
  | null {depth} : Within depth .null
  | bool {depth} (b : Bool) : Within depth (.bool b)
  | num {depth} {n : Number} (h : n.InWord) : Within depth (.num n)
  | str {depth} (s : String) : Within depth (.str s)
  | arr {depth} {items : List Json} (h : ∀ item ∈ items, Within depth item) :
      Within (depth + 1) (.arr items)
  | obj {depth} {members : List (String × Json)} (h : ∀ m ∈ members, Within depth m.2) :
      Within (depth + 1) (.obj members)

mutual

/-- The value with its members in the order in which the reader keeps them: ascending, and
of a name that is repeated the last. -/
def ordered : Json → Json
  | .arr items => .arr (orderedItems items)
  | .obj members => .obj (orderedMembers [] members)
  | value => value
termination_by structural value => value

def orderedItems : List Json → List Json
  | [] => []
  | item :: rest => ordered item :: orderedItems rest
termination_by structural items => items

/-- The members put into those before them. -/
def orderedMembers (before : List (String × Json)) :
    List (String × Json) → List (String × Json)
  | [] => before
  | (name, value) :: rest => orderedMembers (insert name (ordered value) before) rest
termination_by structural members => members

end

theorem orderedItems_eq_map (items : List Json) : orderedItems items = items.map ordered := by
  induction items with
  | nil => rfl
  | cons item rest ih => rw [orderedItems, List.map_cons, ih]

theorem insert_behind {name : String} (value : Json) {members : List (String × Json)}
    (h : ∀ m ∈ members, m.1 < name) : insert name value members = members ++ [(name, value)] := by
  induction members with
  | nil => rfl
  | cons member rest ih =>
    obtain ⟨other, old⟩ := member
    obtain ⟨hother, hrest⟩ := List.forall_mem_cons.mp h
    rw [insert, if_neg (String.ne_of_lt hother).symm, if_neg (String.lt_asymm hother), ih hrest,
      List.cons_append]

theorem orderedMembers_ascending {before members : List (String × Json)}
    (h : ((before ++ members).map Prod.fst).Pairwise (· < ·)) :
    orderedMembers before members = before ++ members.map fun m => (m.1, m.2.ordered) := by
  induction members generalizing before with
  | nil => rw [orderedMembers, List.map_nil, List.append_nil]
  | cons member rest ih =>
    obtain ⟨name, value⟩ := member
    have hbehind : ∀ m ∈ before, m.1 < name := by
      intro m hm
      rw [List.map_append] at h
      exact (List.pairwise_append.mp h).2.2 m.1 (List.mem_map_of_mem hm) name
        (List.mem_cons_self ..)
    rw [orderedMembers, insert_behind _ hbehind, ih (by simpa using h), List.append_assoc]
    rfl

/-- Members in ascending order stay where they are. -/
theorem ordered_obj {members : List (String × Json)}
    (h : (members.map Prod.fst).Pairwise (· < ·)) :
    (obj members).ordered = .obj (members.map fun m => (m.1, m.2.ordered)) := by
  rw [ordered, orderedMembers_ascending, List.nil_append]
  exact h

variable {text rest : List Char} {depth level steps : Nat}

/-! ## Whole numbers -/

theorem readWhole_toDigits (m : Nat) (htext : StopsAt isNumeric text) :
    readWhole (Nat.toDigits 10 m ++ text) = .ok (Nat.toDigits 10 m, text) := by
  refine readWhole_append Nat.toDigits_ne_nil (toDigits_digits m) (fun hhead => ?_) htext.digit
  by_cases hzero : m = 0
  · rw [hzero]
    rfl
  · exact absurd hhead (head?_toDigits hzero)

theorem readFraction_none (htext : StopsAt isNumeric text) :
    readFraction text = .ok ([], text) := by
  have hfraction : readFraction (fractionText [] ++ text) = .ok ([], text) :=
    readFraction_append (by simp) htext.digit (htext.of_numeric (by simp +contextual [isNumeric]))
  rwa [fractionText, if_pos rfl, List.nil_append] at hfraction

theorem readExponent_none (htext : StopsAt isNumeric text) :
    readExponent text = .ok (none, text) := readExponent_append none htext

theorem readNumber_natural {m : Nat} (hm : m < wordBound) (htext : StopsAt isNumeric text) :
    readNumber (Nat.toDigits 10 m ++ text) = .ok (.int m, text) := by
  have hunsigned : ∀ rest, Nat.toDigits 10 m ++ text ≠ '-' :: rest := by
    intro rest heq
    obtain ⟨c, digits, hc⟩ := List.exists_cons_of_ne_nil (Nat.toDigits_ne_nil (b := 10) (n := m))
    rw [hc, List.cons_append, List.cons.injEq] at heq
    exact Number.minus_notMem_toDigits m (hc ▸ heq.1 ▸ List.mem_cons_self ..)
  rw [readNumber]
  · simp [readWhole_toDigits m htext, readFraction_none htext, readExponent_none htext, bind,
      Except.bind, ofDigits_toDigits, hm, pure, Except.pure]
  · exact hunsigned

theorem readNumber_minus {m : Nat} (hpos : 0 < m) (hm : m ≤ wordBound / 2)
    (htext : StopsAt isNumeric text) :
    readNumber ('-' :: Nat.toDigits 10 m ++ text) = .ok (.int (-m), text) := by
  rw [List.cons_append, readNumber]
  simp [readWhole_toDigits m htext, readFraction_none htext, readExponent_none htext, bind,
    Except.bind, ofDigits_toDigits, hpos, hm, pure, Except.pure]

theorem readNumber_text {n : Number} (hn : n.InWord) (htext : StopsAt isNumeric text) :
    readNumber (n.text ++ text) = .ok (n, text) := by
  cases n with
  | int n =>
    obtain ⟨hlow, hhigh⟩ := hn
    rw [Number.text]
    split
    next hsign =>
      have hvalue : n = -(n.natAbs : Int) := by omega
      rw [readNumber_minus (by omega) (by omega) htext, ← hvalue]
    next hsign =>
      have hvalue : n = (n.natAbs : Int) := by omega
      rw [readNumber_natural (by omega) htext, ← hvalue]
  | float x => exact readNumber_float x htext

/-! ## The layout -/

theorem head?_pretty (level : Nat) (a : Json) : (a.pretty level).head? = a.compact.head? := by
  cases a with
  | null | bool | num | str => rfl
  | arr items => cases items <;> rfl
  | obj members => cases members <;> rfl

/-- The text of a value starts with a character that is neither blank nor a closing bracket. -/
theorem head_pretty (level : Nat) (a : Json) :
    ∃ c text, a.pretty level = c :: text ∧ openingOf c = a.opening := by
  obtain ⟨c, hc, hopening⟩ := head_compact a
  rw [← head?_pretty level] at hc
  obtain ⟨text, htext⟩ := List.head?_eq_some_iff.mp hc
  exact ⟨c, text, htext, hopening⟩

theorem isBlank_of_opening {a : Json} {c : Char} (h : openingOf c = a.opening) :
    isBlank c = false := by
  have hother : c ≠ ' ' ∧ c ≠ '\t' ∧ c ≠ '\n' ∧ c ≠ '\r' := by
    refine ⟨?_, ?_, ?_, ?_⟩ <;> rintro rfl <;> cases a <;> cases h
  simp [isBlank, hother]

theorem ne_bracket_of_opening {a : Json} {c : Char} (h : openingOf c = a.opening) : c ≠ ']' := by
  rintro rfl
  cases a <;> cases h

theorem skipBlank_newline (level : Nat) (text : List Char) :
    skipBlank (newline level ++ text) = skipBlank text := by
  refine List.dropWhile_append_of_pos fun c hc => ?_
  rcases List.mem_cons.mp hc with rfl | hspace
  · rfl
  · rw [List.eq_of_mem_replicate hspace]
    rfl

theorem skipBlank_cons {c : Char} (hc : isBlank c = false) (text : List Char) :
    skipBlank (c :: text) = c :: text := List.dropWhile_cons_of_neg (by simp [hc])

theorem skipBlank_pretty (level : Nat) (a : Json) (text : List Char) :
    skipBlank (a.pretty level ++ text) = a.pretty level ++ text := by
  obtain ⟨c, front, hfront, hopening⟩ := head_pretty level a
  rw [hfront, List.cons_append, skipBlank_cons (isBlank_of_opening hopening)]

/-! ## Items and members -/

/-- The reader takes the indented text of the value for the value. -/
def ReadBack (readItem : ItemReader) (level : Nat) (a : Json) : Prop :=
  ∀ rest, StopsAt isNumeric rest → readItem (a.pretty level ++ rest) = .ok (a.ordered, rest)

theorem stopsAt_prettyItems (level : Nat) (items : List Json) (rest : List Char) :
    StopsAt isNumeric (prettyItems level items ++ rest) := by
  cases items <;> simp [prettyItems, newline, StopsAt, isNumeric]

theorem stopsAt_prettyMembers (level : Nat) (members : List (String × Json)) (rest : List Char) :
    StopsAt isNumeric (prettyMembers level members ++ rest) := by
  cases members <;> simp [prettyMembers, newline, StopsAt, isNumeric]

variable {readItem : ItemReader}

theorem readItems_pretty {items : List Json} (hitems : ∀ x ∈ items, ReadBack readItem (level + 1) x)
    {item : Json} (hitem : ReadBack readItem (level + 1) item) (before : List Json)
    (hsteps : items.length < steps) :
    readItems readItem steps before
        (item.pretty (level + 1) ++ (prettyItems level items ++ rest)) =
      .ok (before.reverse ++ orderedItems (item :: items), rest) := by
  induction items generalizing item before steps with
  | nil =>
    obtain ⟨steps, rfl⟩ := Nat.exists_eq_add_of_lt hsteps
    rw [readItems, hitem _ (stopsAt_prettyItems level [] rest)]
    simp [prettyItems, orderedItems, bind, Except.bind, skipBlank_newline, skipBlank_cons, isBlank]
  | cons next items ih =>
    obtain ⟨steps, rfl⟩ := Nat.exists_eq_succ_of_ne_zero (Nat.ne_zero_of_lt hsteps)
    obtain ⟨c, text, htext, hopening⟩ := head_pretty (level + 1) next
    have hbracket := ne_bracket_of_opening hopening
    have hrest := ih (fun x hx => hitems x (List.mem_cons_of_mem _ hx))
      (hitems next (List.mem_cons_self ..)) (item.ordered :: before) (Nat.lt_of_succ_lt_succ hsteps)
    have hskip := skipBlank_pretty (level + 1) next (prettyItems level items ++ rest)
    rw [readItems, hitem _ (stopsAt_prettyItems level (next :: items) rest)]
    simp only [htext, List.cons_append] at hrest hskip
    simp [prettyItems, htext, bind, Except.bind, skipBlank_cons, isBlank, skipBlank_newline, hskip,
      hbracket, hrest, orderedItems]

theorem readName_quoted (name : String) (text : List Char) :
    readName (quoted name ++ (':' :: text)) = .ok (name, text) := by
  rw [quoted, List.cons_append, List.cons_append, List.append_assoc, readName,
    List.singleton_append, readString_content]
  simp [bind, Except.bind, skipBlank_cons, isBlank]

/-- The reader takes the text of the member's value, one space behind the colon. -/
def MemberReadBack (readItem : ItemReader) (level : Nat) (m : String × Json) : Prop :=
  ∀ rest, StopsAt isNumeric rest →
    readItem (' ' :: (m.2.pretty level ++ rest)) = .ok (m.2.ordered, rest)

theorem readMembers_pretty {members : List (String × Json)}
    (hmembers : ∀ m ∈ members, MemberReadBack readItem (level + 1) m) {member : String × Json}
    (hmember : MemberReadBack readItem (level + 1) member) (before : List (String × Json))
    (hsteps : members.length < steps) :
    readMembers readItem steps before (quoted member.1 ++ (':' :: ' ' ::
        (member.2.pretty (level + 1) ++ (prettyMembers level members ++ rest)))) =
      .ok (orderedMembers before (member :: members), rest) := by
  induction members generalizing member before steps with
  | nil =>
    obtain ⟨steps, rfl⟩ := Nat.exists_eq_add_of_lt hsteps
    rw [readMembers, readName_quoted]
    simp only [bind, Except.bind]
    rw [hmember _ (stopsAt_prettyMembers level [] rest)]
    simp [prettyMembers, orderedMembers, skipBlank_newline, skipBlank_cons, isBlank]
  | cons next members ih =>
    obtain ⟨steps, rfl⟩ := Nat.exists_eq_succ_of_ne_zero (Nat.ne_zero_of_lt hsteps)
    have hrest := ih (fun m hm => hmembers m (List.mem_cons_of_mem _ hm))
      (hmembers next (List.mem_cons_self ..)) (insert member.1 member.2.ordered before)
      (Nat.lt_of_succ_lt_succ hsteps)
    rw [readMembers, readName_quoted]
    simp only [bind, Except.bind]
    rw [hmember _ (stopsAt_prettyMembers level (next :: members) rest)]
    simp only [quoted, List.cons_append, List.append_assoc, List.nil_append] at hrest
    simp [prettyMembers, quoted, skipBlank_cons, isBlank, skipBlank_newline, hrest, orderedMembers]

/-! ## Values -/

/-- There are fewer items than characters, and none is longer than the text of all. -/
theorem length_prettyItems (level : Nat) (items : List Json) :
    items.length < (prettyItems level items).length ∧
      ∀ x ∈ items, (x.pretty (level + 1)).length ≤ (prettyItems level items).length := by
  induction items with
  | nil => simp [prettyItems, newline]
  | cons item items ih =>
    simp only [prettyItems, List.length_append, List.length_cons]
    refine ⟨by omega, List.forall_mem_cons.mpr ⟨by omega, fun x hx => ?_⟩⟩
    have := ih.2 x hx
    omega

theorem length_prettyMembers (level : Nat) (members : List (String × Json)) :
    members.length < (prettyMembers level members).length ∧
      ∀ m ∈ members, (m.2.pretty (level + 1)).length ≤ (prettyMembers level members).length := by
  induction members with
  | nil => simp [prettyMembers, newline]
  | cons member members ih =>
    simp only [prettyMembers, List.length_append, List.length_cons]
    refine ⟨by omega, List.forall_mem_cons.mpr ⟨by omega, fun m hm => ?_⟩⟩
    have := ih.2 m hm
    omega

theorem steps_of_arr {items : List Json} (h : ((arr items).pretty level).length ≤ steps) :
    items.length ≤ steps ∧ ∀ x ∈ items, (x.pretty (level + 1)).length ≤ steps := by
  cases items with
  | nil => simp
  | cons item items =>
    have hlength : ((arr (item :: items)).pretty level).length =
        (prettyItems level (item :: items)).length := rfl
    obtain ⟨hcount, hitems⟩ := length_prettyItems level (item :: items)
    exact ⟨by omega, fun x hx => by have := hitems x hx; omega⟩

theorem steps_of_obj {members : List (String × Json)}
    (h : ((obj members).pretty level).length ≤ steps) :
    members.length ≤ steps ∧ ∀ m ∈ members, (m.2.pretty (level + 1)).length ≤ steps := by
  cases members with
  | nil => simp
  | cons member members =>
    have hlength : ((obj (member :: members)).pretty level).length =
        (prettyMembers level (member :: members)).length := rfl
    obtain ⟨hcount, hmembers⟩ := length_prettyMembers level (member :: members)
    exact ⟨by omega, fun m hm => by have := hmembers m hm; omega⟩

theorem readArray_pretty {items : List Json} (hitems : ∀ x ∈ items, ReadBack readItem (level + 1) x)
    (hsteps : items.length ≤ steps) : ∃ text, (arr items).pretty level ++ rest = '[' :: text ∧
      readArray readItem steps text = .ok (orderedItems items, rest) := by
  cases items with
  | nil => exact ⟨']' :: rest, rfl, by simp [readArray, skipBlank_cons, isBlank, orderedItems]⟩
  | cons item items =>
    obtain ⟨c, text, htext, hopening⟩ := head_pretty (level + 1) item
    have hbracket := ne_bracket_of_opening hopening
    have hskip := skipBlank_pretty (level + 1) item (prettyItems level items ++ rest)
    have hread : readItems readItem steps [] _ = .ok (_, rest) :=
      readItems_pretty (fun x hx => hitems x (List.mem_cons_of_mem _ hx))
        (hitems item (List.mem_cons_self ..)) [] hsteps
    simp only [htext, List.cons_append] at hskip hread
    refine ⟨newline (level + 1) ++ (c :: text ++ (prettyItems level items ++ rest)),
      by simp [pretty, htext], ?_⟩
    simp [readArray, skipBlank_newline, hskip, hbracket, hread]

theorem readObject_pretty {members : List (String × Json)}
    (hmembers : ∀ m ∈ members, MemberReadBack readItem (level + 1) m)
    (hsteps : members.length ≤ steps) : ∃ text, (obj members).pretty level ++ rest = '{' :: text ∧
      readObject readItem steps text = .ok (orderedMembers [] members, rest) := by
  cases members with
  | nil => exact ⟨'}' :: rest, rfl, by simp [readObject, skipBlank_cons, isBlank, orderedMembers]⟩
  | cons member members =>
    have hread : readMembers readItem steps [] _ = .ok (_, rest) :=
      readMembers_pretty (fun m hm => hmembers m (List.mem_cons_of_mem _ hm))
        (hmembers member (List.mem_cons_self ..)) [] hsteps
    refine ⟨newline (level + 1) ++ (quoted member.1 ++ (':' :: ' ' ::
      (member.2.pretty (level + 1) ++ (prettyMembers level members ++ rest)))),
      by simp [pretty], ?_⟩
    simp only [quoted, List.cons_append, List.append_assoc, List.nil_append] at hread
    simp [readObject, quoted, skipBlank_newline, skipBlank_cons, isBlank, hread]

theorem readValue_number {n : Number} (hn : n.InWord) (hrest : StopsAt isNumeric rest) :
    readValue steps depth (n.text ++ rest) = .ok (.num n, rest) := by
  obtain ⟨c, hc, hnumeric⟩ := head_text n
  obtain ⟨text, htext⟩ := List.head?_eq_some_iff.mp hc
  have hread := readNumber_text hn hrest
  have hother : c ≠ '"' ∧ c ≠ '[' ∧ c ≠ '{' ∧ c ≠ 'n' ∧ c ≠ 't' ∧ c ≠ 'f' := by
    refine ⟨?_, ?_, ?_, ?_, ?_, ?_⟩ <;> rintro rfl <;> simp at hnumeric
  have hopening : openingOf c = (num n).opening := by
    simp [openingOf, opening, hother, hnumeric]
  have hblank := isBlank_of_opening hopening
  rw [htext, List.cons_append] at hread ⊢
  rw [readValue, skipBlank_cons hblank]
  simp [hother, hnumeric, hread, bind, Except.bind, pure, Except.pure]

theorem readValue_space (text : List Char) :
    readValue steps depth (' ' :: text) = readValue steps depth text := by
  have hskip : skipBlank (' ' :: text) = skipBlank text := rfl
  rw [readValue, readValue, hskip]

/-- **The reader undoes the indented writer.** -/
theorem readValue_pretty {a : Json} (ha : Within depth a) (level : Nat)
    (hsteps : (a.pretty level).length ≤ steps) (hrest : StopsAt isNumeric rest) :
    readValue steps depth (a.pretty level ++ rest) = .ok (a.ordered, rest) := by
  induction ha generalizing level rest with
  | null =>
    simp [pretty, readValue, skipBlank_cons, isBlank, readLiteral, ordered, bind, Except.bind,
      pure, Except.pure]
  | bool b =>
    cases b <;>
      simp [pretty, ofBool, readValue, skipBlank_cons, isBlank, readLiteral, ordered, bind,
        Except.bind, pure, Except.pure]
  | num hn => exact readValue_number hn hrest
  | str s =>
    simp [pretty, quoted, readValue, skipBlank_cons, isBlank, readString_content, ordered, bind,
      Except.bind, pure, Except.pure]
  | @arr depth items _ ih =>
    obtain ⟨hcount, hlengths⟩ := steps_of_arr hsteps
    have hitems : ∀ x ∈ items, ReadBack (readValue steps depth) (level + 1) x :=
      fun x hx rest hrest => ih x hx (level + 1) (hlengths x hx) hrest
    obtain ⟨text, htext, hread⟩ := readArray_pretty hitems hcount
    rw [htext, readValue, skipBlank_cons rfl]
    simp [hread, ordered, bind, Except.bind, pure, Except.pure]
  | @obj depth members _ ih =>
    obtain ⟨hcount, hlengths⟩ := steps_of_obj hsteps
    have hmembers : ∀ m ∈ members, MemberReadBack (readValue steps depth) (level + 1) m := by
      intro m hm rest hrest
      rw [readValue_space]
      exact ih m hm (level + 1) (hlengths m hm) hrest
    obtain ⟨text, htext, hread⟩ := readObject_pretty hmembers hcount
    rw [htext, readValue, skipBlank_cons rfl]
    simp [hread, ordered, bind, Except.bind, pure, Except.pure]

/-- A whole text: the indented one and a line break. -/
theorem ofText_pretty {a : Json} (ha : Within maxDepth a) :
    ofText (String.ofList (a.pretty 0) ++ "\n") = .ok a.ordered := by
  have hlist : (String.ofList (a.pretty 0) ++ "\n").toList = a.pretty 0 ++ ['\n'] := by simp
  have hread : readValue (a.pretty 0 ++ ['\n']).length maxDepth (a.pretty 0 ++ ['\n']) =
      .ok (a.ordered, ['\n']) :=
    readValue_pretty ha 0 (by simp) (by simp [StopsAt, isNumeric])
  rw [ofText, hlist, read, hread]
  rfl

end Json

end StyleDelta
