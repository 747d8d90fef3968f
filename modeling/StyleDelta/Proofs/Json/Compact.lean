import StyleDelta.Proofs.Json.Equality
import StyleDelta.Proofs.Number.Reading

/-!
Different values have different compact texts.

A text can be cut in one way only into the text of a value and what follows it, if that
does not go on with a character of numbers (`readable`). Strings end at the first quote
that is not escaped, which is where the reader stops; numbers end before the first
character that is none of theirs; arrays and objects are settled by their items and
members, and all sorts of values by their first character.
-/

namespace StyleDelta.Json

variable {text rest rest' : List Char}

/-! ## Strings -/

theorem hexValue?_digitChar {n : Nat} (hn : n < 16) : hexValue? (Nat.digitChar n) = some n := by
  have hall : ∀ n < 16, hexValue? (Nat.digitChar n) = some n := by decide
  exact hall n hn

theorem readUnicode_hexPair {c : Char} (hc : c.toNat < 0x20) :
    readUnicode ('0' :: '0' :: (hexPair c.toNat ++ text)) = .ok (c, 4) := by
  have hzero : hexValue? '0' = some 0 := rfl
  have hhigh : hexValue? (Nat.digitChar (c.toNat / 16)) = some (c.toNat / 16) :=
    hexValue?_digitChar (by omega)
  have hlow : hexValue? (Nat.digitChar (c.toNat % 16)) = some (c.toNat % 16) :=
    hexValue?_digitChar (by omega)
  have hunit : readUnit ('0' :: '0' :: (hexPair c.toNat ++ text)) = .ok c.toNat := by
    have hvalue : c.toNat / 16 * 16 + c.toNat % 16 = c.toNat := by omega
    simp [readUnit, hexPair, hzero, hhigh, hlow, hvalue]
  have hplain : ¬ 0xDC00 ≤ c.toNat ∧ ¬ 0xD800 ≤ c.toNat := by omega
  simp [readUnicode, hunit, hplain, bind, Except.bind, pure, Except.pure]

theorem readString_skip (content marks : List Char) :
    readString marks.length content (marks ++ text) = readString 0 content text := by
  induction marks with
  | nil => rfl
  | cons m marks ih =>
    rw [List.length_cons, List.cons_append, readString, if_pos (Nat.succ_pos _), Nat.add_sub_cancel]
    exact ih

/-- A backslash and the marks that spell a character after it. -/
theorem readString_marks (content marks : List Char) {c : Char}
    (h : readEscape (marks ++ text) = .ok (c, marks.length)) :
    readString 0 content ('\\' :: marks ++ text) = readString 0 (c :: content) text := by
  rw [List.cons_append, readString]
  simp only [Nat.lt_irrefl, if_false, Char.reduceEq, if_true, h, bind, Except.bind]
  exact readString_skip (c :: content) marks

/-- The reader of strings takes the text of a character for that character. -/
theorem readString_escape (content : List Char) (c : Char) :
    readString 0 content (escape c ++ text) = readString 0 (c :: content) text := by
  unfold escape
  repeat' split
  next h => exact readString_marks content ['"'] (by subst h; rfl)
  next h => exact readString_marks content ['\\'] (by subst h; rfl)
  next h => exact readString_marks content ['b'] (by subst h; rfl)
  next h => exact readString_marks content ['f'] (by subst h; rfl)
  next h => exact readString_marks content ['n'] (by subst h; rfl)
  next h => exact readString_marks content ['r'] (by subst h; rfl)
  next h => exact readString_marks content ['t'] (by subst h; rfl)
  next hcontrol =>
    refine readString_marks content ('u' :: '0' :: '0' :: hexPair c.toNat) ?_
    simp [readEscape, readUnicode_hexPair hcontrol, bind, Except.bind, pure, Except.pure]
    rfl
  next hquote hslash _ _ _ _ _ hcontrol =>
    rw [List.singleton_append, readString]
    simp [hquote, hslash, hcontrol]

theorem readString_content (chars content : List Char) :
    readString 0 content (chars.flatMap escape ++ '"' :: text) =
      .ok (String.ofList (content.reverse ++ chars), text) := by
  induction chars generalizing content with
  | nil => simp [readString]
  | cons c chars ih =>
    rw [List.flatMap_cons, List.append_assoc, readString_escape, ih]
    simp

theorem quoted_readable {s t : String} (h : quoted s ++ rest = quoted t ++ rest') :
    s = t ∧ rest = rest' := by
  have hread (s : String) (text : List Char) :
      readString 0 [] (s.toList.flatMap escape ++ ['"'] ++ text) = .ok (s, text) := by
    simp [readString_content]
  have htail : s.toList.flatMap escape ++ ['"'] ++ rest =
      t.toList.flatMap escape ++ ['"'] ++ rest' := (List.cons.inj h).2
  have hs := hread s rest
  rw [htail, hread t rest'] at hs
  simpa [eq_comm] using hs

/-! ## Sorts of values -/

/-- What the text of a value starts with; one digit stands for all numbers, one letter for
both truth values. -/
def opening : Json → Char
  | .null => 'n'
  | .bool _ => 't'
  | .num _ => '0'
  | .str _ => '"'
  | .arr _ => '['
  | .obj _ => '{'

/-- The opening that a first character belongs to. -/
def openingOf (c : Char) : Char :=
  if c = 'f' then 't' else if c = '-' || c.isDigit then '0' else c

theorem head_compact (a : Json) : ∃ c ∈ a.compact.head?, openingOf c = a.opening := by
  cases a with
  | null => exact ⟨'n', rfl, rfl⟩
  | bool b =>
    cases b with
    | false => exact ⟨'f', rfl, rfl⟩
    | true => exact ⟨'t', rfl, rfl⟩
  | num n =>
    obtain ⟨c, hc, hnumber⟩ := head_text n
    refine ⟨c, hc, ?_⟩
    have hletter : c ≠ 'f' := by
      rintro rfl
      simp at hnumber
    simp [openingOf, opening, hletter, hnumber]
  | str s => exact ⟨'"', rfl, rfl⟩
  | arr items => cases items <;> exact ⟨'[', rfl, rfl⟩
  | obj members => cases members <;> exact ⟨'{', rfl, rfl⟩

theorem opening_of_compact_append {a : Json} {c : Char} (h : a.compact ++ rest = c :: rest') :
    openingOf c = a.opening := by
  obtain ⟨c', hc', hopening⟩ := head_compact a
  obtain ⟨text, htext⟩ := List.head?_eq_some_iff.mp hc'
  rw [htext, List.cons_append] at h
  rw [← (List.cons.inj h).1, hopening]

theorem opening_eq {a b : Json} (h : a.compact ++ rest = b.compact ++ rest') :
    a.opening = b.opening := by
  obtain ⟨c, hc, hopening⟩ := head_compact b
  obtain ⟨text, htext⟩ := List.head?_eq_some_iff.mp hc
  rw [htext, List.cons_append] at h
  rw [← hopening, opening_of_compact_append h]

theorem compact_append_ne_bracket (a : Json) : a.compact ++ rest ≠ ']' :: rest' := by
  intro h
  have hopening := opening_of_compact_append h
  cases a <;> cases hopening

/-! ## Values -/

/-- The text of the value can be told from what follows it. -/
def Readable (a : Json) : Prop := ∀ (b : Json) (rest rest' : List Char),
  StopsAt isNumeric rest → StopsAt isNumeric rest' →
    a.compact ++ rest = b.compact ++ rest' → a = b ∧ rest = rest'

theorem readable_num (n : Number) : (num n).Readable := by
  intro b rest rest' hrest hrest' h
  have hopening := opening_eq h
  cases b <;> simp only [opening, Char.reduceEq] at hopening
  next m =>
    have hn := span_append (isNumeric_text n) hrest
    have hm := span_append (isNumeric_text m) hrest'
    simp only [compact] at h
    rw [h, hm] at hn
    obtain ⟨htext, hrest⟩ := Prod.mk.inj hn
    exact ⟨by rw [Number.text_injective htext], hrest.symm⟩

/-- What follows an item starts with a comma or the bracket. -/
theorem stopsAt_items (items : List Json) (rest : List Char) :
    StopsAt isNumeric (compactItems items ++ rest) := by
  cases items <;> simp [compactItems, StopsAt, isNumeric]

theorem stopsAt_members (members : List (String × Json)) (rest : List Char) :
    StopsAt isNumeric (compactMembers members ++ rest) := by
  cases members <;> simp [compactMembers, StopsAt, isNumeric]

theorem items_readable {xs : List Json} (hxs : ∀ x ∈ xs, x.Readable) {ys : List Json}
    (h : compactItems xs ++ rest = compactItems ys ++ rest') : xs = ys ∧ rest = rest' := by
  induction xs generalizing ys with
  | nil =>
    cases ys with
    | nil => simpa [compactItems] using h
    | cons y ys => simp [compactItems] at h
  | cons x xs ih =>
    cases ys with
    | nil => simp [compactItems] at h
    | cons y ys =>
      simp only [compactItems, List.cons_append, List.cons.injEq, List.append_assoc, true_and] at h
      obtain ⟨rfl, htail⟩ := hxs x (List.mem_cons_self ..) y _ _ (stopsAt_items xs rest)
        (stopsAt_items ys rest') h
      obtain ⟨rfl, hrest⟩ := ih (fun x hx => hxs x (List.mem_cons_of_mem _ hx)) htail
      exact ⟨rfl, hrest⟩

theorem member_readable {name name' : String} {x y : Json} (hx : x.Readable)
    {xs ys : List (String × Json)}
    (h : quoted name ++ (':' :: (x.compact ++ (compactMembers xs ++ rest))) =
      quoted name' ++ (':' :: (y.compact ++ (compactMembers ys ++ rest')))) :
    (name, x) = (name', y) ∧ compactMembers xs ++ rest = compactMembers ys ++ rest' := by
  obtain ⟨rfl, hvalue⟩ := quoted_readable h
  obtain ⟨rfl, htail⟩ := hx y _ _ (stopsAt_members xs rest) (stopsAt_members ys rest')
    (List.cons.inj hvalue).2
  exact ⟨rfl, htail⟩

theorem members_readable {xs : List (String × Json)} (hxs : ∀ m ∈ xs, m.2.Readable)
    {ys : List (String × Json)} (h : compactMembers xs ++ rest = compactMembers ys ++ rest') :
    xs = ys ∧ rest = rest' := by
  induction xs generalizing ys with
  | nil =>
    cases ys with
    | nil => simpa [compactMembers] using h
    | cons y ys => simp [compactMembers] at h
  | cons x xs ih =>
    cases ys with
    | nil => simp [compactMembers] at h
    | cons y ys =>
      simp only [compactMembers, List.cons_append, List.cons.injEq, List.append_assoc,
        true_and] at h
      obtain ⟨hmember, htail⟩ := member_readable (hxs x (List.mem_cons_self ..)) h
      obtain ⟨rfl, hrest⟩ := ih (fun m hm => hxs m (List.mem_cons_of_mem _ hm)) htail
      exact ⟨congrArg (· :: xs) hmember, hrest⟩

theorem readable_arr {items : List Json} (hitems : ∀ x ∈ items, x.Readable) :
    (arr items).Readable := by
  intro b rest rest' _ _ h
  have hopening := opening_eq h
  cases b <;> simp only [opening, Char.reduceEq] at hopening
  next ys =>
    cases items with
    | nil =>
      cases ys with
      | nil => simpa [compact] using h
      | cons y ys =>
        simp only [compact, List.cons_append, List.cons.injEq, true_and, List.append_assoc] at h
        exact absurd h.symm (compact_append_ne_bracket y)
    | cons x xs =>
      cases ys with
      | nil =>
        simp only [compact, List.cons_append, List.cons.injEq, true_and, List.append_assoc] at h
        exact absurd h (compact_append_ne_bracket x)
      | cons y ys =>
        have hcomma : compactItems (x :: xs) ++ rest = compactItems (y :: ys) ++ rest' := by
          simpa [compact, compactItems] using h
        obtain ⟨heq, hrest⟩ := items_readable hitems hcomma
        exact ⟨by rw [heq], hrest⟩

theorem readable_obj {members : List (String × Json)} (hmembers : ∀ m ∈ members, m.2.Readable) :
    (obj members).Readable := by
  intro b rest rest' _ _ h
  have hopening := opening_eq h
  cases b <;> simp only [opening, Char.reduceEq] at hopening
  next ys =>
    cases members with
    | nil =>
      cases ys with
      | nil => simpa [compact] using h
      | cons y ys => simp [compact, quoted] at h
    | cons x xs =>
      cases ys with
      | nil => simp [compact, quoted] at h
      | cons y ys =>
        have hcomma : compactMembers (x :: xs) ++ rest = compactMembers (y :: ys) ++ rest' := by
          simpa [compact, compactMembers] using h
        obtain ⟨heq, hrest⟩ := members_readable hmembers hcomma
        exact ⟨by rw [heq], hrest⟩

theorem readable (a : Json) : a.Readable := by
  induction a using Json.induction with
  | null =>
    intro b rest rest' _ _ h
    have hopening := opening_eq h
    cases b <;> simp only [opening, Char.reduceEq] at hopening
    simpa [compact] using h
  | bool b =>
    intro v rest rest' _ _ h
    have hopening := opening_eq h
    cases v <;> simp only [opening, Char.reduceEq] at hopening
    next b' => cases b <;> cases b' <;> simp_all [compact, ofBool]
  | num n => exact readable_num n
  | str s =>
    intro b rest rest' _ _ h
    have hopening := opening_eq h
    cases b <;> simp only [opening, Char.reduceEq] at hopening
    obtain ⟨rfl, hrest⟩ := quoted_readable h
    exact ⟨rfl, hrest⟩
  | arr items ih => exact readable_arr ih
  | obj members ih => exact readable_obj ih

/-- **Different values have different compact texts.** -/
theorem compact_injective : Function.Injective compact := by
  intro a b h
  have hend : StopsAt isNumeric [] := by simp [StopsAt]
  exact (readable a b [] [] hend hend (by rw [h])).1

/-! ## Line feeds -/

theorem feed_notMem_escape (c : Char) : '\n' ∉ escape c := by
  have hhex : ∀ n < 0x20, '\n' ∉ hexPair n := by decide
  unfold escape
  repeat' split
  next => decide
  next => decide
  next => decide
  next => decide
  next => decide
  next => decide
  next => decide
  next hcontrol =>
    have hpair := hhex c.toNat hcontrol
    simpa using hpair
  next hfeed _ _ _ => simpa using Ne.symm hfeed

theorem feed_notMem_quoted (s : String) : '\n' ∉ quoted s := by
  simp [quoted, feed_notMem_escape]

theorem feed_notMem_compactItems {items : List Json} (h : ∀ x ∈ items, '\n' ∉ x.compact) :
    '\n' ∉ compactItems items := by
  induction items with
  | nil => simp [compactItems]
  | cons x items ih =>
    obtain ⟨hx, hitems⟩ := List.forall_mem_cons.mp h
    simp [compactItems, hx, ih hitems]

theorem feed_notMem_compactMembers {members : List (String × Json)}
    (h : ∀ m ∈ members, '\n' ∉ m.2.compact) : '\n' ∉ compactMembers members := by
  induction members with
  | nil => simp [compactMembers]
  | cons m members ih =>
    obtain ⟨hm, hmembers⟩ := List.forall_mem_cons.mp h
    simp [compactMembers, feed_notMem_quoted, hm, ih hmembers]

/-- The compact text is a single line. -/
theorem feed_notMem_compact (a : Json) : '\n' ∉ a.compact := by
  induction a using Json.induction with
  | null => decide
  | bool b => cases b <;> decide
  | num n => exact fun h => absurd (isNumeric_text n _ h) (by decide)
  | str s => exact feed_notMem_quoted s
  | arr items ih =>
    cases items with
    | nil => decide
    | cons x items =>
      have hitems := feed_notMem_compactItems ih
      simpa [compact, compactItems] using hitems
  | obj members ih =>
    cases members with
    | nil => decide
    | cons m members =>
      have hmembers := feed_notMem_compactMembers ih
      simpa [compact, compactMembers] using hmembers

end StyleDelta.Json
