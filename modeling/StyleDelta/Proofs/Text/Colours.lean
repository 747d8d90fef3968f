import Mathlib.Data.List.Forall2
import StyleDelta.Proofs.Text.Canonical

/-!
The colours of a text, said by positions.

A context follows a text character by character, and `ColourAt` asks of a position of the
text what makes it a colour, without a word on tokens. The positions that the digits of
colours take are found from left to right (`reaches_succ_iff`, `inColour_iff`), as the
flags of the fold are. Every token leaves the flags right behind it (`FlagsAt`), so the fold
of what a text is read as is the text with the letters in its colours lowered
(`render_foldColours`, `toList_canonicalValue`). Texts that differ in hex digits only have
their colours at the same positions (`inColour_congr`). Main statement:
`canonicalValue_colours`.
-/

namespace StyleDelta.Text

/-! ## Contexts -/

/-- What stands before a character, as far as it matters for reading it. -/
inductive Context where
  | outside
  /-- A backslash outside strings, which takes the character. -/
  | taken
  | inside (quote : Char)
  /-- A backslash inside a string, which takes the character. -/
  | takenInside (quote : Char)
  deriving DecidableEq, Repr

/-- The context of the character after `c`. -/
def Context.next : Context → Char → Context
  | .outside, c => if c = '\\' then .taken else if isQuote c then .inside c else .outside
  | .taken, _ => .outside
  | .inside quote, c =>
    if c = '\\' then .takenInside quote else if c = quote then .outside else .inside quote
  | .takenInside quote, _ => .inside quote

/-- The context of the character after the whole text. -/
def context (text : List Char) : Context := text.foldl Context.next .outside

theorem context_append (text more : List Char) :
    context (text ++ more) = more.foldl Context.next (context text) := by
  rw [context, List.foldl_append, ← context]

/-! ## Colours -/

/-- The number of hex digits right after a position. -/
def digitsAfter (text : List Char) (p : Nat) : Nat :=
  ((text.drop (p + 1)).takeWhile isHexDigit).length

/-- A colour token begins at a position. -/
structure ColourAt (text : List Char) (p : Nat) : Prop where
  hash : text[p]? = some '#'
  outside : context (text.take p) = .outside
  digits : digitsAfter text p ∈ [3, 4, 6, 8]
  before : (text.take p).getLast?.any isNameChar = false
  after : text[p + 1 + digitsAfter text p]?.any isNameChar = false

instance (text : List Char) (p : Nat) : Decidable (ColourAt text p) :=
  decidable_of_iff (text[p]? = some '#' ∧ context (text.take p) = .outside ∧
      digitsAfter text p ∈ [3, 4, 6, 8] ∧ (text.take p).getLast?.any isNameChar = false ∧
      text[p + 1 + digitsAfter text p]?.any isNameChar = false)
    ⟨fun ⟨hash, outside, digits, before, after⟩ => ⟨hash, outside, digits, before, after⟩,
      fun h => ⟨h.hash, h.outside, h.digits, h.before, h.after⟩⟩

/-- A digit of a colour token stands at a position. -/
def InColour (text : List Char) (i : Nat) : Prop :=
  ∃ p < i, ColourAt text p ∧ i ≤ p + digitsAfter text p

instance (text : List Char) (i : Nat) : Decidable (InColour text i) :=
  inferInstanceAs (Decidable (∃ p < i, _))

/-- A character as it is, or in lower case where it stands in a colour of the text. -/
def lowerAt (text : List Char) (p : Char × Nat) : Char :=
  if InColour text p.2 then p.1.toLower else p.1

/-- The text with the letters of its colours in lower case. -/
def lowerColours (text : List Char) : List Char := text.zipIdx.map (lowerAt text)

/-- A hex digit is a name character, opens nothing, and is an upper-case letter from A to F
or in lower case already. -/
theorem isNameChar_of_isHexDigit {c : Char} (h : isHexDigit c = true) :
    isNameChar c = true ∧ isQuote c = false ∧ c ≠ '\\' ∧ c ≠ '#' ∧
      (('A' ≤ c ∧ c ≤ 'F') ∨ c.toLower = c) := by
  have hall : ∀ n < 128, isHexDigit (Char.ofNat n) = true →
      isNameChar (Char.ofNat n) = true ∧ isQuote (Char.ofNat n) = false ∧
        Char.ofNat n ≠ '\\' ∧ Char.ofNat n ≠ '#' ∧
        (('A' ≤ Char.ofNat n ∧ Char.ofNat n ≤ 'F') ∨ (Char.ofNat n).toLower = Char.ofNat n) := by
    decide
  have hc := hall c.toNat (toNat_lt_of_isHexDigit h)
  rw [Char.ofNat_toNat] at hc
  exact hc h

/-! ### Colours from left to right -/

/-- The digits of a colour go on up to a position, which may be right behind them. -/
def Reaches (text : List Char) (i : Nat) : Prop :=
  ∃ p < i, ColourAt text p ∧ i ≤ p + 1 + digitsAfter text p

theorem takeWhile_getElem? {α : Type} {f : α → Bool} {xs : List α} {i : Nat} {x : α}
    (h : xs[i]? = some x) (hi : i ≤ (xs.takeWhile f).length) :
    i < (xs.takeWhile f).length ↔ f x = true := by
  induction xs generalizing i with
  | nil => simp at h
  | cons y xs ih =>
    by_cases hy : f y = true
    · rw [List.takeWhile_cons_of_pos hy, List.length_cons] at hi ⊢
      cases i with
      | zero =>
        obtain rfl : y = x := by simpa using h
        simp [hy]
      | succ i =>
        rw [Nat.add_lt_add_iff_right]
        exact ih (by simpa using h) (by omega)
    · rw [List.takeWhile_cons_of_neg hy] at hi ⊢
      obtain rfl : i = 0 := by simpa using hi
      obtain rfl : y = x := by simpa using h
      simpa using hy

theorem not_reaches_zero (text : List Char) : ¬ Reaches text 0 := by
  rintro ⟨p, hp, -⟩
  omega

theorem reaches_succ_iff (text : List Char) (i : Nat) :
    Reaches text (i + 1) ↔ ColourAt text i ∨ InColour text i := by
  constructor
  · rintro ⟨p, hp, hcolour, hi⟩
    rcases Nat.lt_succ_iff_lt_or_eq.mp hp with hlt | rfl
    · exact Or.inr ⟨p, hlt, hcolour, by omega⟩
    · exact Or.inl hcolour
  · rintro (hcolour | ⟨p, hp, hcolour, hi⟩)
    · exact ⟨i, by omega, hcolour, by omega⟩
    · exact ⟨p, by omega, hcolour, by omega⟩

theorem inColour_iff {text : List Char} {i : Nat} {c : Char} (hc : text[i]? = some c) :
    InColour text i ↔ Reaches text i ∧ isHexDigit c = true := by
  have hdigit : ∀ p < i, i ≤ p + 1 + digitsAfter text p →
      (i ≤ p + digitsAfter text p ↔ isHexDigit c = true) := by
    intro p hp hi
    have hdrop : (text.drop (p + 1))[i - (p + 1)]? = some c := by
      rw [List.getElem?_drop, ← hc]
      congr 1
      omega
    have hrun := takeWhile_getElem? (f := isHexDigit) hdrop (by rw [← digitsAfter]; omega)
    rw [← digitsAfter] at hrun
    rw [← hrun]
    omega
  constructor
  · rintro ⟨p, hp, hcolour, hi⟩
    exact ⟨⟨p, hp, hcolour, by omega⟩, (hdigit p hp (by omega)).mp hi⟩
  · rintro ⟨⟨p, hp, hcolour, hi⟩, hhex⟩
    exact ⟨p, hp, hcolour, (hdigit p hp hi).mpr hhex⟩

theorem isHexDigit_of_inColour {text : List Char} {i : Nat} {c : Char} (hc : text[i]? = some c)
    (h : InColour text i) : isHexDigit c = true :=
  ((inColour_iff hc).mp h).2

/-! ## The fold of a reading -/

/-- Every character is taken by a backslash or stands in a string. -/
def Context.Covers : Context → List Char → Prop
  | _, [] => True
  | context, c :: rest => context ≠ .outside ∧ (context.next c).Covers rest

theorem Context.covers_append (context : Context) (xs ys : List Char) :
    context.Covers (xs ++ ys) ↔ context.Covers xs ∧ (xs.foldl next context).Covers ys := by
  induction xs generalizing context with
  | nil => simp [Covers]
  | cons c xs ih => simp [Covers, ih, and_assoc]

/-- Behind a character that is no hex digit no colour goes on, unless it begins one. -/
theorem not_reaches_succ {text : List Char} {i : Nat} {c : Char} (hc : text[i]? = some c)
    (hhex : isHexDigit c = false) (hcolour : ¬ ColourAt text i) :
    ¬ InColour text i ∧ ¬ Reaches text (i + 1) := by
  have hin : ¬ InColour text i := fun h => by simp [isHexDigit_of_inColour hc h] at hhex
  refine ⟨hin, fun h => ?_⟩
  rcases (reaches_succ_iff text i).mp h with h | h
  · exact hcolour h
  · exact hin h

/-- Characters that are covered stay as they are, if no colour reaches them. -/
theorem map_lowerAt_of_covers {text pre chunk rest : List Char}
    (htext : text = pre ++ (chunk ++ rest)) (hcovers : (context pre).Covers chunk)
    (hreach : ¬ Reaches text pre.length) :
    (chunk.zipIdx pre.length).map (lowerAt text) = chunk ∧
      ¬ Reaches text (pre.length + chunk.length) := by
  induction chunk generalizing pre with
  | nil => exact ⟨rfl, hreach⟩
  | cons c chunk ih =>
    obtain ⟨houtside, hcovers⟩ := hcovers
    have hc : text[pre.length]? = some c := by simp [htext]
    have hin : ¬ InColour text pre.length := fun h => hreach ((inColour_iff hc).mp h).1
    have hnext : ¬ Reaches text (pre.length + 1) := by
      rw [reaches_succ_iff]
      rintro (hcolour | h)
      · exact houtside (by simpa [htext] using hcolour.outside)
      · exact hin h
    have hpre : context (pre ++ [c]) = (context pre).next c := context_append pre [c]
    have hrest := @ih (pre ++ [c]) (by simp [htext]) (by rwa [hpre]) (by simpa using hnext)
    rw [List.length_append, List.length_singleton] at hrest
    refine ⟨?_, ?_⟩
    · rw [List.zipIdx_cons, List.map_cons, hrest.1, lowerAt, if_neg hin]
    · rw [List.length_cons, Nat.add_comm chunk.length, ← Nat.add_assoc]
      exact hrest.2

/-! ### Pieces and tokens -/

theorem render_cons (token : Token) (tokens : List Token) :
    render (token :: tokens) = token.render ++ render tokens := by
  rw [render, List.flatMap_cons, ← render]

/-- What is written between double quotes is covered, and the quote behind it closes it. -/
theorem covers_content {content : List Piece} {closed : Bool}
    (h : Piece.Readable closed content) :
    (Context.inside '"').Covers (content.flatMap Piece.render) ∧
      (closed = true →
        (content.flatMap Piece.render).foldl Context.next (.inside '"') = .inside '"') := by
  induction content with
  | nil => exact ⟨trivial, fun _ => rfl⟩
  | cons piece content ih =>
    rw [List.flatMap_cons, Context.covers_append, List.foldl_append]
    cases piece with
    | char c =>
      obtain ⟨hc, hcontent⟩ := h
      have hstep : (Context.inside '"').Covers (Piece.char c).render ∧
          (Piece.char c).render.foldl Context.next (.inside '"') = .inside '"' := by
        by_cases hq : c = '"' <;> simp [Piece.render, Context.Covers, Context.next, hc, hq]
      rw [hstep.2]
      exact ⟨⟨hstep.1, (ih hcontent).1⟩, (ih hcontent).2⟩
    | pair c =>
      obtain ⟨-, hcontent⟩ := h
      have hstep : (Context.inside '"').Covers (Piece.pair c).render ∧
          (Piece.pair c).render.foldl Context.next (.inside '"') = .inside '"' := by
        simp [Piece.render, Context.Covers, Context.next]
      rw [hstep.2]
      exact ⟨⟨hstep.1, (ih hcontent).1⟩, (ih hcontent).2⟩
    | backslash =>
      obtain ⟨rfl, rfl⟩ := h
      simp [Piece.render, Context.Covers]

/-- A pair or a string stays as it is, and no colour goes on behind it. -/
theorem map_lowerAt_of_opening {text pre body rest : List Char} {c : Char}
    (htext : text = pre ++ (c :: body ++ rest)) (hopening : c = '\\' ∨ c = '"')
    (hcovers : (context (pre ++ [c])).Covers body) :
    ((c :: body).zipIdx pre.length).map (lowerAt text) = c :: body ∧
      ¬ Reaches text (pre.length + (c :: body).length) := by
  have hc : text[pre.length]? = some c := by simp [htext]
  have hplain : isHexDigit c = false ∧ c ≠ '#' := by rcases hopening with rfl | rfl <;> decide
  have hcolour : ¬ ColourAt text pre.length := fun h =>
    hplain.2 (Option.some.inj (hc.symm.trans h.hash))
  obtain ⟨hin, hreach⟩ := not_reaches_succ hc hplain.1 hcolour
  have htext' : text = (pre ++ [c]) ++ (body ++ rest) := by simp [htext]
  have hbody := map_lowerAt_of_covers htext' hcovers (by simpa using hreach)
  rw [List.length_append, List.length_singleton] at hbody
  refine ⟨?_, ?_⟩
  · rw [List.zipIdx_cons, List.map_cons, hbody.1, lowerAt, if_neg hin]
  · rw [List.length_cons, Nat.add_comm body.length, ← Nat.add_assoc]
    exact hbody.2

theorem map_lowerAt_append {text pre chunk : List Char}
    (hchunk : (chunk.zipIdx pre.length).map (lowerAt text) = chunk) (rest : List Char) :
    ((chunk ++ rest).zipIdx pre.length).map (lowerAt text) =
      chunk ++ (rest.zipIdx (pre ++ chunk).length).map (lowerAt text) := by
  rw [List.zipIdx_append, List.map_append, hchunk, List.length_append]

/-! ### Hashes -/

theorem hexRun_eq (tokens : List Token) :
    hexRun tokens = (((render tokens).takeWhile isHexDigit).length,
      (render tokens)[((render tokens).takeWhile isHexDigit).length]?.any isNameChar) := by
  induction tokens with
  | nil => rfl
  | cons token tokens ih =>
    cases token with
    | plain c =>
      have hrender : render (.plain c :: tokens) = c :: render tokens := rfl
      by_cases hc : isHexDigit c = true
      · simp [hexRun, hrender, hc, ih]
      · simp [hexRun, hrender, hc]
    | pair c => rfl
    | backslash => rfl
    | quoted content closed => rfl

/-- A hash outside strings begins a colour if the fold takes it for one. -/
theorem colourAt_iff {text pre : List Char} {tokens : List Token}
    (htext : text = pre ++ '#' :: render tokens) (hcontext : context pre = .outside) :
    ColourAt text pre.length ↔
      (!pre.getLast?.any isNameChar && startsColour tokens) = true := by
  have htake : text.take pre.length = pre := by simp [htext]
  have hdrop : text.drop (pre.length + 1) = render tokens := by simp [htext]
  have hafter : ∀ n, text[pre.length + 1 + n]? = (render tokens)[n]? := by
    intro n
    rw [← hdrop, List.getElem?_drop]
  have hdigits : digitsAfter text pre.length = ((render tokens).takeWhile isHexDigit).length := by
    rw [digitsAfter, hdrop]
  have hstarts : startsColour tokens = true ↔ digitsAfter text pre.length ∈ [3, 4, 6, 8] ∧
      text[pre.length + 1 + digitsAfter text pre.length]?.any isNameChar = false := by
    rw [startsColour, hexRun_eq, hafter, hdigits]
    simp [or_assoc]
  rw [Bool.and_eq_true, hstarts, Bool.not_eq_true']
  constructor
  · intro h
    exact ⟨htake ▸ h.before, h.digits, h.after⟩
  · rintro ⟨hbefore, hdigits, hafter⟩
    exact ⟨by simp [htext], by rw [htake, hcontext], hdigits, by rw [htake, hbefore], hafter⟩

/-! ### The flags -/

/-- The flags of the fold are right at a place outside strings: they say whether a name
character stands before the place and whether a colour reaches it. -/
structure FlagsAt (text pre : List Char) (named colour : Bool) : Prop where
  outside : context pre = .outside
  named : named = pre.getLast?.any isNameChar
  colour : colour = true ↔ Reaches text pre.length

theorem flagsAt_start (text : List Char) : FlagsAt text [] false false :=
  ⟨rfl, rfl, iff_of_false (by simp) (not_reaches_zero text)⟩

section Flags

variable {text pre rest : List Char} {named colour : Bool} {c : Char}

/-- Behind a plain character the flags are right if they say of it what they should. -/
theorem FlagsAt.append_plain (h : FlagsAt text pre named colour) (hslash : c ≠ '\\')
    (hquote : isQuote c = false) {colour' : Bool}
    (hcolour : colour' = true ↔ Reaches text (pre.length + 1)) :
    FlagsAt text (pre ++ [c]) (isNameChar c) colour' := by
  refine ⟨?_, by simp, by simpa using hcolour⟩
  rw [context_append, h.outside]
  simp [Context.next, hslash, hquote]

theorem FlagsAt.inColour_iff (h : FlagsAt text pre named colour)
    (hc : text[pre.length]? = some c) :
    InColour text pre.length ↔ (colour && isHexDigit c) = true := by
  rw [Text.inColour_iff hc, Bool.and_eq_true, h.colour]

/-- A hash stays, and a colour goes on behind it if it begins one. -/
theorem FlagsAt.hash {tokens : List Token} (h : FlagsAt text pre named colour)
    (htext : text = pre ++ '#' :: render tokens) :
    lowerAt text ('#', pre.length) = '#' ∧
      FlagsAt text (pre ++ ['#']) false (!named && startsColour tokens) := by
  have hc : text[pre.length]? = some '#' := by simp [htext]
  have hin : ¬ InColour text pre.length := fun hin =>
    absurd (isHexDigit_of_inColour hc hin) (by decide)
  refine ⟨if_neg hin, h.append_plain (by decide) (by decide) ?_⟩
  rw [reaches_succ_iff, colourAt_iff htext h.outside, h.named, or_iff_left hin]

/-- A digit that a colour reaches is lowered, and the colour goes on behind it. -/
theorem FlagsAt.digit (h : FlagsAt text pre named colour)
    (hc : text[pre.length]? = some c) (hdigit : (colour && isHexDigit c) = true) :
    lowerAt text (c, pre.length) = c.toLower ∧ FlagsAt text (pre ++ [c]) true true := by
  have hin := (h.inColour_iff hc).mpr hdigit
  obtain ⟨hname, hquote, hslash, -⟩ :=
    isNameChar_of_isHexDigit (isHexDigit_of_inColour hc hin)
  have hreach : true = true ↔ Reaches text (pre.length + 1) :=
    iff_of_true rfl ((reaches_succ_iff text pre.length).mpr (Or.inr hin))
  have hflags := h.append_plain hslash hquote hreach
  rw [hname] at hflags
  exact ⟨if_pos hin, hflags⟩

/-- Every other plain character stays, and no colour goes on behind it. -/
theorem FlagsAt.other (h : FlagsAt text pre named colour) (hslash : c ≠ '\\')
    (hquote : isQuote c = false) (hc : text[pre.length]? = some c) (hhash : c ≠ '#')
    (hdigit : ¬ (colour && isHexDigit c) = true) :
    lowerAt text (c, pre.length) = c ∧ FlagsAt text (pre ++ [c]) (isNameChar c) false := by
  have hin : ¬ InColour text pre.length := mt (h.inColour_iff hc).mp hdigit
  have hnone : ¬ ColourAt text pre.length := fun hcolour =>
    hhash (Option.some.inj (hc.symm.trans hcolour.hash))
  refine ⟨if_neg hin, h.append_plain hslash hquote (iff_of_false (by simp) ?_)⟩
  rw [reaches_succ_iff, or_iff_right hnone]
  exact hin

/-- The fold writes a plain character lowered if it stands in a colour, and goes on behind it
with the flags that are right there. -/
theorem FlagsAt.plain {tokens : List Token} (h : FlagsAt text pre named colour)
    (htext : text = pre ++ c :: render tokens) (hslash : c ≠ '\\') (hquote : isQuote c = false) :
    ∃ named' colour', FlagsAt text (pre ++ [c]) named' colour' ∧
      foldColours named colour (.plain c :: tokens) =
        .plain (lowerAt text (c, pre.length)) :: foldColours named' colour' tokens := by
  have hc : text[pre.length]? = some c := by simp [htext]
  by_cases hhash : c = '#'
  · subst hhash
    obtain ⟨hlower, hflags⟩ := h.hash htext
    refine ⟨_, _, hflags, ?_⟩
    rw [foldColours, if_pos rfl, hlower]
  · by_cases hdigit : (colour && isHexDigit c) = true
    · obtain ⟨hlower, hflags⟩ := h.digit hc hdigit
      refine ⟨_, _, hflags, ?_⟩
      rw [foldColours, if_neg hhash, if_pos hdigit, hlower]
    · obtain ⟨hlower, hflags⟩ := h.other hslash hquote hc hhash hdigit
      refine ⟨_, _, hflags, ?_⟩
      rw [foldColours, if_neg hhash, if_neg hdigit, hlower]

/-- A pair stays as it is, and no colour goes on behind it. -/
theorem FlagsAt.pair (h : FlagsAt text pre named colour)
    (htext : text = pre ++ (['\\', c] ++ rest)) :
    (['\\', c].zipIdx pre.length).map (lowerAt text) = ['\\', c] ∧
      FlagsAt text (pre ++ ['\\', c]) (isNameChar c) false := by
  have hslash : context (pre ++ ['\\']) = .taken := by
    rw [context_append, h.outside]
    rfl
  have hbody : (context (pre ++ ['\\'])).Covers [c] := by simp [hslash, Context.Covers]
  obtain ⟨hmap, hreach⟩ := map_lowerAt_of_opening htext (Or.inl rfl) hbody
  refine ⟨hmap, ?_, by simp, iff_of_false (by simp) (by simpa using hreach)⟩
  rw [context_append, h.outside]
  rfl

/-- A string stays as it is, and behind the quote that closes it neither a name nor a colour
goes on. -/
theorem FlagsAt.quoted {content : List Piece} {closed : Bool}
    (h : FlagsAt text pre named colour) (hcontent : Piece.Readable closed content)
    (htext : text = pre ++ ((Token.quoted content closed).render ++ rest)) :
    ((Token.quoted content closed).render.zipIdx pre.length).map (lowerAt text) =
        (Token.quoted content closed).render ∧
      (closed = true →
        FlagsAt text (pre ++ (Token.quoted content closed).render) false false) := by
  have hquote : context (pre ++ ['"']) = .inside '"' := by
    rw [context_append, h.outside]
    rfl
  obtain ⟨hcovers, hend⟩ := covers_content hcontent
  have hbody : (context (pre ++ ['"'])).Covers
      (content.flatMap Piece.render ++ if closed then ['"'] else []) := by
    rw [hquote, Context.covers_append]
    refine ⟨hcovers, ?_⟩
    cases closed with
    | true => simp [hend rfl, Context.Covers]
    | false => trivial
  obtain ⟨hmap, hreach⟩ := map_lowerAt_of_opening htext (Or.inr rfl) hbody
  refine ⟨hmap, ?_⟩
  rintro rfl
  have hsplit : pre ++ (Token.quoted content true).render =
      (pre ++ ['"'] ++ content.flatMap Piece.render) ++ ['"'] := by simp [Token.render]
  refine ⟨?_, ?_, iff_of_false (by simp) ?_⟩
  · rw [hsplit, context_append, context_append, hquote, hend rfl]
    rfl
  · rw [hsplit, List.getLast?_concat]
    rfl
  · rw [List.length_append]
    exact hreach

end Flags

/-! ### The whole text -/

/-- From a place outside strings on, the fold lowers what stands in colours, if its flags are
right there. -/
theorem render_foldColours {tokens : List Token} (h : Token.Readable tokens)
    {text pre : List Char} {named colour : Bool} (htext : text = pre ++ render tokens)
    (hflags : FlagsAt text pre named colour) :
    render (foldColours named colour tokens) =
      ((render tokens).zipIdx pre.length).map (lowerAt text) := by
  induction tokens generalizing pre named colour with
  | nil => rfl
  | cons token tokens ih =>
    rw [render_cons] at htext ⊢
    cases token with
    | plain c =>
      obtain ⟨hslash, hquote, hrest⟩ := h
      obtain ⟨named', colour', hflags', hfold⟩ := hflags.plain htext hslash hquote
      rw [hfold, render_cons, ih hrest (by simp [htext, Token.render]) hflags',
        List.zipIdx_append, List.map_append, List.length_append]
      rfl
    | pair c =>
      obtain ⟨hmap, hflags'⟩ := hflags.pair htext
      rw [foldColours, render_cons, ih h (by simp [htext, Token.render]) hflags']
      exact (map_lowerAt_append hmap (render tokens)).symm
    | backslash =>
      -- a backslash at the end of the text is the last token
      obtain rfl : tokens = [] := h
      obtain ⟨hmap, -⟩ := map_lowerAt_of_opening htext (Or.inl rfl) trivial
      exact hmap.symm
    | quoted content closed =>
      obtain ⟨hcontent, hopen, hrest⟩ := h
      obtain ⟨hmap, hflags'⟩ := hflags.quoted hcontent htext
      rw [map_lowerAt_append hmap]
      cases closed with
      | false =>
        -- an open string is the last token
        obtain rfl := hopen rfl
        rfl
      | true =>
        rw [← ih hrest (by simp [htext]) (hflags' rfl)]
        rfl

/-! ## Texts that differ in hex digits -/

/-- The character, or one digit for all hex digits. -/
def mask (c : Char) : Char := if isHexDigit c then '0' else c

theorem mask_of_isHexDigit {c : Char} (h : isHexDigit c = true) : mask c = '0' := if_pos h

theorem mask_of_not {c : Char} (h : ¬ isHexDigit c = true) : mask c = c := if_neg h

theorem isHexDigit_mask (c : Char) : isHexDigit (mask c) = isHexDigit c := by
  by_cases h : isHexDigit c = true
  · rw [mask_of_isHexDigit h, h]
    decide
  · rw [mask_of_not h]

theorem isNameChar_mask (c : Char) : isNameChar (mask c) = isNameChar c := by
  by_cases h : isHexDigit c = true
  · rw [mask_of_isHexDigit h, (isNameChar_of_isHexDigit h).1]
    decide
  · rw [mask_of_not h]

theorem mask_eq_hash_iff (c : Char) : mask c = '#' ↔ c = '#' := by
  by_cases h : isHexDigit c = true
  · rw [mask_of_isHexDigit h]
    exact iff_of_false (by decide) (isNameChar_of_isHexDigit h).2.2.2.1
  · rw [mask_of_not h]

/-- The quote of a string is a quote. -/
def Context.Proper : Context → Prop
  | .inside quote | .takenInside quote => isQuote quote = true
  | _ => True

theorem Context.Proper.next {context : Context} (h : context.Proper) (c : Char) :
    (context.next c).Proper := by
  cases context with
  | outside =>
    by_cases hc : c = '\\'
    · simp [Context.next, hc, Proper]
    · by_cases hq : isQuote c = true <;> simp [Context.next, hc, hq, Proper]
  | taken => trivial
  | inside quote =>
    by_cases hc : c = '\\'
    · simpa [Context.next, hc, Proper] using h
    · rw [Context.next, if_neg hc]
      split
      · trivial
      · exact h
  | takenInside quote => exact h

/-- No hex digit opens, closes or takes anything. -/
theorem Context.Proper.next_mask {context : Context} (h : context.Proper) (c : Char) :
    context.next (mask c) = context.next c := by
  by_cases hc : isHexDigit c = true
  · have hplain : ∀ d, isHexDigit d = true → context.next d = context.next '0' := by
      intro d hd
      obtain ⟨-, hquote, hslash, -⟩ := isNameChar_of_isHexDigit hd
      cases context with
      | inside quote =>
        have hne : ∀ e, isQuote e = false → e ≠ quote := by
          rintro e he rfl
          rw [Context.Proper, he] at h
          cases h
        have hzero : '0' ≠ quote := hne '0' (by decide)
        simp [Context.next, hslash, hne d hquote, hzero]
      | outside => simp [Context.next, hslash, hquote, (by decide : isQuote '0' = false)]
      | _ => rfl
    rw [mask_of_isHexDigit hc, hplain c hc]
  · rw [mask_of_not hc]

theorem context_mask (text : List Char) : context (text.map mask) = context text := by
  have hall : ∀ state : Context, state.Proper →
      (text.map mask).foldl Context.next state = text.foldl Context.next state := by
    induction text with
    | nil => exact fun _ _ => rfl
    | cons c text ih =>
      intro state h
      rw [List.map_cons, List.foldl_cons, List.foldl_cons, h.next_mask c]
      exact ih _ (h.next c)
  exact hall .outside trivial

theorem digitsAfter_mask (text : List Char) (p : Nat) :
    digitsAfter (text.map mask) p = digitsAfter text p := by
  have hmask : isHexDigit ∘ mask = isHexDigit := funext isHexDigit_mask
  rw [digitsAfter, ← List.map_drop, List.takeWhile_map, List.length_map, hmask, ← digitsAfter]

/-- The colours of a text are those of the masked text. -/
theorem colourAt_mask (text : List Char) (p : Nat) :
    ColourAt (text.map mask) p ↔ ColourAt text p := by
  have hhash : (text.map mask)[p]? = some '#' ↔ text[p]? = some '#' := by
    simp [List.getElem?_map, Option.map_eq_some_iff, mask_eq_hash_iff]
  have hcontext : context ((text.map mask).take p) = context (text.take p) := by
    rw [← List.map_take, context_mask]
  have hbefore : ((text.map mask).take p).getLast?.any isNameChar =
      (text.take p).getLast?.any isNameChar := by
    simp only [← List.map_take, List.getLast?_map, Option.any_map, isNameChar_mask]
  have hafter : ∀ i : Nat, (text.map mask)[i]?.any isNameChar = text[i]?.any isNameChar := by
    intro i
    simp only [List.getElem?_map, Option.any_map, isNameChar_mask]
  constructor
  · rintro ⟨h, houtside, hdigits, hb, ha⟩
    rw [digitsAfter_mask] at hdigits ha
    exact ⟨hhash.mp h, hcontext ▸ houtside, hdigits, hbefore ▸ hb, hafter _ ▸ ha⟩
  · rintro ⟨h, houtside, hdigits, hb, ha⟩
    rw [← digitsAfter_mask] at hdigits ha
    exact ⟨hhash.mpr h, hcontext ▸ houtside, hdigits, hbefore ▸ hb, hafter _ ▸ ha⟩

theorem inColour_mask (text : List Char) (i : Nat) :
    InColour (text.map mask) i ↔ InColour text i := by
  simp only [InColour, colourAt_mask, digitsAfter_mask]

theorem inColour_congr {xs ys : List Char} (h : xs.map mask = ys.map mask) (i : Nat) :
    InColour xs i ↔ InColour ys i := by
  rw [← inColour_mask xs, h, inColour_mask]

/-! ## The letters of colours -/

theorem getElem?_lowerColours (text : List Char) (i : Nat) :
    (lowerColours text)[i]? = text[i]?.map fun c => lowerAt text (c, i) := by
  simp [lowerColours, Function.comp_def]

theorem length_lowerColours (text : List Char) : (lowerColours text).length = text.length := by
  simp [lowerColours]

theorem map_mask_lowerColours (text : List Char) :
    (lowerColours text).map mask = text.map mask := by
  refine List.ext_getElem? fun i => ?_
  rw [List.getElem?_map, List.getElem?_map, getElem?_lowerColours]
  cases hc : text[i]? with
  | none => rfl
  | some c =>
    simp only [Option.map_some, lowerAt]
    split
    · rename_i hin
      have hhex := isHexDigit_of_inColour hc hin
      rw [mask_of_isHexDigit hhex, mask_of_isHexDigit (toLower_of_isHexDigit hhex).1]
    · rfl

/-- Texts of one length that differ at most in the case of letters in colours of both. -/
structure CaseAlike (xs ys : List Char) : Prop where
  length : xs.length = ys.length
  letters : ∀ i c d, xs[i]? = some c → ys[i]? = some d → c ≠ d →
    InColour xs i ∧ InColour ys i ∧ c.toLower = d.toLower

/-- Such texts have their colours at the same positions. -/
theorem CaseAlike.map_mask {xs ys : List Char} (h : CaseAlike xs ys) :
    xs.map mask = ys.map mask := by
  refine List.ext_getElem (by simp [h.length]) fun i hx hy => ?_
  rw [List.length_map] at hx hy
  rw [List.getElem_map, List.getElem_map]
  by_cases hne : xs[i] = ys[i]
  · rw [hne]
  · have hc : xs[i]? = some xs[i] := List.getElem?_eq_getElem hx
    have hd : ys[i]? = some ys[i] := List.getElem?_eq_getElem hy
    obtain ⟨hinx, hiny, -⟩ := h.letters i _ _ hc hd hne
    rw [mask_of_isHexDigit (isHexDigit_of_inColour hc hinx),
      mask_of_isHexDigit (isHexDigit_of_inColour hd hiny)]

theorem lowerColours_eq_iff (xs ys : List Char) :
    lowerColours xs = lowerColours ys ↔ CaseAlike xs ys := by
  constructor
  · intro h
    have hmask : xs.map mask = ys.map mask := by
      rw [← map_mask_lowerColours, h, map_mask_lowerColours]
    refine ⟨by rw [← length_lowerColours, h, length_lowerColours], ?_⟩
    intro i c d hc hd hne
    have hi : lowerAt xs (c, i) = lowerAt ys (d, i) := by
      have hget := congrArg (fun text => text[i]?) h
      simpa [getElem?_lowerColours, hc, hd] using hget
    by_cases hin : InColour xs i
    · have hin' := (inColour_congr hmask i).mp hin
      rw [lowerAt, lowerAt, if_pos hin, if_pos hin'] at hi
      exact ⟨hin, hin', hi⟩
    · rw [lowerAt, lowerAt, if_neg hin, if_neg (mt (inColour_congr hmask i).mpr hin)] at hi
      exact absurd hi hne
  · intro h
    refine List.ext_getElem (by rw [length_lowerColours, length_lowerColours, h.length]) ?_
    intro i hx hy
    rw [length_lowerColours] at hx hy
    have hc : xs[i]? = some xs[i] := List.getElem?_eq_getElem hx
    have hd : ys[i]? = some ys[i] := List.getElem?_eq_getElem hy
    have hi : lowerAt xs (xs[i], i) = lowerAt ys (ys[i], i) := by
      have hin := inColour_congr h.map_mask i
      by_cases hne : xs[i] = ys[i]
      · simp only [lowerAt, hin, hne]
      · obtain ⟨hinx, hiny, hlower⟩ := h.letters i _ _ hc hd hne
        rw [lowerAt, lowerAt, if_pos hinx, if_pos hiny, hlower]
    simpa [lowerColours] using hi

/-! ## Canonical spellings -/

/-- The spelling of a value is that of a selector with the letters of its colours lowered. -/
theorem toList_canonicalValue (s : String) :
    (canonicalValue s).toList = lowerColours (canonicalSelector s).toList := by
  have hfold : render (foldColours false false (scan s.toList)) =
      lowerColours (render (scan s.toList)) :=
    render_foldColours (readable_scan s.toList) (List.nil_append _).symm (flagsAt_start _)
  rw [canonicalValue, canonicalSelector, String.toList_ofList, String.toList_ofList, hfold]

/-- **Lowering touches exactly the colours.** The spelling of a value is as long as that of a
selector and differs from it in the letters A to F inside its colours, which are lowered; it
is all the same which of the two is made of the other; and two texts have one spelling as
values exactly if their spellings as selectors differ at most in the case of such letters. -/
theorem canonicalValue_colours (s t : String) :
    (canonicalValue s).length = (canonicalSelector s).length ∧
      (∀ i : Nat, (canonicalValue s).toList[i]? = (canonicalSelector s).toList[i]?.map fun c =>
        if InColour (canonicalSelector s).toList i ∧ 'A' ≤ c ∧ c ≤ 'F' then c.toLower else c) ∧
      canonicalValue (canonicalSelector s) = canonicalValue s ∧
      canonicalSelector (canonicalValue s) = canonicalValue s ∧
      (canonicalValue s = canonicalValue t ↔
        CaseAlike (canonicalSelector s).toList (canonicalSelector t).toList) := by
  refine ⟨?_, fun i => ?_, ?_, canonicalSelector_canonicalValue s, ?_⟩
  · rw [← String.length_toList, toList_canonicalValue, length_lowerColours, String.length_toList]
  · rw [toList_canonicalValue, getElem?_lowerColours]
    refine Option.map_congr fun c hc => ?_
    by_cases hin : InColour (canonicalSelector s).toList i
    · rcases (isNameChar_of_isHexDigit (isHexDigit_of_inColour hc hin)).2.2.2.2 with hletter | hlow
      · simp only [lowerAt, hin, hletter, and_self, if_true]
      · simp only [lowerAt, hin, hlow, ite_self]
    · simp only [lowerAt, hin, false_and, if_false]
  · simp only [canonicalValue, canonicalSelector, String.toList_ofList,
      scan_render (readable_scan s.toList)]
  · rw [← lowerColours_eq_iff, ← toList_canonicalValue, ← toList_canonicalValue,
      String.toList_inj]

/-- A hash after a name, a colour before a string, and one inside it. -/
example : (List.range 17).filter (InColour "x#ABC #DeF'#FFF'".toList ·) = [7, 8, 9] := by decide

end StyleDelta.Text
