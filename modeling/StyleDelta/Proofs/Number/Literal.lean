import Mathlib.Algebra.Ring.Nat
import Mathlib.Data.List.TakeDrop
import Mathlib.Tactic.ByContra
import StyleDelta.Json.Literal

/-!
The literals of floats and their reading.

A `FloatLiteral` is what a number literal that is no integer is made of: digits, then a
fraction, a power of ten, or both. The reader takes it apart again, whatever text stands
behind it, as long as that does not go on with a character of numbers
(`readNumber_literal`).
-/

namespace StyleDelta.Json

/-! ## Digits -/

/-- The text is empty or starts with a character of another sort. -/
def StopsAt (sort : Char → Bool) (text : List Char) : Prop := ∀ c ∈ text.head?, sort c = false

/-- The characters of numbers. -/
def isNumeric (c : Char) : Bool :=
  c.isDigit || c = '+' || c = '-' || c = '.' || c = 'e' || c = 'E'

theorem StopsAt.of_numeric {sort : Char → Bool} {text : List Char} (htext : StopsAt isNumeric text)
    (hsort : ∀ c, sort c = true → isNumeric c = true) : StopsAt sort text := by
  intro c hc
  have hother := htext c hc
  by_contra hcontra
  rw [hsort c (by simpa using hcontra)] at hother
  cases hother

theorem StopsAt.digit {text : List Char} (htext : StopsAt isNumeric text) :
    StopsAt Char.isDigit text := htext.of_numeric (by simp +contextual [isNumeric])

theorem span_append {sort : Char → Bool} {front text : List Char}
    (hfront : ∀ c ∈ front, sort c = true) (htext : StopsAt sort text) :
    (front ++ text).span sort = (front, text) := by
  have htake : text.takeWhile sort = [] := by
    cases text with
    | nil => rfl
    | cons c text => simp [htext c rfl]
  have hdrop : text.dropWhile sort = text := by
    cases text with
    | nil => rfl
    | cons c text => simp [htext c rfl]
  rw [List.span_eq_takeWhile_dropWhile, List.takeWhile_append_of_pos hfront,
    List.dropWhile_append_of_pos hfront, htake, hdrop, List.append_nil]

theorem toDigits_digits (n : Nat) : ∀ c ∈ Nat.toDigits 10 n, c.isDigit = true :=
  fun _ hc => Nat.isDigit_of_mem_toDigits (by decide) (by decide) hc

theorem ofDigits_eq (digits : List Char) : ofDigits digits = Nat.ofDigitChars 10 digits 0 := by
  rw [Nat.ofDigitChars_eq_foldl]
  rfl

theorem ofDigits_toDigits (n : Nat) : ofDigits (Nat.toDigits 10 n) = n := by
  rw [ofDigits_eq, Nat.ofDigitChars_ten_toDigits]

theorem ofDigits_append_zeros (digits : List Char) (n : Nat) :
    ofDigits (digits ++ List.replicate n '0') = ofDigits digits * 10 ^ n := by
  rw [ofDigits_eq, ofDigits_eq, Nat.ofDigitChars_append, Nat.ofDigitChars_replicate_zero,
    Nat.mul_comm]

theorem ofDigits_zeros_append (n : Nat) (digits : List Char) :
    ofDigits (List.replicate n '0' ++ digits) = ofDigits digits := by
  rw [ofDigits_eq, ofDigits_eq, Nat.ofDigitChars_append, Nat.ofDigitChars_replicate_zero,
    Nat.mul_zero]

/-! ## Literals -/

/-- The parts of a literal that is no integer. -/
structure FloatLiteral where
  whole : List Char
  fraction : List Char
  /-- The power of ten, where one is written. -/
  power : Option Int
  whole_ne_nil : whole ≠ []
  whole_digits : ∀ c ∈ whole, c.isDigit = true
  /-- No digit follows a leading zero. -/
  leading : whole.head? = some '0' → whole = ['0']
  fraction_digits : ∀ c ∈ fraction, c.isDigit = true
  float : fraction ≠ [] ∨ power ≠ none

def fractionText (fraction : List Char) : List Char :=
  if fraction = [] then [] else '.' :: fraction

def powerText : Option Int → List Char
  | none => []
  | some p => 'e' :: (if p < 0 then '-' else '+') :: Nat.toDigits 10 p.natAbs

namespace FloatLiteral

def text (l : FloatLiteral) : List Char :=
  l.whole ++ (fractionText l.fraction ++ powerText l.power)

def digits (l : FloatLiteral) : Nat := ofDigits (l.whole ++ l.fraction)

def exponent (l : FloatLiteral) : Int := l.power.getD 0 - l.fraction.length

end FloatLiteral

/-! ## The reader -/

variable {text : List Char}

theorem stopsAt_fractionText {sort : Char → Bool} (hpoint : sort '.' = false)
    (htext : StopsAt sort text) (fraction : List Char) :
    StopsAt sort (fractionText fraction ++ text) := by
  unfold fractionText
  split
  next => exact htext
  next => simpa [StopsAt] using hpoint

theorem stopsAt_powerText {sort : Char → Bool} (he : sort 'e' = false) (htext : StopsAt sort text)
    (power : Option Int) : StopsAt sort (powerText power ++ text) := by
  cases power with
  | none => exact htext
  | some p => simpa [StopsAt, powerText] using he

theorem readDigits_append {digits : List Char} (hne : digits ≠ [])
    (hdigits : ∀ c ∈ digits, c.isDigit = true) (htext : StopsAt Char.isDigit text) :
    readDigits (digits ++ text) = .ok (digits, text) := by
  have hspan := span_append hdigits htext
  obtain ⟨c, rest, rfl⟩ := List.exists_cons_of_ne_nil hne
  rw [List.cons_append] at hspan ⊢
  rw [readDigits, if_pos (hdigits c (List.mem_cons_self ..)), hspan]

theorem readWhole_append {whole : List Char} (hne : whole ≠ [])
    (hdigits : ∀ c ∈ whole, c.isDigit = true) (hleading : whole.head? = some '0' → whole = ['0'])
    (htext : StopsAt Char.isDigit text) : readWhole (whole ++ text) = .ok (whole, text) := by
  rw [readWhole, readDigits_append hne hdigits htext]
  simp only [bind, Except.bind]
  split
  next => simp at hleading
  next => rfl

theorem readFraction_append {fraction : List Char} (hdigits : ∀ c ∈ fraction, c.isDigit = true)
    (htext : StopsAt Char.isDigit text) (hpoint : StopsAt (· = '.') text) :
    readFraction (fractionText fraction ++ text) = .ok (fraction, text) := by
  unfold fractionText
  split
  next hnil =>
    subst hnil
    cases text with
    | nil => rfl
    | cons c text =>
      have hc : c ≠ '.' := by simpa [StopsAt] using hpoint
      simp [readFraction, hc]
  next hne => exact readDigits_append hne hdigits htext

theorem readExponent_append (power : Option Int) (htext : StopsAt isNumeric text) :
    readExponent (powerText power ++ text) =
      .ok (power.map fun p => (decide (p < 0), Nat.toDigits 10 p.natAbs), text) := by
  cases power with
  | none =>
    cases text with
    | nil => rfl
    | cons c text =>
      have hc : isNumeric c = false := htext c rfl
      have hletter : (c = 'e' || c = 'E') = false := by simp_all [isNumeric]
      simp [powerText, readExponent, hletter]
  | some p =>
    have hread := readDigits_append Nat.toDigits_ne_nil (toDigits_digits p.natAbs) htext.digit
    by_cases hp : p < 0 <;>
      simp [powerText, readExponent, hp, hread, bind, Except.bind, pure, Except.pure]

theorem readNumber_literal (l : FloatLiteral) (negative : Bool) (htext : StopsAt isNumeric text)
    {x : Binary64} (hx : Binary64.ofDecimal? negative l.digits l.exponent = some x) :
    readNumber ((if negative then ['-'] else []) ++ (l.text ++ text)) = .ok (.float x, text) := by
  have hpower := readExponent_append l.power htext
  have hfraction := readFraction_append l.fraction_digits
    (stopsAt_powerText (by decide) htext.digit l.power)
    (stopsAt_powerText (by decide) (htext.of_numeric (by simp +contextual [isNumeric])) l.power)
  have hwhole := readWhole_append l.whole_ne_nil l.whole_digits l.leading
    (stopsAt_fractionText (by decide) (stopsAt_powerText (by decide) htext.digit l.power)
      l.fraction)
  have hsplit : l.text ++ text =
      l.whole ++ (fractionText l.fraction ++ (powerText l.power ++ text)) := by
    simp [FloatLiteral.text]
  have hintegral : (l.fraction.isEmpty &&
      (l.power.map fun p => (decide (p < 0), Nat.toDigits 10 p.natAbs)).isNone) = false := by
    rcases l.float with h | h
    · simp [h]
    · simp [Option.isNone_eq_false_iff.mpr (Option.isSome_iff_ne_none.mpr h)]
  have hunsigned : ∀ rest, l.text ++ text ≠ '-' :: rest := by
    intro rest heq
    obtain ⟨c, whole, hc⟩ := List.exists_cons_of_ne_nil l.whole_ne_nil
    have hdigit := l.whole_digits c (hc ▸ List.mem_cons_self ..)
    simp only [hsplit, hc, List.cons_append, List.cons.injEq] at heq
    rw [heq.1] at hdigit
    cases hdigit
  unfold readNumber
  split
  next negative' unsigned hsign =>
    obtain ⟨rfl, rfl⟩ : negative' = negative ∧ unsigned = l.text ++ text := by
      cases negative with
      | true => simpa using hsign.symm
      | false =>
        simp only [Bool.false_eq_true, if_false, List.nil_append] at hsign
        simpa using hsign.symm
    simp only [hsplit, hwhole, hfraction, hpower, bind, Except.bind, hintegral, Bool.false_and,
      Bool.false_eq_true, if_false]
    unfold FloatLiteral.digits FloatLiteral.exponent at hx
    cases hp : l.power with
    | none =>
      simp only [hp, Option.getD_none] at hx
      simp only [Option.map_none, hx]
      rfl
    | some p =>
      simp only [hp, Option.getD_some] at hx
      by_cases hneg : p < 0
      · have hvalue : -(p.natAbs : Int) = p := by omega
        simp only [Option.map_some, hneg, decide_true, ofDigits_toDigits, hvalue, hx]
        rfl
      · have hvalue : (p.natAbs : Int) = p := by omega
        simp only [Option.map_some, hneg, decide_false, ofDigits_toDigits, hvalue, hx]
        rfl

end StyleDelta.Json
