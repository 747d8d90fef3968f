import Mathlib.Logic.Function.Basic
import StyleDelta.Proofs.Number.Literal
import StyleDelta.Proofs.Number.Rounding
import StyleDelta.Json.Writer

/-!
The text of a float reads back, so different numbers have different texts.

All three forms of the text are literals, and each has the value of the decimal that was
written (`exists_literal`), so the reader finds the float again (`readNumber_float`).
Texts of integers hold no point and no `e`, so they are never those of floats
(`Number.text_injective`).
-/

namespace StyleDelta.Json

/-! ## The three forms -/

theorem head?_toDigits {n : Nat} (hn : n ≠ 0) : (Nat.toDigits 10 n).head? ≠ some '0' := by
  induction n using Nat.base_induction 10 (by decide) with
  | single n hlt =>
    have hdigit : ∀ n < 10, n ≠ 0 → [n.digitChar].head? ≠ some '0' := by decide
    rw [Nat.toDigits_of_lt_base hlt]
    exact hdigit n hlt hn
  | digit m k hk hm ih =>
    rw [← Nat.toDigits_append_toDigits (by decide) hm hk,
      List.head?_append_of_ne_nil _ Nat.toDigits_ne_nil]
    exact ih hm.ne'

/-- Digits of which the first is not zero. -/
structure Significant (digits : List Char) : Prop where
  ne_nil : digits ≠ []
  isDigit : ∀ c ∈ digits, c.isDigit = true
  head : digits.head? ≠ some '0'

/-- The literal has the value of the digits with an exponent. -/
def FloatLiteral.Denotes (l : FloatLiteral) (digits : List Char) (exponent : Int) : Prop :=
  ∃ zeros : Nat, l.digits = ofDigits digits * 10 ^ zeros ∧ l.exponent + zeros = exponent

variable {digits text : List Char}

theorem toDigits_eq_significant {d : Decimal} (hd : d.digits ≠ 0) :
    ∃ zeros, Nat.toDigits 10 d.digits = d.significant ++ List.replicate zeros '0' ∧
      Significant d.significant := by
  set reversed := (Nat.toDigits 10 d.digits).reverse with hreversed
  have hsplit : (reversed.dropWhile (· = '0')).reverse ++ (reversed.takeWhile (· = '0')).reverse =
      Nat.toDigits 10 d.digits := by
    rw [← List.reverse_append, List.takeWhile_append_dropWhile, hreversed, List.reverse_reverse]
  have hzeros : (reversed.takeWhile (· = '0')).reverse =
      List.replicate (reversed.takeWhile (· = '0')).length '0' := by
    refine List.eq_replicate_iff.mpr ⟨List.length_reverse, fun c hc => ?_⟩
    simpa using List.all_eq_true.mp List.all_takeWhile c (List.mem_reverse.mp hc)
  have hne : reversed.dropWhile (· = '0') ≠ [] := by
    intro hnil
    rw [hnil, List.reverse_nil, List.nil_append, hzeros] at hsplit
    have hhead := head?_toDigits hd
    rw [← hsplit, List.head?_replicate] at hhead
    have hlength : (reversed.takeWhile (· = '0')).length = 0 := by
      by_contra hpos
      rw [if_neg hpos] at hhead
      exact hhead rfl
    rw [hlength] at hsplit
    exact Nat.toDigits_ne_nil hsplit.symm
  have hsignificant : d.significant = (reversed.dropWhile (· = '0')).reverse := by
    simp [Decimal.significant, ← hreversed, hne]
  rw [hsignificant]
  refine ⟨_, (hzeros ▸ hsplit).symm, ⟨by simpa using hne, fun c hc => ?_, ?_⟩⟩
  · exact toDigits_digits _ c (hsplit ▸ List.mem_append_left _ hc)
  · have hhead := head?_toDigits hd
    rwa [← hsplit, List.head?_append_of_ne_nil _ (by simpa using hne)] at hhead

namespace FloatLiteral

def zero : FloatLiteral where
  whole := ['0']
  fraction := ['0']
  power := none
  whole_ne_nil := by simp
  whole_digits := by simp
  leading := fun _ => rfl
  fraction_digits := by simp
  float := by simp

/-- The digits with the point among them. -/
def split (hdigits : Significant digits) {whole : Nat} (hpos : 0 < whole)
    (hlt : whole < digits.length) : FloatLiteral where
  whole := digits.take whole
  fraction := digits.drop whole
  power := none
  whole_ne_nil := by
    rw [← List.length_pos_iff, List.length_take_of_le hlt.le]
    exact hpos
  whole_digits := fun c hc => hdigits.isDigit c (List.mem_of_mem_take hc)
  leading := by
    intro h
    rw [List.head?_take, if_neg hpos.ne'] at h
    exact absurd h hdigits.head
  fraction_digits := fun c hc => hdigits.isDigit c (List.mem_of_mem_drop hc)
  float := by
    rw [ne_eq, List.drop_eq_nil_iff]
    omega

/-- The digits with zeros up to the point behind them. -/
def padded (hdigits : Significant digits) (whole : Nat) : FloatLiteral where
  whole := digits.rightpad whole '0'
  fraction := ['0']
  power := none
  whole_ne_nil := List.append_ne_nil_of_left_ne_nil hdigits.ne_nil _
  whole_digits := by
    intro c hc
    rcases List.mem_append.mp hc with hdigit | hzero
    · exact hdigits.isDigit c hdigit
    · simp [List.eq_of_mem_replicate hzero]
  leading := by
    intro h
    rw [List.rightpad, List.head?_append_of_ne_nil _ hdigits.ne_nil] at h
    exact absurd h hdigits.head
  fraction_digits := by simp
  float := by simp

/-- The point and zeros before the digits. -/
def fractional (hdigits : Significant digits) (zeros : Nat) : FloatLiteral where
  whole := ['0']
  fraction := List.replicate zeros '0' ++ digits
  power := none
  whole_ne_nil := by simp
  whole_digits := by simp
  leading := fun _ => rfl
  fraction_digits := by
    intro c hc
    rcases List.mem_append.mp hc with hzero | hdigit
    · simp [List.eq_of_mem_replicate hzero]
    · exact hdigits.isDigit c hdigit
  float := .inl (List.append_ne_nil_of_right_ne_nil _ hdigits.ne_nil)

/-- One digit, the others as a fraction, and a power of ten. -/
def scientific {c : Char} {rest : List Char} (hdigits : Significant (c :: rest)) (power : Int) :
    FloatLiteral where
  whole := [c]
  fraction := rest
  power := some power
  whole_ne_nil := by simp
  whole_digits := by simpa using hdigits.isDigit c (List.mem_cons_self ..)
  leading := by simp
  fraction_digits := fun d hd => hdigits.isDigit d (List.mem_cons_of_mem _ hd)
  float := by simp

end FloatLiteral

theorem exists_positional (hdigits : Significant digits) {whole : Nat} (hpos : 0 < whole) :
    ∃ l : FloatLiteral, l.text = (digits.take whole).rightpad whole '0' ++
      '.' :: (if (digits.drop whole).isEmpty then ['0'] else digits.drop whole) ∧
      l.Denotes digits (whole - digits.length) := by
  by_cases hlt : whole < digits.length
  · have hpad : (digits.take whole).rightpad whole '0' = digits.take whole := by
      rw [List.rightpad, List.length_take_of_le hlt.le, Nat.sub_self, List.replicate_zero,
        List.append_nil]
    have hdrop : digits.drop whole ≠ [] := by
      rw [ne_eq, List.drop_eq_nil_iff]
      omega
    refine ⟨.split hdigits hpos hlt, ?_, 0, ?_, ?_⟩
    · rw [hpad]
      simp [FloatLiteral.text, FloatLiteral.split, fractionText, powerText, hdrop]
    · simp [FloatLiteral.digits, FloatLiteral.split]
    · simp [FloatLiteral.exponent, FloatLiteral.split]
      omega
  · have htake : digits.take whole = digits := List.take_of_length_le (by omega)
    have hdrop : digits.drop whole = [] := List.drop_eq_nil_of_le (by omega)
    refine ⟨.padded hdigits whole, ?_, whole - digits.length + 1, ?_, ?_⟩
    · simp [FloatLiteral.text, FloatLiteral.padded, fractionText, powerText, htake, hdrop]
    · have hzeros : digits.rightpad whole '0' ++ ['0'] =
          digits ++ List.replicate (whole - digits.length + 1) '0' := by
        rw [List.replicate_succ', ← List.append_assoc]
        rfl
      rw [FloatLiteral.digits, FloatLiteral.padded, hzeros, ofDigits_append_zeros]
    · simp [FloatLiteral.exponent, FloatLiteral.padded]
      omega

theorem exists_fractional (hdigits : Significant digits) (zeros : Nat) :
    ∃ l : FloatLiteral, l.text = '0' :: '.' :: List.replicate zeros '0' ++ digits ∧
      l.Denotes digits (-(zeros + digits.length)) := by
  refine ⟨.fractional hdigits zeros, ?_, 0, ?_, ?_⟩
  · simp [FloatLiteral.text, FloatLiteral.fractional, fractionText, powerText, hdigits.ne_nil]
  · have hzeros : ['0'] ++ (List.replicate zeros '0' ++ digits) =
        List.replicate (zeros + 1) '0' ++ digits := by simp [List.replicate_succ]
    rw [FloatLiteral.digits, FloatLiteral.fractional, hzeros, ofDigits_zeros_append, Nat.pow_zero,
      Nat.mul_one]
  · simp [FloatLiteral.exponent, FloatLiteral.fractional]

theorem exists_scientific (hdigits : Significant digits) (power : Int) :
    ∃ l : FloatLiteral, l.text = digits.take 1 ++
      (if (digits.drop 1).isEmpty then [] else '.' :: digits.drop 1) ++
      'e' :: (if power < 0 then '-' else '+') :: Nat.toDigits 10 power.natAbs ∧
      l.Denotes digits (power + 1 - digits.length) := by
  obtain ⟨c, rest, rfl⟩ := List.exists_cons_of_ne_nil hdigits.ne_nil
  refine ⟨.scientific hdigits power, ?_, 0, ?_, ?_⟩
  · cases rest <;> simp [FloatLiteral.text, FloatLiteral.scientific, fractionText, powerText]
  · simp [FloatLiteral.digits, FloatLiteral.scientific]
  · simp [FloatLiteral.exponent, FloatLiteral.scientific]

/-- The text of a decimal is a literal of its value. -/
theorem exists_literal {d : Decimal} (hd : d.digits ≠ 0) :
    ∃ l : FloatLiteral, l.text = d.text ∧ ∀ negative,
      Binary64.ofDecimal? negative l.digits l.exponent =
        Binary64.ofDecimal? negative d.digits d.exponent := by
  obtain ⟨zeros, htoDigits, hdigits⟩ := toDigits_eq_significant hd
  have hlength : d.leading = d.exponent + (d.significant.length + zeros) - 1 := by
    simp [Decimal.leading, htoDigits]
  have hvalue : d.digits = ofDigits d.significant * 10 ^ zeros := by
    rw [← ofDigits_append_zeros, ← htoDigits, ofDigits_toDigits]
  have hdenotes {l : FloatLiteral} (hl : l.Denotes d.significant (d.exponent + zeros)) (negative) :
      Binary64.ofDecimal? negative l.digits l.exponent =
        Binary64.ofDecimal? negative d.digits d.exponent := by
    obtain ⟨n, hl, hexponent⟩ := hl
    rw [hl, hvalue, Binary64.ofDecimal?_mul_pow, Binary64.ofDecimal?_mul_pow, hexponent]
  unfold Decimal.text
  dsimp only
  split
  next hrange =>
    obtain ⟨l, htext, hl⟩ := exists_positional hdigits (Nat.succ_pos d.leading.toNat)
    exact ⟨l, htext, hdenotes (by convert hl using 1; omega)⟩
  next =>
    split
    next hrange =>
      obtain ⟨l, htext, hl⟩ := exists_fractional hdigits ((-d.leading).toNat - 1)
      exact ⟨l, htext, hdenotes (by convert hl using 1; omega)⟩
    next =>
      obtain ⟨l, htext, hl⟩ := exists_scientific hdigits d.leading
      exact ⟨l, htext, hdenotes (by convert hl using 1; omega)⟩

theorem exists_literal_shortest (x : Binary64) :
    ∃ l : FloatLiteral, l.text = x.shortest.text ∧
      Binary64.ofDecimal? x.negative l.digits l.exponent = some x := by
  by_cases hzero : x.rank = 0
  · have hshortest : x.shortest = ⟨0, 0⟩ := if_pos hzero
    have hdigits : FloatLiteral.zero.digits = 0 := rfl
    refine ⟨.zero, ?_, ?_⟩
    · rw [hshortest]
      rfl
    · rw [hdigits, Binary64.ofDecimal?_eq_some_iff, Binary64.exactRank_zero]
      exact ⟨rfl, hzero.symm⟩
  · have hdigits : x.shortest.digits ≠ 0 := by
      intro hdigits
      have hrank := Binary64.exactRank_shortest x
      rw [hdigits, Binary64.exactRank_zero] at hrank
      exact hzero hrank.symm
    obtain ⟨l, htext, hvalue⟩ := exists_literal hdigits
    exact ⟨l, htext, (hvalue x.negative).trans (Binary64.ofDecimal?_shortest x)⟩

/-- A float is read back from its text, whatever stands behind it. -/
theorem readNumber_float (x : Binary64) (htext : StopsAt isNumeric text) :
    readNumber (x.text ++ text) = .ok (.float x, text) := by
  obtain ⟨l, hl, hvalue⟩ := exists_literal_shortest x
  have hsign : x.text ++ text = (if x.negative then ['-'] else []) ++ (l.text ++ text) := by
    rw [Binary64.text, hl]
    cases x.negative <;> rfl
  rw [hsign]
  exact readNumber_literal l x.negative htext hvalue

/-! ## The characters of numbers -/

theorem isNumeric_of_isDigit {c : Char} (hc : c.isDigit = true) : isNumeric c = true := by
  simp [isNumeric, hc]

theorem FloatLiteral.isNumeric_text (l : FloatLiteral) : ∀ c ∈ l.text, isNumeric c = true := by
  intro c hc
  rcases List.mem_append.mp hc with hwhole | hrest
  · exact isNumeric_of_isDigit (l.whole_digits c hwhole)
  · rcases List.mem_append.mp hrest with hfraction | hpower
    · unfold fractionText at hfraction
      split at hfraction
      next => cases hfraction
      next =>
        rcases List.mem_cons.mp hfraction with rfl | hdigit
        · rfl
        · exact isNumeric_of_isDigit (l.fraction_digits c hdigit)
    · cases hp : l.power with
      | none =>
        rw [hp] at hpower
        cases hpower
      | some p =>
        rw [hp] at hpower
        simp only [powerText, List.mem_cons] at hpower
        rcases hpower with rfl | rfl | hdigit
        · rfl
        · split <;> rfl
        · exact isNumeric_of_isDigit (toDigits_digits _ c hdigit)

theorem FloatLiteral.exists_point (l : FloatLiteral) : ∃ c ∈ l.text, c = '.' ∨ c = 'e' := by
  rcases l.float with hfraction | hpower
  · exact ⟨'.', by simp [text, fractionText, hfraction], .inl rfl⟩
  · obtain ⟨p, hp⟩ := Option.ne_none_iff_exists'.mp hpower
    exact ⟨'e', by simp [text, powerText, hp], .inr rfl⟩

/-- A number is a sign, perhaps, and a text that starts with a digit. -/
theorem exists_unsigned (n : Number) : ∃ (negative : Bool) (unsigned : List Char),
    n.text = (if negative then ['-'] else []) ++ unsigned ∧
      (∀ c ∈ unsigned, isNumeric c = true) ∧ ∃ c ∈ unsigned.head?, c.isDigit = true := by
  cases n with
  | int n =>
    obtain ⟨c, rest, hc⟩ :=
      List.exists_cons_of_ne_nil (Nat.toDigits_ne_nil (b := 10) (n := n.natAbs))
    refine ⟨n < 0, Nat.toDigits 10 n.natAbs, ?_, ?_, c, by simp [hc], ?_⟩
    · by_cases hn : n < 0 <;> simp [Number.text, hn]
    · exact fun c hc => isNumeric_of_isDigit (toDigits_digits _ c hc)
    · exact toDigits_digits _ c (hc ▸ List.mem_cons_self ..)
  | float x =>
    obtain ⟨l, hl, -⟩ := exists_literal_shortest x
    obtain ⟨c, rest, hc⟩ := List.exists_cons_of_ne_nil l.whole_ne_nil
    refine ⟨x.negative, l.text, ?_, l.isNumeric_text, c, ?_, ?_⟩
    · rw [Number.text, Binary64.text, hl]
      cases x.negative <;> rfl
    · simp [FloatLiteral.text, hc]
    · exact l.whole_digits c (hc ▸ List.mem_cons_self ..)

theorem isNumeric_text (n : Number) : ∀ c ∈ n.text, isNumeric c = true := by
  obtain ⟨negative, unsigned, htext, hunsigned, -⟩ := exists_unsigned n
  intro c hc
  rw [htext] at hc
  rcases List.mem_append.mp hc with hsign | hc
  · cases negative
    · cases hsign
    · rw [List.mem_singleton.mp hsign]
      rfl
  · exact hunsigned c hc

theorem head_text (n : Number) : ∃ c ∈ n.text.head?, c = '-' ∨ c.isDigit = true := by
  obtain ⟨negative, unsigned, htext, -, c, hc, hdigit⟩ := exists_unsigned n
  cases negative with
  | true => exact ⟨'-', by simp [htext], .inl rfl⟩
  | false => exact ⟨c, by simpa [htext] using hc, .inr hdigit⟩

end StyleDelta.Json

namespace StyleDelta

open Json

namespace Number

theorem minus_notMem_toDigits (n : Nat) : '-' ∉ Nat.toDigits 10 n := by
  intro hmem
  cases toDigits_digits n '-' hmem

theorem int_text_injective {m n : Int} (h : (int m).text = (int n).text) : m = n := by
  have hdigits {j k : Nat} (hjk : Nat.toDigits 10 j = Nat.toDigits 10 k) : j = k := by
    rw [← ofDigits_toDigits j, hjk, ofDigits_toDigits]
  simp only [text] at h
  by_cases hm : m < 0 <;> by_cases hn : n < 0
  · rw [if_pos hm, if_pos hn] at h
    have := hdigits (List.cons.inj h).2
    omega
  · rw [if_pos hm, if_neg hn] at h
    exact absurd (h ▸ List.mem_cons_self ..) (minus_notMem_toDigits n.natAbs)
  · rw [if_neg hm, if_pos hn] at h
    exact absurd (h ▸ List.mem_cons_self ..) (minus_notMem_toDigits m.natAbs)
  · rw [if_neg hm, if_neg hn] at h
    have := hdigits h
    omega

theorem text_int_ne_float (n : Int) (x : Binary64) : (int n).text ≠ (float x).text := by
  intro h
  obtain ⟨l, hl, -⟩ := exists_literal_shortest x
  obtain ⟨c, hc, hpoint⟩ := l.exists_point
  have hmem : c ∈ (int n).text := by
    rw [h, text, Binary64.text, ← hl]
    split
    · exact List.mem_cons_of_mem _ hc
    · exact hc
  have hint : c = '-' ∨ c.isDigit = true := by
    rw [text] at hmem
    split at hmem
    · exact (List.mem_cons.mp hmem).imp_right (toDigits_digits _ c)
    · exact .inr (toDigits_digits _ c hmem)
  rcases hpoint with rfl | rfl <;> simp at hint

/-- Different numbers have different texts. -/
theorem text_injective : Function.Injective text := by
  intro m n h
  cases m with
  | int m =>
    cases n with
    | int n => rw [int_text_injective h]
    | float y => exact absurd h (text_int_ne_float m y)
  | float x =>
    cases n with
    | int n => exact absurd h.symm (text_int_ne_float n x)
    | float y =>
      have hend : StopsAt isNumeric [] := by simp [StopsAt]
      have hx := readNumber_float x hend
      have hy := readNumber_float y hend
      have hxy : x.text = y.text := h
      rw [hxy, hy] at hx
      simpa using hx.symm

end Number

end StyleDelta
