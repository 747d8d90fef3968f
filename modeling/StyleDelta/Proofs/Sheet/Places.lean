import StyleDelta.Sheet.OfJson

/-!
The texts of places in a tree.

A text is taken apart from its end: a full stop closes the name of a member, an opening
bracket an index. The text of a place gives its steps back, as long as no member on the
way has a name with a delimiter in it (`placeOfText_placeText`).
-/

namespace StyleDelta

/-- The characters that a step of a place begins with. -/
def isDelimiter (c : Char) : Bool := c = '.' ∨ c = '['

/-- The characters up to the first step, and the steps. -/
def splitSteps : List Char → List Char × List Step
  | [] => ([], [])
  | c :: rest =>
    let (word, steps) := splitSteps rest
    if c = '.' then ([], .member (String.ofList word) :: steps)
    -- the word of an index ends with the closing bracket
    else if c = '[' then ([], .index (Nat.ofDigitChars 10 word.dropLast 0) :: steps)
    else (c :: word, steps)

/-- The steps that the text of a place names. -/
def placeOfText (text : String) : List Step := (splitSteps text.toList).2

theorem splitSteps_append (word rest : List Char) (h : ∀ c ∈ word, isDelimiter c = false) :
    splitSteps (word ++ rest) = (word ++ (splitSteps rest).1, (splitSteps rest).2) := by
  induction word with
  | nil => rfl
  | cons c word ih =>
    obtain ⟨hc, hword⟩ := List.forall_mem_cons.mp h
    simp only [isDelimiter, decide_eq_false_iff_not, not_or] at hc
    simp [splitSteps, ih hword, hc]

/-- A step whose text can be told from what follows it. -/
def Step.Plain : Step → Prop
  | .member name => ∀ c ∈ name.toList, isDelimiter c = false
  | .index _ => True

theorem splitSteps_text {step : Step} (h : step.Plain) {rest : List Char}
    (hrest : (splitSteps rest).1 = []) :
    splitSteps (step.text.toList ++ rest) = ([], step :: (splitSteps rest).2) := by
  cases step with
  | member name =>
    have htext : (Step.member name).text.toList = '.' :: name.toList := by
      simp [Step.text, toString]
    rw [htext, List.cons_append, splitSteps, splitSteps_append name.toList rest h, hrest]
    simp
  | index i =>
    have htext : (Step.index i).text.toList = '[' :: (Nat.toDigits 10 i ++ [']']) := by
      simp [Step.text, toString]
    have hword : ∀ c ∈ Nat.toDigits 10 i ++ [']'], isDelimiter c = false := by
      intro c hc
      rcases List.mem_append.mp hc with hc | hc
      · have hdigit := Nat.isDigit_of_mem_toDigits (by decide) (by decide) hc
        have hdot : c ≠ '.' := by rintro rfl; revert hdigit; decide
        have hbracket : c ≠ '[' := by rintro rfl; revert hdigit; decide
        simp [isDelimiter, hdot, hbracket]
      · obtain rfl := List.mem_singleton.mp hc
        decide
    rw [htext, List.cons_append, splitSteps, splitSteps_append _ rest hword, hrest]
    simp [Nat.ofDigitChars_ten_toDigits]

theorem placeOfText_placeText {place : List Step} (h : ∀ step ∈ place, step.Plain) :
    placeOfText (placeText place) = place := by
  have hsteps : splitSteps (place.flatMap (·.text.toList)) = ([], place) := by
    induction place with
    | nil => rfl
    | cons step place ih =>
      obtain ⟨hstep, hplace⟩ := List.forall_mem_cons.mp h
      have hrest := ih hplace
      rw [List.flatMap_cons, splitSteps_text hstep (by rw [hrest]), hrest]
  have htext : (placeText place).toList = ['$'] ++ place.flatMap (·.text.toList) := by
    simp [placeText, String.toList_join, List.flatMap_map]
  rw [placeOfText, htext, splitSteps_append _ _ (by simp [isDelimiter]), hsteps]

example : placeOfText "$.rules[12].selectors[0]" =
    [.member "rules", .index 12, .member "selectors", .index 0] := by rfl

end StyleDelta
