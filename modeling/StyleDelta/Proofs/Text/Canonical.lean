import StyleDelta.Text.Canonical

/-!
The canonical spellings of texts are stable.

A scan gives token sequences of a certain shape only (`readable_scan`), and what is
written of such a sequence is scanned as the same sequence again (`scan_render`).
Lowering the digits of colours keeps the shape and every test for a colour, so it
changes nothing the second time (`foldColours_foldColours`). Hence respelling a
respelled text does nothing (`canonicalSelector_idem`, `canonicalValue_idem`).
-/

namespace StyleDelta.Text

/-! ## The steps of a scan -/

theorem scan_quote {c : Char} (h : isQuote c = true) (rest : List Char) :
    scan (c :: rest) =
      .quoted (scanString c rest).1 (scanString c rest).2.1 :: (scanString c rest).2.2 := by
  have hc : c ≠ '\\' := by
    rintro rfl
    simp [isQuote] at h
  rw [scan.eq_4 c rest (fun hb => absurd hb hc) (fun _ _ hb => absurd hb hc), if_pos h]

theorem scan_plain {c : Char} (hc : c ≠ '\\') (h : isQuote c = false) (rest : List Char) :
    scan (c :: rest) = .plain c :: scan rest := by
  rw [scan.eq_4 c rest (fun hb => absurd hb hc) (fun _ _ hb => absurd hb hc), h]
  simp

theorem scanString_quote {c : Char} (hc : c ≠ '\\') (rest : List Char) :
    scanString c (c :: rest) = ([], true, scan rest) := by
  rw [scanString.eq_4 c c rest (fun hb => absurd hb hc) (fun _ _ hb => absurd hb hc), if_pos rfl]

theorem scanString_char {quote c : Char} (hc : c ≠ '\\') (h : c ≠ quote) (rest : List Char) :
    scanString quote (c :: rest) =
      (.char c :: (scanString quote rest).1, (scanString quote rest).2) := by
  rw [scanString.eq_4 quote c rest (fun hb => absurd hb hc) (fun _ _ hb => absurd hb hc), if_neg h]

/-- A character in front that starts neither a pair nor the end of the text. -/
theorem ne_backslash {c : Char} {rest : List Char} (hend : c = '\\' → rest = [] → False)
    (hpair : ∀ d more, c = '\\' → rest = d :: more → False) : c ≠ '\\' := by
  rintro rfl
  cases rest with
  | nil => exact hend rfl rfl
  | cons d more => exact hpair d more rfl rfl

/-! ## What a scan gives -/

/-- The content of a string as a scan gives it; a backslash at the end of the text
leaves the string open. -/
def Piece.Readable (closed : Bool) : List Piece → Prop
  | [] => True
  | .char c :: rest => c ≠ '\\' ∧ Readable closed rest
  | .pair c :: rest => isQuote c = false ∧ Readable closed rest
  | .backslash :: rest => rest = [] ∧ closed = false

/-- Tokens as a scan gives them; nothing follows an open string or a backslash at
the end of the text. -/
def Token.Readable : List Token → Prop
  | [] => True
  | .plain c :: rest => c ≠ '\\' ∧ isQuote c = false ∧ Readable rest
  | .pair _ :: rest => Readable rest
  | .backslash :: rest => rest = []
  | .quoted content closed :: rest =>
    Piece.Readable closed content ∧ (closed = false → rest = []) ∧ Readable rest

theorem Piece.readable_escaped {closed : Bool} {rest : List Piece} (c : Char)
    (h : Readable closed rest) : Readable closed (escaped c :: rest) := by
  by_cases hq : isQuote c = true
  · have hc : c ≠ '\\' := by
      rintro rfl
      simp [isQuote] at hq
    simpa [escaped, hq] using ⟨hc, h⟩
  · have hf : isQuote c = false := by simpa using hq
    simpa [escaped, hf] using ⟨hf, h⟩

/-- A scan gives readable tokens, also from inside a string. -/
theorem readable_scan_and_string :
    (∀ text, Token.Readable (scan text)) ∧
      ∀ (quote : Char) (text : List Char),
        Piece.Readable (scanString quote text).2.1 (scanString quote text).1 ∧
          ((scanString quote text).2.1 = false → (scanString quote text).2.2 = []) ∧
          Token.Readable (scanString quote text).2.2 := by
  -- the induction follows the scan; inside a string it goes on at the closing quote
  refine scan.mutual_induct _ _ ?_ ?_ ?_ ?_ ?_ ?_ ?_ ?_ ?_ ?_
  · trivial
  · exact rfl
  · intro c rest ih
    exact ih
  · intro c rest _ _ hq _ _ _ _ ih
    rw [scan_quote hq]
    exact ih
  · intro c rest hend hpair hq ih
    have hc := ne_backslash hend hpair
    have hf : isQuote c = false := by simpa using hq
    rw [scan_plain hc hf]
    exact ⟨hc, hf, ih⟩
  · intro quote
    exact ⟨trivial, fun _ => rfl, trivial⟩
  · intro quote
    exact ⟨⟨rfl, rfl⟩, fun _ => rfl, trivial⟩
  · intro quote c rest _ _ _ ih
    obtain ⟨hcontent, hopen, hrest⟩ := ih
    exact ⟨Piece.readable_escaped c hcontent, hopen, hrest⟩
  · intro c rest hend hpair ih
    have hc := ne_backslash hend hpair
    rw [scanString_quote hc]
    exact ⟨trivial, fun h => absurd h (by simp), ih⟩
  · intro quote c rest hend hpair hne _ _ _ ih
    have hc := ne_backslash hend hpair
    obtain ⟨hcontent, hopen, hrest⟩ := ih
    rw [scanString_char hc hne]
    exact ⟨⟨hc, hcontent⟩, hopen, hrest⟩

theorem readable_scan (text : List Char) : Token.Readable (scan text) :=
  readable_scan_and_string.1 text

/-! ## Scanning what was written -/

/-- Inside double quotes, the written content is read up to where it ends. -/
theorem scanString_render {content : List Piece} {closed : Bool}
    (h : Piece.Readable closed content) {rest : List Char} (hrest : closed = false → rest = []) :
    scanString '"' (content.flatMap Piece.render ++ ((if closed then ['"'] else []) ++ rest)) =
      (content, closed, scan rest) := by
  induction content with
  | nil =>
    cases closed with
    | true => exact scanString_quote (by decide) rest
    | false =>
      rw [hrest rfl]
      rfl
  | cons piece content ih =>
    cases piece with
    | char c =>
      obtain ⟨hc, hcontent⟩ := h
      have htail := ih hcontent
      by_cases hq : c = '"'
      · subst hq
        simp only [List.flatMap_cons, Piece.render, if_true, List.cons_append, List.nil_append,
          scanString, htail]
        rfl
      · simp only [List.flatMap_cons, Piece.render, if_neg hq, List.cons_append, List.nil_append]
        rw [scanString_char hc hq, htail]
    | pair c =>
      obtain ⟨hc, hcontent⟩ := h
      have htail := ih hcontent
      simp only [List.flatMap_cons, Piece.render, List.cons_append, List.nil_append, scanString,
        htail, Piece.escaped, hc]
      rfl
    | backslash =>
      obtain ⟨rfl, rfl⟩ := h
      rw [hrest rfl]
      rfl

theorem scan_render {tokens : List Token} (h : Token.Readable tokens) :
    scan (render tokens) = tokens := by
  induction tokens with
  | nil => rfl
  | cons token tokens ih =>
    cases token with
    | plain c =>
      obtain ⟨hc, hq, hrest⟩ := h
      calc
        scan (render (.plain c :: tokens)) = scan (c :: render tokens) := rfl
        _ = .plain c :: tokens := by rw [scan_plain hc hq, ih hrest]
    | pair c =>
      calc
        scan (render (.pair c :: tokens)) = .pair c :: scan (render tokens) := rfl
        _ = .pair c :: tokens := by rw [ih h]
    | backslash =>
      have hnil : tokens = [] := h
      subst hnil
      rfl
    | quoted content closed =>
      obtain ⟨hcontent, hopen, hrest⟩ := h
      have hnil : closed = false → render tokens = [] := fun hc => by rw [hopen hc]; rfl
      calc
        scan (render (.quoted content closed :: tokens)) =
            scan ('"' :: (content.flatMap Piece.render ++
              ((if closed then ['"'] else []) ++ render tokens))) := by
          simp [render, Token.render]
        _ = .quoted content closed :: tokens := by
          rw [scan_quote (by decide), scanString_render hcontent hnil, ih hrest]

/-- A text that is written without a double quote has no string, and stands as it is. -/
theorem render_scan_of_not_mem {text : List Char} (h : '"' ∉ render (scan text)) :
    render (scan text) = text := by
  -- the second motive is idle: the tokens inside a string do not matter here
  refine scan.induct (fun text => '"' ∉ render (scan text) → render (scan text) = text)
    (fun _ _ => True) ?_ ?_ ?_ ?_ ?_ ?_ ?_ ?_ ?_ ?_ text h
  · intro _
    rfl
  · intro _
    rfl
  · intro c rest ih h
    have hrest : '"' ∉ render (scan rest) := by
      intro hmem
      exact h (List.mem_cons_of_mem _ (List.mem_cons_of_mem _ hmem))
    exact congrArg (fun tail => '\\' :: c :: tail) (ih hrest)
  · intro c rest _ _ hq _ _ _ _ _ h
    rw [scan_quote hq] at h
    exact absurd (List.mem_cons_self ..) h
  · intro c rest hend hpair hq ih h
    have hf : isQuote c = false := by simpa using hq
    rw [scan_plain (ne_backslash hend hpair) hf] at h ⊢
    have hrest : '"' ∉ render (scan rest) := by
      intro hmem
      exact h (List.mem_cons_of_mem _ hmem)
    exact congrArg (c :: ·) (ih hrest)
  all_goals
    intros
    trivial

/-! ## Colours -/

theorem toNat_lt_of_isHexDigit {c : Char} (h : isHexDigit c = true) : c.toNat < 128 := by
  simp only [isHexDigit, Char.isDigit, Bool.or_eq_true, Bool.and_eq_true, decide_eq_true_eq,
    Char.le_def, UInt32.le_iff_toNat_le, ge_iff_le] at h
  simp only [Char.toNat]
  have h9 : ('9' : Char).val.toNat = 57 := rfl
  have hf : ('f' : Char).val.toNat = 102 := rfl
  have hF : ('F' : Char).val.toNat = 70 := rfl
  omega

/-- Lowering a hex digit gives a hex digit that is already low. -/
theorem toLower_of_isHexDigit {c : Char} (h : isHexDigit c = true) :
    isHexDigit c.toLower = true ∧ isQuote c.toLower = false ∧ c.toLower ≠ '\\' ∧
      c.toLower ≠ '#' ∧ c.toLower.toLower = c.toLower := by
  have hall : ∀ n < 128, isHexDigit (Char.ofNat n) = true →
      isHexDigit (Char.ofNat n).toLower = true ∧ isQuote (Char.ofNat n).toLower = false ∧
        (Char.ofNat n).toLower ≠ '\\' ∧ (Char.ofNat n).toLower ≠ '#' ∧
        (Char.ofNat n).toLower.toLower = (Char.ofNat n).toLower := by decide
  have hc := hall c.toNat (toNat_lt_of_isHexDigit h)
  rw [Char.ofNat_toNat] at hc
  exact hc h

theorem foldColours_readable (named colour : Bool) {tokens : List Token}
    (h : Token.Readable tokens) : Token.Readable (foldColours named colour tokens) := by
  induction tokens generalizing named colour with
  | nil => trivial
  | cons token tokens ih =>
    cases token with
    | plain c =>
      obtain ⟨hc, hq, hrest⟩ := h
      rw [foldColours]
      split
      · exact ⟨hc, hq, ih _ _ hrest⟩
      · split
        · rename_i hdigit
          have hhex : isHexDigit c = true := (Bool.and_eq_true_iff.mp hdigit).2
          obtain ⟨-, hquote, hslash, -⟩ := toLower_of_isHexDigit hhex
          exact ⟨hslash, hquote, ih _ _ hrest⟩
        · exact ⟨hc, hq, ih _ _ hrest⟩
    | pair c => exact ih _ _ h
    | backslash =>
      have hnil : tokens = [] := h
      subst hnil
      rfl
    | quoted content closed =>
      obtain ⟨hcontent, hopen, hrest⟩ := h
      refine ⟨hcontent, fun hc => ?_, ih _ _ hrest⟩
      rw [hopen hc]
      rfl

/-- Lowering hex digits changes neither how many of them stand in front nor what
follows them. -/
theorem hexRun_foldColours (named colour : Bool) (tokens : List Token) :
    hexRun (foldColours named colour tokens) = hexRun tokens := by
  induction tokens generalizing named colour with
  | nil => rfl
  | cons token tokens ih =>
    cases token with
    | plain c =>
      rw [foldColours]
      split
      · rename_i hc
        subst hc
        simp [hexRun, ih]
      · split
        · rename_i hdigit
          have hhex : isHexDigit c = true := (Bool.and_eq_true_iff.mp hdigit).2
          simp [hexRun, hhex, (toLower_of_isHexDigit hhex).1, ih]
        · simp [hexRun, ih]
    | pair c => rfl
    | backslash => rfl
    | quoted content closed => rfl

theorem startsColour_foldColours (named colour : Bool) (tokens : List Token) :
    startsColour (foldColours named colour tokens) = startsColour tokens := by
  simp only [startsColour, hexRun_foldColours]

theorem foldColours_foldColours (named colour : Bool) (tokens : List Token) :
    foldColours named colour (foldColours named colour tokens) =
      foldColours named colour tokens := by
  induction tokens generalizing named colour with
  | nil => rfl
  | cons token tokens ih =>
    cases token with
    | plain c =>
      by_cases hc : c = '#'
      · simp only [foldColours, hc, if_true, startsColour_foldColours, ih]
      · by_cases hdigit : (colour && isHexDigit c) = true
        · obtain ⟨hcolour, hhex⟩ := Bool.and_eq_true_iff.mp hdigit
          obtain ⟨hlow, -, -, hne, htwice⟩ := toLower_of_isHexDigit hhex
          simp only [foldColours, hc, hne, hcolour, hhex, hlow, htwice, Bool.and_self, if_true,
            if_false, ih]
        · simp only [foldColours, hc, hdigit, if_false, ih, Bool.false_eq_true]
    | pair c => simp only [foldColours, ih]
    | backslash => simp only [foldColours, ih]
    | quoted content closed => simp only [foldColours, ih]

/-! ## Texts -/

theorem scan_canonicalSelector (s : String) :
    scan (canonicalSelector s).toList = scan s.toList := by
  rw [canonicalSelector, String.toList_ofList, scan_render (readable_scan s.toList)]

/-- The canonical spelling keeps all that a scan reads. -/
theorem scan_eq_of_canonicalSelector {s t : String}
    (h : canonicalSelector s = canonicalSelector t) : scan s.toList = scan t.toList := by
  rw [← scan_canonicalSelector s, h, scan_canonicalSelector t]

theorem canonicalSelector_idem (s : String) :
    canonicalSelector (canonicalSelector s) = canonicalSelector s := by
  simp only [canonicalSelector, String.toList_ofList, scan_render (readable_scan s.toList)]

theorem canonicalValue_idem (s : String) :
    canonicalValue (canonicalValue s) = canonicalValue s := by
  have hreadable := foldColours_readable false false (readable_scan s.toList)
  simp only [canonicalValue, String.toList_ofList, scan_render hreadable, foldColours_foldColours]

/-- The spelling of a value is one of a selector, too. -/
theorem canonicalSelector_canonicalValue (s : String) :
    canonicalSelector (canonicalValue s) = canonicalValue s := by
  have hreadable := foldColours_readable false false (readable_scan s.toList)
  simp only [canonicalSelector, canonicalValue, String.toList_ofList, scan_render hreadable]

/-- A spelling without a double quote is the text itself. -/
theorem eq_of_canonicalSelector_eq {s t : String} (ht : '"' ∉ t.toList)
    (h : canonicalSelector s = t) : s = t := by
  have hrender : render (scan s.toList) = t.toList := by
    rw [← h, canonicalSelector, String.toList_ofList]
  have hself : render (scan s.toList) = s.toList :=
    render_scan_of_not_mem (hrender ▸ ht)
  rw [← String.toList_inj, ← hself, hrender]

end StyleDelta.Text
