import Mathlib.Logic.ExistsUnique
import StyleDelta.Proofs.Text.Canonical

/-!
The reading of a text, said as a relation.

`Reads` says item by item how a text may be taken apart, without a word on how to do it,
and an item keeps the quote that opens a string. Every text has exactly one reading
(`exists_reads`, `Reads.unique`), and up to the sort of quotes it is what a scan gives
(`Reads.scan_eq`). The canonical spelling is read as the text is, with double quotes
(`reads_canonicalSelector`). Main statement: `canonicalSelector_reading`.
-/

namespace StyleDelta.Text

/-! ## Readings -/

/-- An item of a text; a string has the quote that opens it. -/
inductive Item where
  | plain (c : Char)
  | pair (c : Char)
  | backslash
  | quoted (quote : Char) (content : List Piece) (closed : Bool)
  deriving DecidableEq, Repr

/-- The item without the sort of its quote. -/
def Item.token : Item → Token
  | plain c => .plain c
  | pair c => .pair c
  | backslash => .backslash
  | quoted _ content closed => .quoted content closed

/-- After the quote that opens it, a string has some content, is closed or runs to the
end of the text, and is followed by the rest of the text. -/
inductive ReadsString (quote : Char) : List Char → List Piece → Bool → List Char → Prop
  | close (rest : List Char) : ReadsString quote (quote :: rest) [] true rest
  | unclosed : ReadsString quote [] [] false []
  | backslash : ReadsString quote ['\\'] [.backslash] false []
  | escapedQuote {c : Char} {text rest : List Char} {content : List Piece} {closed : Bool}
      (hc : isQuote c = true) (h : ReadsString quote text content closed rest) :
      ReadsString quote ('\\' :: c :: text) (.char c :: content) closed rest
  | pair {c : Char} {text rest : List Char} {content : List Piece} {closed : Bool}
      (hc : isQuote c = false) (h : ReadsString quote text content closed rest) :
      ReadsString quote ('\\' :: c :: text) (.pair c :: content) closed rest
  | char {c : Char} {text rest : List Char} {content : List Piece} {closed : Bool}
      (hc : c ≠ '\\') (hquote : c ≠ quote) (h : ReadsString quote text content closed rest) :
      ReadsString quote (c :: text) (.char c :: content) closed rest

/-- The items of a text. -/
inductive Reads : List Char → List Item → Prop
  | nil : Reads [] []
  | backslash : Reads ['\\'] [.backslash]
  | pair (c : Char) {text : List Char} {items : List Item} (h : Reads text items) :
      Reads ('\\' :: c :: text) (.pair c :: items)
  | string {quote : Char} {text rest : List Char} {content : List Piece} {closed : Bool}
      {items : List Item} (hquote : isQuote quote = true)
      (hcontent : ReadsString quote text content closed rest) (h : Reads rest items) :
      Reads (quote :: text) (.quoted quote content closed :: items)
  | plain {c : Char} {text : List Char} {items : List Item} (hc : c ≠ '\\')
      (hquote : isQuote c = false) (h : Reads text items) :
      Reads (c :: text) (.plain c :: items)

/-- Two texts are read the same, whatever quotes open their strings. -/
def ReadAlike (s t : String) : Prop :=
  ∃ items items', Reads s.toList items ∧ Reads t.toList items' ∧
    items.map Item.token = items'.map Item.token

/-! ## One reading -/

theorem ne_backslash_of_isQuote {c : Char} (h : isQuote c = true) : c ≠ '\\' := by
  rintro rfl
  revert h
  decide

theorem ReadsString.unique {quote : Char} (hquote : isQuote quote = true)
    {text rest rest' : List Char} {content content' : List Piece} {closed closed' : Bool}
    (h : ReadsString quote text content closed rest)
    (h' : ReadsString quote text content' closed' rest') :
    content = content' ∧ closed = closed' ∧ rest = rest' := by
  have hslash := ne_backslash_of_isQuote hquote
  induction h generalizing content' with
  | close rest =>
    cases h' with
    | close => exact ⟨rfl, rfl, rfl⟩
    | char _ hne => exact absurd rfl hne
    | _ => exact absurd rfl hslash
  | unclosed =>
    cases h'
    exact ⟨rfl, rfl, rfl⟩
  | backslash =>
    cases h' with
    | close => exact absurd rfl hslash
    | backslash => exact ⟨rfl, rfl, rfl⟩
    | char hne => exact absurd rfl hne
  | escapedQuote hc _ ih =>
    cases h' with
    | close => exact absurd rfl hslash
    | escapedQuote _ h' =>
      obtain ⟨rfl, rfl, rfl⟩ := ih h'
      exact ⟨rfl, rfl, rfl⟩
    | pair hc' => simp [hc] at hc'
    | char hne => exact absurd rfl hne
  | pair hc _ ih =>
    cases h' with
    | close => exact absurd rfl hslash
    | escapedQuote hc' => simp [hc] at hc'
    | pair _ h' =>
      obtain ⟨rfl, rfl, rfl⟩ := ih h'
      exact ⟨rfl, rfl, rfl⟩
    | char hne => exact absurd rfl hne
  | char hc hne _ ih =>
    cases h' with
    | close => exact absurd rfl hne
    | char _ _ h' =>
      obtain ⟨rfl, rfl, rfl⟩ := ih h'
      exact ⟨rfl, rfl, rfl⟩
    | _ => exact absurd rfl hc

theorem Reads.unique {text : List Char} {items items' : List Item} (h : Reads text items)
    (h' : Reads text items') : items = items' := by
  induction h generalizing items' with
  | nil =>
    cases h'
    rfl
  | backslash =>
    cases h' with
    | backslash => rfl
    | string hquote => exact absurd rfl (ne_backslash_of_isQuote hquote)
    | plain hc => exact absurd rfl hc
  | pair c _ ih =>
    cases h' with
    | pair _ h' => rw [ih h']
    | string hquote => exact absurd rfl (ne_backslash_of_isQuote hquote)
    | plain hc => exact absurd rfl hc
  | string hquote hcontent _ ih =>
    cases h' with
    | string _ hcontent' h' =>
      obtain ⟨rfl, rfl, rfl⟩ := hcontent.unique hquote hcontent'
      rw [ih h']
    | plain _ hplain => simp [hquote] at hplain
    | _ => exact absurd rfl (ne_backslash_of_isQuote hquote)
  | plain hc hplain _ ih =>
    cases h' with
    | string hquote => simp [hquote] at hplain
    | plain _ _ h' => rw [ih h']
    | _ => exact absurd rfl hc

theorem exists_reads_and_string :
    (∀ text, ∃ items, Reads text items) ∧
      ∀ (quote : Char) (text : List Char), ∃ content closed rest items,
        ReadsString quote text content closed rest ∧ Reads rest items := by
  -- the induction is that of the scan, whose cases are the rules of the reading
  refine scan.mutual_induct _ _ ?_ ?_ ?_ ?_ ?_ ?_ ?_ ?_ ?_ ?_
  · exact ⟨_, .nil⟩
  · exact ⟨_, .backslash⟩
  · rintro c rest ⟨items, h⟩
    exact ⟨_, .pair c h⟩
  · rintro c rest _ _ hq _ _ _ _ ⟨content, closed, after, items, hcontent, h⟩
    exact ⟨_, .string hq hcontent h⟩
  · rintro c rest hend hpair hq ⟨items, h⟩
    exact ⟨_, .plain (ne_backslash hend hpair) (by simpa using hq) h⟩
  · intro quote
    exact ⟨_, _, _, _, .unclosed, .nil⟩
  · intro quote
    exact ⟨_, _, _, _, .backslash, .nil⟩
  · rintro quote c rest _ _ _ ⟨content, closed, after, items, hcontent, h⟩
    cases hc : isQuote c with
    | true => exact ⟨_, _, _, _, .escapedQuote hc hcontent, h⟩
    | false => exact ⟨_, _, _, _, .pair hc hcontent, h⟩
  · rintro c rest _ _ ⟨items, h⟩
    exact ⟨_, _, _, _, .close rest, h⟩
  · rintro quote c rest hend hpair hne _ _ _ ⟨content, closed, after, items, hcontent, h⟩
    exact ⟨_, _, _, _, .char (ne_backslash hend hpair) hne hcontent, h⟩

/-- Every text has a reading. -/
theorem exists_reads (text : List Char) : ∃ items, Reads text items :=
  exists_reads_and_string.1 text

/-! ## What a scan gives -/

theorem ReadsString.scanString_eq {quote : Char} {text rest : List Char} {content : List Piece}
    {closed : Bool} (hquote : isQuote quote = true)
    (h : ReadsString quote text content closed rest) :
    scanString quote text = (content, closed, scan rest) := by
  induction h with
  | close rest => exact scanString_quote (ne_backslash_of_isQuote hquote) rest
  | unclosed => rfl
  | backslash => rfl
  | escapedQuote hc _ ih => simp [scanString, ih, Piece.escaped, hc]
  | pair hc _ ih => simp [scanString, ih, Piece.escaped, hc]
  | char hc hne _ ih => rw [scanString_char hc hne, ih]

/-- A scan gives the reading, up to the sort of quotes. -/
theorem Reads.scan_eq {text : List Char} {items : List Item} (h : Reads text items) :
    scan text = items.map Item.token := by
  induction h with
  | nil => rfl
  | backslash => rfl
  | pair c _ ih => rw [scan, ih]; rfl
  | string hquote hcontent _ ih =>
    rw [scan_quote hquote, hcontent.scanString_eq hquote, ih]
    rfl
  | plain hc hquote _ ih =>
    rw [scan_plain hc hquote, ih]
    rfl

theorem readAlike_iff (s t : String) : ReadAlike s t ↔ scan s.toList = scan t.toList := by
  constructor
  · rintro ⟨items, items', h, h', htokens⟩
    rw [h.scan_eq, h'.scan_eq, htokens]
  · intro hscan
    obtain ⟨items, h⟩ := exists_reads s.toList
    obtain ⟨items', h'⟩ := exists_reads t.toList
    refine ⟨items, items', h, h', ?_⟩
    rw [← h.scan_eq, ← h'.scan_eq, hscan]

/-! ## What is written is read -/

/-- The item that is written for a token. -/
def Token.item : Token → Item
  | .plain c => .plain c
  | .pair c => .pair c
  | .backslash => .backslash
  | .quoted content closed => .quoted '"' content closed

theorem readsString_render {content : List Piece} {closed : Bool}
    (h : Piece.Readable closed content) {rest : List Char} (hrest : closed = false → rest = []) :
    ReadsString '"' (content.flatMap Piece.render ++ ((if closed then ['"'] else []) ++ rest))
      content closed rest := by
  induction content with
  | nil =>
    cases closed with
    | true => exact .close rest
    | false =>
      rw [hrest rfl]
      exact .unclosed
  | cons piece content ih =>
    cases piece with
    | char c =>
      obtain ⟨hc, hcontent⟩ := h
      rw [List.flatMap_cons, List.append_assoc, Piece.render]
      split
      · rename_i hquote
        subst hquote
        exact .escapedQuote rfl (ih hcontent)
      · rename_i hquote
        exact .char hc hquote (ih hcontent)
    | pair c =>
      obtain ⟨hc, hcontent⟩ := h
      rw [List.flatMap_cons, List.append_assoc, Piece.render]
      exact .pair hc (ih hcontent)
    | backslash =>
      obtain ⟨rfl, rfl⟩ := h
      rw [hrest rfl]
      exact .backslash

theorem reads_render {tokens : List Token} (h : Token.Readable tokens) :
    Reads (render tokens) (tokens.map Token.item) := by
  induction tokens with
  | nil => exact .nil
  | cons token tokens ih =>
    cases token with
    | plain c =>
      obtain ⟨hc, hquote, hrest⟩ := h
      exact .plain hc hquote (ih hrest)
    | pair c => exact .pair c (ih h)
    | backslash =>
      have hnil : tokens = [] := h
      subst hnil
      exact .backslash
    | quoted content closed =>
      obtain ⟨hcontent, hopen, hrest⟩ := h
      have hnil : closed = false → render tokens = [] := fun hc => by rw [hopen hc]; rfl
      have htext : render (.quoted content closed :: tokens) =
          '"' :: (content.flatMap Piece.render ++
            ((if closed then ['"'] else []) ++ render tokens)) := by
        simp [render, Token.render]
      rw [htext]
      exact .string rfl (readsString_render hcontent hnil) (ih hrest)

/-- The canonical spelling is read as the text, with double quotes. -/
theorem reads_canonicalSelector (s : String) :
    Reads (canonicalSelector s).toList ((scan s.toList).map Token.item) := by
  rw [canonicalSelector, String.toList_ofList]
  exact reads_render (readable_scan s.toList)

/-- **Respelling keeps the reading and merges nothing else.** Every text has one reading;
that of its canonical spelling is the same, with double quotes only; and texts have one
canonical spelling exactly if they are read alike. -/
theorem canonicalSelector_reading (s t : String) :
    (∃! items, Reads s.toList items) ∧
      ReadAlike (canonicalSelector s) s ∧
      (∀ items, Reads (canonicalSelector s).toList items →
        ∀ quote content closed, .quoted quote content closed ∈ items → quote = '"') ∧
      (canonicalSelector s = canonicalSelector t ↔ ReadAlike s t) := by
  have hscan : ∀ u, scan (canonicalSelector u).toList = scan u.toList := by
    intro u
    rw [canonicalSelector, String.toList_ofList, scan_render (readable_scan u.toList)]
  refine ⟨?_, ?_, ?_, ?_⟩
  · obtain ⟨items, h⟩ := exists_reads s.toList
    exact ⟨items, h, fun items' h' => h'.unique h⟩
  · rw [readAlike_iff, hscan]
  · intro items h quote content closed hmem
    rw [h.unique (reads_canonicalSelector s)] at hmem
    obtain ⟨token, -, htoken⟩ := List.mem_map.mp hmem
    cases token <;> cases htoken
    rfl
  · rw [readAlike_iff]
    constructor
    · intro h
      rw [← hscan s, ← hscan t, h]
    · intro h
      rw [canonicalSelector, canonicalSelector, h]

/-- A quote of the other sort inside a string, an escaped one and an open string. -/
example : ReadAlike "[a='x\"y\\'']" "[a=\"x\\\"y'\"]" ∧ ¬ ReadAlike "'a" "'a'" := by
  rw [readAlike_iff, readAlike_iff]
  decide

end StyleDelta.Text
