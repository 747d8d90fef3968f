import StyleDelta.Proofs.Sheet.CssParts
import StyleDelta.Proofs.Text.Lines

/-!
The rows of the CSS text of a node.

A row is indented by the depth of the node and by the levels that it stands below the node; only
the selectors behind the first one of a rule are not indented at all. The text of a node is that
of its rows (`Node.toList_css`), and if no text in it holds a line feed, its rows are the lines of
the text (`Node.lines_css`). A carriage return does no harm, as every row ends with a mark.
-/

namespace StyleDelta

variable {depth : Nat}

/-! ## Rows -/

/-- A part of CSS text that is written in one go. It ends with a mark, and a line feed follows. -/
structure Row where
  /-- The levels from the node down to the row, if the row is indented. -/
  level : Option Nat
  text : List Char
  mark : Char
  /-- The mark is part of no line break. -/
  visible : mark ≠ '\n' ∧ mark ≠ '\r' := by decide

namespace Row

def line (depth : Nat) (r : Row) : List Char :=
  List.replicate (r.level.elim 0 fun n => 4 * (depth + n)) ' ' ++ r.text ++ [r.mark]

/-- The row inside a block. -/
def deeper (r : Row) : Row := { r with level := r.level.map (· + 1) }

/-- The text of rows at a depth. -/
def textOf (depth : Nat) (rows : List Row) : List Char :=
  (rows.map (line depth)).flatMap (· ++ ['\n'])

theorem line_deeper (depth : Nat) (r : Row) : r.deeper.line depth = r.line (depth + 1) := by
  obtain ⟨level, text, mark, _⟩ := r
  cases level with
  | none => rfl
  | some n =>
    have hdepth : depth + (n + 1) = depth + 1 + n := by omega
    simp [deeper, line, hdepth]

theorem textOf_deeper (depth : Nat) (rows : List Row) :
    textOf depth (rows.map deeper) = textOf (depth + 1) rows := by
  simp [textOf, Function.comp_def, line_deeper]

theorem textOf_append (depth : Nat) (rows more : List Row) :
    textOf depth (rows ++ more) = textOf depth rows ++ textOf depth more := by
  simp [textOf]

end Row

def closingRow : Row where
  level := some 0
  text := []
  mark := '\x7d'

/-- Rows of which the last closes what the first ones open. -/
def blockRows (head inside : List Row) : List Row :=
  head ++ inside.map Row.deeper ++ [closingRow]

def declarationRow (property value : String) : Row where
  level := some 0
  text := property.toList ++ [':', ' '] ++ value.toList
  mark := ';'

def commentRow (text : List Char) : Row where
  level := some 0
  text := ['/', '*'] ++ text ++ ['*']
  mark := '/'

def RuleItem.row : RuleItem → Row
  | .declaration d => declarationRow d.property d.value
  | .comment c => commentRow c.text.toList
  | .other description => commentRow (' ' :: description.compact ++ [' '])

/-- The selectors of a rule, one a row. Those behind the first one are not indented. -/
def selectorRows (level : Option Nat) (s : String) : List String → List Row
  | [] => [{ level, text := s.toList ++ [' '], mark := '\x7b' }]
  | t :: more => { level, text := s.toList, mark := ',' } :: selectorRows none t more

def Rule.rows (r : Rule) : List Row :=
  blockRows (selectorRows (some 0) (r.selectors.headD "") r.selectors.tail)
    (r.items.map RuleItem.row)

def headRow (kind prelude : String) : Row where
  level := some 0
  text := '@' :: kind.toList ++ preludeText prelude ++ [' ']
  mark := '\x7b'

def statementRow (kind prelude : String) : Row where
  level := some 0
  text := '@' :: kind.toList ++ [' '] ++ prelude.toList
  mark := ';'

def payloadRows (kind : String) (payload : Json) : List Row :=
  match payloadPrelude? kind payload with
  | some prelude => [statementRow kind prelude]
  | none => blockRows [headRow kind ""]
      ((describedDeclarations payload).map fun d => declarationRow d.1 d.2)

namespace Node

mutual

/-- What the CSS text of a node is put together from. -/
def rows : Node → List Row
  | rule r => r.rows
  | media query children _ => blockRows [headRow "media" query] (rowsAll children)
  | group kind prelude children _ => blockRows [headRow kind prelude] (rowsAll children)
  | comment c => [commentRow c.text.toList]
  | other kind payload _ => payloadRows kind payload
termination_by structural node => node

def rowsAll : List Node → List Row
  | [] => []
  | node :: rest => rows node ++ rowsAll rest
termination_by structural nodes => nodes

end

theorem rowsAll_eq_flatMap (nodes : List Node) : rowsAll nodes = nodes.flatMap rows := by
  induction nodes with
  | nil => rfl
  | cons node rest ih => rw [rowsAll, ih, List.flatMap_cons]

theorem forall_mem_rowsAll {P : Row → Prop} {nodes : List Node} :
    (∀ r ∈ rowsAll nodes, P r) ↔ ∀ x ∈ nodes, ∀ r ∈ x.rows, P r := by
  simp only [rowsAll_eq_flatMap, List.mem_flatMap, forall_exists_index, and_imp]
  exact forall_comm.trans (forall_congr' fun x => forall_comm)

end Node

/-- What holds of the rows of a block, whatever their levels, holds of what they are made of. -/
theorem forall_mem_blockRows {P : Row → Prop} (hdeeper : ∀ r : Row, P r.deeper ↔ P r)
    (hclosing : P closingRow) {head inside : List Row} :
    (∀ r ∈ blockRows head inside, P r) ↔ (∀ r ∈ head, P r) ∧ ∀ r ∈ inside, P r := by
  simp only [blockRows, List.forall_mem_append, List.forall_mem_map, List.forall_mem_singleton,
    hdeeper, hclosing, and_true]

/-! ## The text of rows -/

theorem textOf_blockRows (depth : Nat) (head inside : List Row) :
    Row.textOf depth (blockRows head inside) =
      Row.textOf depth head ++ (Row.textOf (depth + 1) inside ++ closing depth) := by
  have hclosing : Row.textOf depth [closingRow] = closing depth := by
    simp [closing, closingRow, Row.textOf, Row.line]
  rw [blockRows, Row.textOf_append, Row.textOf_append, Row.textOf_deeper, hclosing,
    List.append_assoc]

theorem textOf_map {α : Type} {row : α → Row} {css : α → List Char} {xs : List α}
    (h : ∀ x ∈ xs, css x = (row x).line depth ++ ['\n']) :
    Row.textOf depth (xs.map row) = xs.flatMap css := by
  rw [Row.textOf, List.map_map, List.flatMap_map]
  exact List.flatMap_congr fun x hx => (h x hx).symm

theorem toList_declarationRow (depth : Nat) (property value : String) :
    (declarationCss depth property value).toList =
      (declarationRow property value).line depth ++ ['\n'] := by
  simp [toList_declarationCss, declarationRow, Row.line]

theorem RuleItem.toList_row (depth : Nat) (item : RuleItem) :
    (item.css depth).toList = item.row.line depth ++ ['\n'] := by
  cases item with
  | declaration d => exact toList_declarationRow depth d.property d.value
  | comment c => simp [css, toList_commentCss, row, commentRow, Row.line]
  | other description => simp [css, toList_indent, row, commentRow, Row.line]

theorem textOf_selectorRows (depth : Nat) (level : Option Nat) (s : String) (more : List String) :
    Row.textOf depth (selectorRows level s more) =
      List.replicate (level.elim 0 fun n => 4 * (depth + n)) ' ' ++
        (s.toList ++ selectorTail more) := by
  induction more generalizing level s with
  | nil => simp [selectorRows, selectorTail, Row.textOf, Row.line]
  | cons t more ih =>
    have htail := ih none t
    rw [Row.textOf] at htail
    simp [selectorRows, selectorTail, Row.textOf, Row.line, htail]

theorem Rule.toList_css (depth : Nat) (r : Rule) :
    (r.css depth).toList = Row.textOf depth r.rows := by
  obtain ⟨selectors, items, span⟩ := r
  have hitems : Row.textOf (depth + 1) (items.map RuleItem.row) =
      items.flatMap fun x => (x.css (depth + 1)).toList :=
    textOf_map fun x _ => x.toList_row (depth + 1)
  rw [rows, textOf_blockRows, textOf_selectorRows, hitems]
  cases selectors with
  | nil =>
    rw [css_withoutSelectors, toList_ruleCss]
    simp
  | cons s more =>
    rw [toList_ruleCss]
    simp

theorem textOf_headRow (depth : Nat) (kind prelude : String) :
    Row.textOf depth [headRow kind prelude] = List.replicate (4 * depth) ' ' ++
      ('@' :: (kind.toList ++ (preludeText prelude ++ [' ', '\x7b', '\n']))) := by
  simp [Row.textOf, Row.line, headRow]

theorem toList_payloadRows (depth : Nat) (kind : String) (payload : Json) :
    (payloadCss depth kind payload).toList = Row.textOf depth (payloadRows kind payload) := by
  rw [toList_payloadCss]
  unfold payloadText payloadRows
  cases payloadPrelude? kind payload with
  | some prelude => simp [Row.textOf, Row.line, statementRow]
  | none =>
    have hinside : Row.textOf (depth + 1)
        ((describedDeclarations payload).map fun d => declarationRow d.1 d.2) =
        (describedDeclarations payload).flatMap
          fun d => (declarationCss (depth + 1) d.1 d.2).toList :=
      textOf_map fun d _ => toList_declarationRow (depth + 1) d.1 d.2
    simp only [textOf_blockRows, textOf_headRow, hinside]
    simp [preludeText]

theorem blockText_eq_rows {children : List Node}
    (ih : ∀ x ∈ children, ∀ depth, (x.css depth).toList = Row.textOf depth x.rows)
    (depth : Nat) (kind prelude : String) : blockText depth kind prelude children =
      Row.textOf depth (blockRows [headRow kind prelude] (Node.rowsAll children)) := by
  have hinside : Row.textOf (depth + 1) (Node.rowsAll children) =
      children.flatMap fun x => (x.css (depth + 1)).toList := by
    rw [Node.rowsAll_eq_flatMap, Row.textOf, List.map_flatMap, List.flatMap_assoc]
    exact List.flatMap_congr fun x hx => (ih x hx (depth + 1)).symm
  rw [textOf_blockRows, textOf_headRow, hinside, blockText]
  simp

/-- The CSS text of a node is that of its rows. -/
theorem Node.toList_css (x : Node) (depth : Nat) :
    (x.css depth).toList = Row.textOf depth x.rows := by
  induction x using Node.induction generalizing depth with
  | rule r => exact r.toList_css depth
  | media query children span ih =>
    rw [toList_css_media, rows, blockText_eq_rows ih]
  | group kind prelude children span ih =>
    rw [toList_css_group, rows, blockText_eq_rows ih]
  | comment c => simp [css, toList_commentCss, rows, commentRow, Row.textOf, Row.line]
  | other kind payload span => exact toList_payloadRows depth kind payload

/-! ## Lines -/

/-- No text of the item holds a line feed. -/
def RuleItem.Unbroken : RuleItem → Prop
  | .declaration d => '\n' ∉ d.property.toList ∧ '\n' ∉ d.value.toList
  | .comment c => '\n' ∉ c.text.toList
  | .other _ => True

/-- No text that is written of the description holds a line feed. -/
def UnbrokenPayload (kind : String) (payload : Json) : Prop :=
  match payloadPrelude? kind payload with
  | some prelude => '\n' ∉ prelude.toList
  | none => ∀ d ∈ describedDeclarations payload, '\n' ∉ d.1.toList ∧ '\n' ∉ d.2.toList

namespace Node

/-- No text of the node or of those inside it holds a line feed. -/
inductive Unbroken : Node → Prop
  | rule {r : Rule} (selectors : ∀ s ∈ r.selectors, '\n' ∉ s.toList)
      (items : ∀ x ∈ r.items, x.Unbroken) : Unbroken (.rule r)
  | media {query : String} {children : List Node} {span : Span} (hquery : '\n' ∉ query.toList)
      (nodes : ∀ x ∈ children, Unbroken x) : Unbroken (.media query children span)
  | group {kind prelude : String} {children : List Node} {span : Span}
      (hkind : '\n' ∉ kind.toList) (hprelude : '\n' ∉ prelude.toList)
      (nodes : ∀ x ∈ children, Unbroken x) : Unbroken (.group kind prelude children span)
  | comment {c : Comment} (text : '\n' ∉ c.text.toList) : Unbroken (.comment c)
  | other {kind : String} {payload : Json} {span : Span} (hkind : '\n' ∉ kind.toList)
      (hpayload : UnbrokenPayload kind payload) : Unbroken (.other kind payload span)

end Node

theorem blockRows_unbroken {head inside : List Row} (hhead : ∀ r ∈ head, '\n' ∉ r.text)
    (hinside : ∀ r ∈ inside, '\n' ∉ r.text) : ∀ r ∈ blockRows head inside, '\n' ∉ r.text :=
  (forall_mem_blockRows (P := fun r => '\n' ∉ r.text) (fun _ => .rfl) List.not_mem_nil).mpr
    ⟨hhead, hinside⟩

theorem declarationRow_unbroken {property value : String} (hproperty : '\n' ∉ property.toList)
    (hvalue : '\n' ∉ value.toList) : '\n' ∉ (declarationRow property value).text := by
  simp [declarationRow, hproperty, hvalue]

theorem commentRow_unbroken {text : List Char} (h : '\n' ∉ text) :
    '\n' ∉ (commentRow text).text := by
  simp [commentRow, h]

theorem RuleItem.row_unbroken {item : RuleItem} (h : item.Unbroken) : '\n' ∉ item.row.text := by
  cases item with
  | declaration d => exact declarationRow_unbroken h.1 h.2
  | comment c => exact commentRow_unbroken h
  | other description =>
    exact commentRow_unbroken (by simp [description.feed_notMem_compact])

theorem selectorRows_unbroken (level : Option Nat) {s : String} {more : List String}
    (h : ∀ t ∈ s :: more, '\n' ∉ t.toList) : ∀ r ∈ selectorRows level s more, '\n' ∉ r.text := by
  induction more generalizing level s with
  | nil => simpa [selectorRows] using h
  | cons t more ih =>
    obtain ⟨hs, hmore⟩ := List.forall_mem_cons.mp h
    exact List.forall_mem_cons.mpr ⟨hs, ih none hmore⟩

theorem headRow_unbroken {kind prelude : String} (hkind : '\n' ∉ kind.toList)
    (hprelude : '\n' ∉ prelude.toList) : ∀ r ∈ [headRow kind prelude], '\n' ∉ r.text := by
  have htext : '\n' ∉ preludeText prelude := by
    unfold preludeText
    split <;> simp [hprelude]
  simp [headRow, hkind, htext]

theorem Rule.rows_unbroken {r : Rule} (hselectors : ∀ s ∈ r.selectors, '\n' ∉ s.toList)
    (hitems : ∀ x ∈ r.items, x.Unbroken) : ∀ row ∈ r.rows, '\n' ∉ row.text := by
  refine blockRows_unbroken (selectorRows_unbroken _ ?_) ?_
  · cases hcases : r.selectors with
    | nil => simp
    | cons s more => simpa [hcases] using hselectors
  · exact List.forall_mem_map.mpr fun x hx => RuleItem.row_unbroken (hitems x hx)

theorem payloadRows_unbroken {kind : String} {payload : Json} (hkind : '\n' ∉ kind.toList)
    (h : UnbrokenPayload kind payload) : ∀ r ∈ payloadRows kind payload, '\n' ∉ r.text := by
  unfold UnbrokenPayload at h
  unfold payloadRows
  cases hprelude : payloadPrelude? kind payload with
  | some prelude =>
    rw [hprelude] at h
    simpa [statementRow, hkind] using h
  | none =>
    rw [hprelude] at h
    refine blockRows_unbroken (headRow_unbroken hkind (by simp)) ?_
    exact List.forall_mem_map.mpr fun d hd => declarationRow_unbroken (h d hd).1 (h d hd).2

namespace Node

theorem Unbroken.rows {x : Node} (h : x.Unbroken) : ∀ r ∈ x.rows, '\n' ∉ r.text := by
  induction x using Node.induction with
  | rule r =>
    cases h with | rule selectors items =>
    exact Rule.rows_unbroken selectors items
  | media query children span ih =>
    cases h with | media hquery nodes =>
    have hchildren := forall_mem_rowsAll.mpr fun x hx => ih x hx (nodes x hx)
    exact blockRows_unbroken (headRow_unbroken (by decide) hquery) hchildren
  | group kind prelude children span ih =>
    cases h with | group hkind hprelude nodes =>
    have hchildren := forall_mem_rowsAll.mpr fun x hx => ih x hx (nodes x hx)
    exact blockRows_unbroken (headRow_unbroken hkind hprelude) hchildren
  | comment c =>
    cases h with | comment text =>
    exact List.forall_mem_singleton.mpr (commentRow_unbroken text)
  | other kind payload span =>
    cases h with | other hkind hpayload =>
    exact payloadRows_unbroken hkind hpayload

end Node

theorem Row.unbroken_line {r : Row} (h : '\n' ∉ r.text) (blanks depth : Nat) :
    '\n' ∉ List.replicate blanks ' ' ++ r.line depth ∧
      (List.replicate blanks ' ' ++ r.line depth).getLast? ≠ some '\r' := by
  have hspaces (n : Nat) : '\n' ∉ List.replicate n ' ' := by simp
  constructor
  · simp only [line, List.mem_append, List.mem_singleton, not_or]
    exact ⟨hspaces blanks, ⟨hspaces _, h⟩, r.visible.1.symm⟩
  · rw [line, ← List.append_assoc, ← List.append_assoc, List.getLast?_concat]
    exact fun hmark => r.visible.2 (Option.some.inj hmark)

/-- The lines of the CSS text of a node without line feeds are its rows. -/
theorem Node.lines_css {x : Node} (hx : x.Unbroken) (depth : Nat) :
    Text.lines (x.css depth).toList = x.rows.map (Row.line depth) := by
  rw [x.toList_css, Row.textOf]
  exact Text.lines_flatMap (List.forall_mem_map.mpr fun r hr =>
    Row.unbroken_line (hx.rows r hr) 0 depth)

end StyleDelta
