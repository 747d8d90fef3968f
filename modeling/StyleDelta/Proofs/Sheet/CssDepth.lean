import StyleDelta.Proofs.Sheet.CssRows

/-!
The CSS text of a node at different depths.

A row of the text moves with its node if it is indented (`Row.line_add_iff`), and all rows are
unless a rule has two selectors (`Node.indents_rows_iff`). Main statement: a step deeper puts four
spaces in front of every line just if no rule has two selectors (`Node.css_nested`); the second
selector stands at the start of its line at any depth (`printRule_selectors`).
-/

namespace StyleDelta

namespace Node

/-- No rule has two selectors, neither the node nor those inside it. -/
inductive OneSelector : Node → Prop
  | rule {r : Rule} (selectors : r.selectors.length ≤ 1) : OneSelector (.rule r)
  | media {query : String} {children : List Node} {span : Span}
      (nodes : ∀ x ∈ children, OneSelector x) : OneSelector (.media query children span)
  | group {kind prelude : String} {children : List Node} {span : Span}
      (nodes : ∀ x ∈ children, OneSelector x) : OneSelector (.group kind prelude children span)
  | comment {c : Comment} : OneSelector (.comment c)
  | other {kind : String} {payload : Json} {span : Span} : OneSelector (.other kind payload span)

end Node

/-! ## Indented rows -/

/-- Every row is indented. -/
def Indents (rows : List Row) : Prop := ∀ r ∈ rows, r.level ≠ none

theorem indents_blockRows {head inside : List Row} :
    Indents (blockRows head inside) ↔ Indents head ∧ Indents inside :=
  forall_mem_blockRows (P := fun r => r.level ≠ none) (fun r => by simp [Row.deeper])
    (by simp [closingRow])

theorem indents_selectorRows (s : String) (more : List String) :
    Indents (selectorRows (some 0) s more) ↔ more = [] := by
  cases more with
  | nil => simp [Indents, selectorRows]
  | cons t more => cases more <;> simp [Indents, selectorRows]

theorem RuleItem.level_row (item : RuleItem) : item.row.level ≠ none := by
  cases item <;> simp [row, declarationRow, commentRow]

theorem Rule.indents_rows (r : Rule) : Indents r.rows ↔ r.selectors.length ≤ 1 := by
  have hitems : Indents (r.items.map RuleItem.row) :=
    List.forall_mem_map.mpr fun item _ => item.level_row
  rw [rows, indents_blockRows, indents_selectorRows, and_iff_left hitems]
  cases r.selectors <;> simp

theorem indents_headRow (kind prelude : String) : Indents [headRow kind prelude] := by
  simp [Indents, headRow]

theorem indents_payloadRows (kind : String) (payload : Json) :
    Indents (payloadRows kind payload) := by
  unfold payloadRows
  split
  next => simp [Indents, statementRow]
  next =>
    refine indents_blockRows.mpr ⟨indents_headRow kind "", ?_⟩
    exact List.forall_mem_map.mpr fun d _ => by simp [declarationRow]

namespace Node

theorem indents_rows_iff (x : Node) : Indents x.rows ↔ x.OneSelector := by
  have hblock {kind prelude : String} {children : List Node}
      (ih : ∀ x ∈ children, Indents x.rows ↔ x.OneSelector) :
      Indents (blockRows [headRow kind prelude] (rowsAll children)) ↔
        ∀ x ∈ children, x.OneSelector := by
    rw [indents_blockRows, and_iff_right (indents_headRow kind prelude)]
    exact forall_mem_rowsAll.trans (forall₂_congr ih)
  induction x using Node.induction with
  | rule r =>
    refine r.indents_rows.trans ⟨.rule, fun h => ?_⟩
    cases h with | rule selectors => exact selectors
  | media query children span ih =>
    refine (hblock ih).trans ⟨.media, fun h => ?_⟩
    cases h with | media nodes => exact nodes
  | group kind prelude children span ih =>
    refine (hblock ih).trans ⟨.group, fun h => ?_⟩
    cases h with | group nodes => exact nodes
  | comment c => exact iff_of_true (by simp [Indents, rows, commentRow]) .comment
  | other kind payload span => exact iff_of_true (indents_payloadRows kind payload) .other

end Node

namespace Row

/-- Indented rows move with their node, and only they do. -/
theorem line_add_iff {k : Nat} (hk : 0 < k) (depth : Nat) (r : Row) :
    r.line (depth + k) = List.replicate (4 * k) ' ' ++ r.line depth ↔ r.level ≠ none := by
  obtain ⟨level, text, mark, _⟩ := r
  cases level with
  | none =>
    constructor
    · intro h
      have hlength := congrArg List.length h
      simp [line] at hlength
      omega
    · simp
  | some n =>
    have hdepth : 4 * (depth + k + n) = 4 * k + 4 * (depth + n) := by omega
    refine iff_of_true ?_ (by simp)
    simp only [line, Option.elim_some, hdepth, List.replicate_add, List.append_assoc]

end Row

/-! ## Deeper nodes -/

namespace Node

variable {x : Node}

theorem toList_indented_css (hx : x.Unbroken) (k depth : Nat) :
    (Text.markLines (indent k) (x.css depth)).toList =
      (x.rows.map fun r => List.replicate (4 * k) ' ' ++ r.line depth).flatMap (· ++ ['\n']) := by
  rw [Text.toList_markLines, lines_css hx, List.map_map, toList_indent]
  rfl

/-- A node that stands deeper is indented line by line just if all its rows are indented. -/
theorem css_add_iff (hx : x.Unbroken) {k : Nat} (hk : 0 < k) (depth : Nat) :
    x.css (depth + k) = Text.markLines (indent k) (x.css depth) ↔ x.OneSelector := by
  rw [← indents_rows_iff, ← String.toList_inj, toList_indented_css hx, x.toList_css, Row.textOf]
  constructor
  · intro h r hr
    have hlines := congrArg Text.lines h
    rw [Text.lines_flatMap, Text.lines_flatMap] at hlines
    · exact (Row.line_add_iff hk depth r).mp (List.map_inj_left.mp hlines r hr)
    · exact List.forall_mem_map.mpr fun r hr => Row.unbroken_line (hx.rows r hr) (4 * k) depth
    · exact List.forall_mem_map.mpr fun r hr => Row.unbroken_line (hx.rows r hr) 0 (depth + k)
  · intro h
    have hlines := List.map_inj_left.mpr fun r hr => (Row.line_add_iff hk depth r).mpr (h r hr)
    rw [hlines]

theorem css_eq_indented (hx : x.Unbroken) (h : x.OneSelector) (depth : Nat) :
    x.css (depth + 1) = Text.markLines (indent (depth + 1)) (x.css 0) := by
  have hadd := (css_add_iff hx (Nat.succ_pos depth) 0).mpr h
  rwa [Nat.zero_add] at hadd

theorem cssAll_eq_join (depth : Nat) (nodes : List Node) :
    cssAll depth nodes = String.join (nodes.map (css depth)) := by
  induction nodes with
  | nil => rfl
  | cons node rest ih => rw [cssAll, ih, List.map_cons, String.join_cons]

theorem cssAll_eq_indented {children : List Node} (hnodes : ∀ x ∈ children, x.Unbroken)
    (h : ∀ x ∈ children, x.OneSelector) (depth : Nat) : cssAll (depth + 1) children =
      String.join (children.map fun x => Text.markLines (indent (depth + 1)) (x.css 0)) := by
  have htexts := List.map_congr_left fun x hx => css_eq_indented (hnodes x hx) (h x hx) depth
  rw [cssAll_eq_join, htexts]

/-- **A node one step deeper has the same lines with four more spaces in front of each**, just if
no rule in it has two selectors; then a block holds the texts of its nodes, indented line by
line. -/
theorem css_nested (hx : x.Unbroken) (depth : Nat) :
    (x.css (depth + 1) = Text.markLines "    " (x.css depth) ↔ x.OneSelector) ∧
      (x.OneSelector → ∀ children, x.children? = some children → ∃ prelude,
        x.css depth = blockHead depth x.kind prelude ++
          String.join (children.map fun child =>
            Text.markLines (indent (depth + 1)) (child.css 0)) ++ indent depth ++ "\x7d\n") := by
  have hindent : indent 1 = "    " := by rfl
  refine ⟨hindent ▸ css_add_iff hx Nat.one_pos depth, fun h children hchildren => ?_⟩
  cases h with
  | rule selectors => cases hchildren
  | @media query nodes span hone =>
    cases hx with | media hquery hnodes =>
    obtain rfl := Option.some.inj hchildren
    exact ⟨query, by rw [css, cssAll_eq_indented hnodes hone, kind]⟩
  | @group block prelude nodes span hone =>
    cases hx with | group hkind hprelude hnodes =>
    obtain rfl := Option.some.inj hchildren
    exact ⟨prelude, by rw [css, cssAll_eq_indented hnodes hone, kind]⟩
  | comment => cases hchildren
  | other => cases hchildren

end Node

/-- A block with one rule. -/
def printRule (selectors : List String) : Node :=
  .media "print" [.rule ⟨selectors, [.declaration ⟨"color", "red", .unknown⟩], .unknown⟩] .unknown

theorem printRule_unbroken {selectors : List String} (h : ∀ s ∈ selectors, '\n' ∉ s.toList) :
    (printRule selectors).Unbroken := by
  have hitem : (RuleItem.declaration ⟨"color", "red", .unknown⟩).Unbroken :=
    ⟨by decide, by decide⟩
  refine .media (by decide) ?_
  exact List.forall_mem_singleton.mpr (.rule h (List.forall_mem_singleton.mpr hitem))

theorem css_nested_printRule :
    let x := printRule [".a"]
    x.Unbroken ∧ x.OneSelector ∧ x.css 2 = Text.markLines "    " (x.css 1) ∧
      ∃ children prelude, x.children? = some children ∧
        x.css 1 = blockHead 1 x.kind prelude ++
          String.join (children.map fun child => Text.markLines (indent 2) (child.css 0)) ++
          indent 1 ++ "\x7d\n" := by
  intro x
  have hx : x.Unbroken := printRule_unbroken (by decide)
  have hone : x.OneSelector := .media (List.forall_mem_singleton.mpr (.rule (by decide)))
  obtain ⟨hlines, hblock⟩ := Node.css_nested hx 1
  obtain ⟨prelude, hcss⟩ := hblock hone _ rfl
  exact ⟨hx, hone, hlines.mpr hone, _, prelude, rfl, hcss⟩

/-- The second selector of a rule stands at the start of its line, however deep the rule is. -/
theorem printRule_selectors :
    let x := printRule [".a", ".b"]
    x.Unbroken ∧
      x.css 0 = "@media print \x7b\n    .a,\n.b \x7b\n        color: red;\n    \x7d\n\x7d\n" ∧
      x.css 1 ≠ Text.markLines "    " (x.css 0) := by
  intro x
  exact ⟨printRule_unbroken (by decide), by decide +kernel, by decide +kernel⟩

end StyleDelta
