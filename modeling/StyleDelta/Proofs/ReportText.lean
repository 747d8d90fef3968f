import StyleDelta.Proofs.Sheet.RoundTrip
import StyleDelta.Proofs.Text.Lines
import StyleDelta.Report

/-!
The lines of the text report.

Below the verdict the report is a list of notes, one for each missing, extra and modified node in
its order. A note has a head, which is a label behind a mark, and below it the lines of CSS texts,
which are all indented (`Note.Indented`). Heads are written as they are, so a line feed in a label
puts a line into the report that is no head and is not indented (`brokenSelector_report`). Main
statement: apart from that the report reads line by line (`textReport_lines`).
-/

namespace StyleDelta

/-- The line does not start with a space. -/
def isFlush (line : List Char) : Bool := line.head? ≠ some ' '

/-- An entry of the text report. -/
structure Note where
  head : List Char
  /-- The lines below the head. -/
  body : List (List Char)

namespace Note

def text (n : Note) : List Char := n.head ++ '\n' :: n.body.flatMap (· ++ ['\n'])

/-- What stands between the line feeds of the text. -/
def lines (n : Note) : List (List Char) := n.head.splitOn '\n' ++ n.body

/-- Only the lines of the body start with a space, and each of them is one line. -/
structure Indented (n : Note) : Prop where
  head : n.head.head? ≠ some ' '
  body : ∀ line ∈ n.body, line.head? = some ' '
  single : ∀ line ∈ n.body, '\n' ∉ line

end Note

/-- The label of a node behind a mark. -/
def Node.marked (mark : Char) (x : Node) : List Char := mark :: ' ' :: x.label.toList

/-- The lines of the CSS text of a node, each behind a mark. -/
def Node.cssLines (mark : String) (x : Node) : List (List Char) :=
  (Text.lines (x.css 0).toList).map (mark.toList ++ ·)

namespace Difference

/-- The first line of the text report. -/
def verdict (d : Difference) : List Char :=
  (if d.changed then "changed: true" else "changed: false").toList

/-- The entries of the text report. -/
def notes (d : Difference) : List Note :=
  d.missing.map (fun x => ⟨x.marked '-', x.cssLines "    "⟩) ++
    d.extra.map (fun x => ⟨x.marked '+', x.cssLines "    "⟩) ++
    d.modified.map (fun m => ⟨m.before.marked '~', m.before.cssLines "  - " ++
      m.after.cssLines "  + "⟩)

/-- The nodes whose labels stand in the heads. -/
def named (d : Difference) : List Node :=
  d.missing ++ d.extra ++ d.modified.map Modification.before

end Difference

/-! ## Notes -/

theorem toList_entryText (mark : String) (c : Char) (x : Node) (h : mark.toList = [c]) :
    (entryText mark x).toList = Note.text ⟨x.marked c, x.cssLines "    "⟩ := by
  simp [entryText, Note.text, Node.marked, Node.cssLines, Text.toList_markLines, h]

theorem Modification.toList_text (m : Modification) : m.text.toList =
    Note.text ⟨m.before.marked '~', m.before.cssLines "  - " ++ m.after.cssLines "  + "⟩ := by
  simp [text, Note.text, Node.marked, Node.cssLines, Text.toList_markLines]

theorem Node.cssLines_indented (mark : String) {rest : List Char}
    (h : mark.toList = ' ' :: rest) (hrest : '\n' ∉ rest) (x : Node) :
    ∀ line ∈ x.cssLines mark, line.head? = some ' ' ∧ '\n' ∉ line := by
  intro line hline
  obtain ⟨css, hcss, rfl⟩ := List.mem_map.mp hline
  simp [h, hrest, Text.feed_notMem_of_mem_lines hcss]

theorem Note.Indented.of_marked {mark : Char} {x : Node} {body : List (List Char)}
    (hmark : mark ≠ ' ') (h : ∀ line ∈ body, line.head? = some ' ' ∧ '\n' ∉ line) :
    Note.Indented ⟨x.marked mark, body⟩ where
  head := by simpa [Node.marked] using hmark
  body line hline := (h line hline).1
  single line hline := (h line hline).2

/-- The text of indented notes, split at its line feeds. -/
theorem Note.splitOn_text {notes : List Note} (h : ∀ n ∈ notes, n.Indented) :
    (notes.flatMap Note.text).splitOn '\n' = notes.flatMap Note.lines ++ [[]] := by
  induction notes with
  | nil => rfl
  | cons n notes ih =>
    obtain ⟨hn, hnotes⟩ := List.forall_mem_cons.mp h
    rw [List.flatMap_cons, text, List.append_assoc, List.cons_append,
      List.splitOn_append_cons_self, Text.splitOn_flatMap_append hn.single, ih hnotes,
      List.flatMap_cons, lines, List.append_assoc, List.append_assoc]

theorem Note.lines_eq_cons {n : Note} (h : '\n' ∉ n.head) : n.lines = n.head :: n.body := by
  rw [lines, List.splitOn_eq_singleton h, List.singleton_append]

theorem Note.filter_lines {n : Note} (hn : n.Indented) (h : '\n' ∉ n.head) :
    n.lines.filter isFlush = [n.head] := by
  have hbody : n.body.filter isFlush = [] := by
    rw [List.filter_eq_nil_iff]
    intro line hline
    simp [isFlush, hn.body line hline]
  rw [lines_eq_cons h, List.filter_cons_of_pos (by simp [isFlush, hn.head]), hbody]

/-- The lines that are not indented are the heads just if each head is one line. -/
theorem Note.filter_lines_iff {notes : List Note} (h : ∀ n ∈ notes, n.Indented) :
    (notes.flatMap lines).filter isFlush = notes.map head ↔ ∀ n ∈ notes, '\n' ∉ n.head := by
  constructor
  · intro heads n hn
    have hhead : n.head ∈ (notes.flatMap lines).filter isFlush :=
      heads ▸ List.mem_map_of_mem hn
    obtain ⟨n', hn', hline⟩ := List.mem_flatMap.mp (List.mem_filter.mp hhead).1
    rcases List.mem_append.mp hline with hline | hline
    · exact Text.feed_notMem_of_mem_splitOn hline
    · exact (h n' hn').single _ hline
  · intro single
    induction notes with
    | nil => rfl
    | cons n notes ih =>
      obtain ⟨hn, hnotes⟩ := List.forall_mem_cons.mp h
      obtain ⟨hsingle, hmore⟩ := List.forall_mem_cons.mp single
      rw [List.flatMap_cons, List.filter_append, filter_lines hn hsingle, ih hnotes hmore,
        List.map_cons, List.singleton_append]

/-! ## The report -/

namespace Difference

variable (d : Difference)

theorem feed_notMem_verdict : '\n' ∉ d.verdict := by
  unfold verdict
  split <;> decide

theorem toList_text : d.text.toList = d.verdict ++ '\n' :: d.notes.flatMap Note.text := by
  have hverdict : (if d.changed then "changed: true\n" else "changed: false\n").toList =
      d.verdict ++ ['\n'] := by
    unfold verdict
    split <;> rfl
  have hmissing : "-".toList = ['-'] := rfl
  have hextra : "+".toList = ['+'] := rfl
  simp only [text, notes, String.toList_append, hverdict, String.toList_join, List.flatMap_map,
    toList_entryText _ _ _ hmissing, toList_entryText _ _ _ hextra, Modification.toList_text,
    List.flatMap_append, List.append_assoc, List.cons_append, List.nil_append]

theorem indented : ∀ n ∈ d.notes, n.Indented := by
  have hentry := Node.cssLines_indented "    " rfl (by decide)
  have hbefore := Node.cssLines_indented "  - " rfl (by decide)
  have hafter := Node.cssLines_indented "  + " rfl (by decide)
  simp only [notes, List.forall_mem_append, List.forall_mem_map]
  refine ⟨⟨fun x _ => .of_marked (by decide) (hentry x), fun x _ => .of_marked (by decide)
    (hentry x)⟩, fun m _ => .of_marked (by decide) ?_⟩
  exact List.forall_mem_append.mpr ⟨hbefore m.before, hafter m.after⟩

theorem single_iff_label :
    (∀ n ∈ d.notes, '\n' ∉ n.head) ↔ ∀ x ∈ d.named, '\n' ∉ x.label.toList := by
  simp [notes, named, Node.marked, or_imp, forall_and, forall_exists_index]

end Difference

/-- **The text report reads line by line as far as its labels do.** -/
theorem textReport_lines (a b : Stylesheet) :
    let d := diff a b
    ∃ lines, d.text.toList.splitOn '\n' = d.verdict :: lines ++ [[]] ∧
      (lines.filter isFlush = d.notes.map Note.head ↔ ∀ x ∈ d.named, '\n' ∉ x.label.toList) ∧
      ((∀ x ∈ d.named, '\n' ∉ x.label.toList) →
        lines = d.notes.flatMap fun n => n.head :: n.body) ∧
      ∀ n ∈ d.notes, n.Indented := by
  intro d
  refine ⟨d.notes.flatMap Note.lines, ?_, ?_, fun h => ?_, d.indented⟩
  · rw [d.toList_text, List.splitOn_append_cons_self_of_not_mem d.feed_notMem_verdict,
      Note.splitOn_text d.indented, List.cons_append]
  · rw [Note.filter_lines_iff d.indented, d.single_iff_label]
  · exact List.flatMap_congr fun n hn => Note.lines_eq_cons (d.single_iff_label.mpr h n hn)

/-- A sheet of one rule whose selector goes on in a second line. -/
def brokenSelector : Stylesheet := ⟨[.rule ⟨["nav\na"], [], .unknown⟩]⟩

/-- A line feed in a selector makes two lines of one head. -/
theorem brokenSelector_report :
    Stylesheet.ofJson (Stylesheet.toJson ∅) = .ok ∅ ∧
      Stylesheet.ofJson brokenSelector.toJson = .ok brokenSelector ∧
      let d := diff ∅ brokenSelector
      d.text = "changed: true\n+ nav\na\n    nav\n    a \x7b\n    \x7d\n" ∧
        d.notes.length = 1 ∧
        ∃ lines, d.text.toList.splitOn '\n' = d.verdict :: lines ++ [[]] ∧
          lines.filter isFlush = ["+ nav".toList, "a".toList] ∧
          lines.filter isFlush ≠ d.notes.map Note.head := by
  refine ⟨by rfl, by rfl, by decide +kernel, by rfl, ?_⟩
  exact ⟨["+ nav".toList, "a".toList, "    nav".toList, "    a \x7b".toList, "    \x7d".toList],
    by decide +kernel, by decide +kernel, by decide +kernel⟩

end StyleDelta
