import StyleDelta.Text.Lines

/-!
Lines put together and taken apart.

A text that is put together from lines, each with a line feed behind it, has these lines
(`lines_flatMap`), unless one of them holds a line feed or ends with the carriage return that a
line feed takes away. A text that ends with a line feed can be put together again from its lines
(`flatMap_lines`). What a split at the line feeds leaves holds none of them.
-/

namespace StyleDelta.Text

/-! ## Lines -/

theorem feed_notMem_of_mem_lines {text line : List Char} (h : line ∈ lines text) :
    '\n' ∉ line := by
  induction text using lines.induct generalizing line with
  | case1 => cases h
  | case2 rest ih =>
    rcases List.mem_cons.mp h with rfl | h
    · simp
    · exact ih h
  | case3 rest ih =>
    rcases List.mem_cons.mp h with rfl | h
    · simp
    · exact ih h
  | case4 c rest hfeed hreturn hlines ih =>
    rw [lines, hlines] at h
    · obtain rfl := List.mem_singleton.mp h
      exact List.not_mem_cons_of_ne_of_not_mem (Ne.symm hfeed) List.not_mem_nil
    · exact hfeed
    · exact hreturn
  | case5 c rest hfeed hreturn first more hlines ih =>
    rw [lines, hlines] at h
    · rw [hlines] at ih
      rcases List.mem_cons.mp h with rfl | h
      · exact List.not_mem_cons_of_ne_of_not_mem (Ne.symm hfeed) (ih (List.mem_cons_self ..))
      · exact ih (List.mem_cons_of_mem _ h)
    · exact hfeed
    · exact hreturn

/-- A line ends with the first line feed. -/
theorem lines_append_feed {line : List Char} (rest : List Char) (hfeed : '\n' ∉ line)
    (hreturn : line.getLast? ≠ some '\r') : lines (line ++ '\n' :: rest) = line :: lines rest := by
  induction line with
  | nil => rfl
  | cons c line ih =>
    obtain ⟨hc, hline⟩ := not_or.mp (mt List.mem_cons.mpr hfeed)
    have htail := ih hline fun h => hreturn (by simp [List.getLast?_cons, h])
    rw [List.cons_append, lines, htail]
    · exact Ne.symm hc
    · rintro more rfl hmore
      cases line with
      | nil => exact hreturn rfl
      | cons d line => exact hline ((List.cons.inj hmore).1 ▸ List.mem_cons_self ..)

theorem lines_flatMap {ls : List (List Char)}
    (h : ∀ line ∈ ls, '\n' ∉ line ∧ line.getLast? ≠ some '\r') :
    lines (ls.flatMap (· ++ ['\n'])) = ls := by
  induction ls with
  | nil => rfl
  | cons line ls ih =>
    obtain ⟨hline, hls⟩ := List.forall_mem_cons.mp h
    rw [List.flatMap_cons, List.append_assoc, List.singleton_append,
      lines_append_feed _ hline.1 hline.2, ih hls]

theorem lines_eq_nil {text : List Char} (h : lines text = []) : text = [] := by
  unfold lines at h
  split at h
  · rfl
  · cases h
  · cases h
  · split at h <;> cases h

/-- A text that ends with a line feed is its lines, each with a line feed behind it, if no
carriage return is lost. -/
theorem flatMap_lines {text : List Char} (hend : ∀ c ∈ text.getLast?, c = '\n')
    (hreturn : ¬ ['\r', '\n'] <:+: text) : (lines text).flatMap (· ++ ['\n']) = text := by
  have hends {c : Char} {rest : List Char} (h : ∀ d ∈ (c :: rest).getLast?, d = '\n') :
      ∀ d ∈ rest.getLast?, d = '\n' := by
    intro d hd
    cases rest with
    | nil => cases hd
    | cons e rest => exact h d (by rwa [List.getLast?_cons_cons])
  have hreturns {c : Char} {rest : List Char} (h : ¬ ['\r', '\n'] <:+: c :: rest) :
      ¬ ['\r', '\n'] <:+: rest := fun hrest => h (hrest.trans (List.suffix_cons c rest).isInfix)
  induction text using lines.induct with
  | case1 => rfl
  | case2 rest ih =>
    rw [lines, List.flatMap_cons, ih (hends hend) (hreturns hreturn)]
    rfl
  | case3 rest ih => exact absurd ⟨[], rest, rfl⟩ hreturn
  | case4 c rest hfeed hreturnFeed hlines ih =>
    obtain rfl := lines_eq_nil hlines
    obtain rfl := hend c rfl
    exact absurd rfl hfeed
  | case5 c rest hfeed hreturnFeed line more hlines ih =>
    have htail := ih (hends hend) (hreturns hreturn)
    rw [lines, hlines]
    · rw [hlines] at htail
      simpa using htail
    · exact hfeed
    · exact hreturnFeed

/-- Texts that end with a line feed can be told by their lines. -/
theorem lines_injective {s t : List Char} (hs : ∀ c ∈ s.getLast?, c = '\n')
    (hs' : ¬ ['\r', '\n'] <:+: s) (ht : ∀ c ∈ t.getLast?, c = '\n')
    (ht' : ¬ ['\r', '\n'] <:+: t) (h : lines s = lines t) : s = t := by
  rw [← flatMap_lines hs hs', h, flatMap_lines ht ht']

theorem toList_markLines (mark text : String) : (markLines mark text).toList =
    ((lines text.toList).map (mark.toList ++ ·)).flatMap (· ++ ['\n']) := by
  simp [markLines, String.toList_join, List.flatMap_map]

/-! ## Splits at line feeds -/

theorem splitOn_flatMap_append {ls : List (List Char)} (h : ∀ line ∈ ls, '\n' ∉ line)
    (rest : List Char) :
    (ls.flatMap (· ++ ['\n']) ++ rest).splitOn '\n' = ls ++ rest.splitOn '\n' := by
  induction ls with
  | nil => rfl
  | cons line ls ih =>
    obtain ⟨hline, hls⟩ := List.forall_mem_cons.mp h
    rw [List.flatMap_cons, List.append_assoc, List.append_assoc, List.singleton_append,
      List.splitOn_append_cons_self_of_not_mem hline, ih hls, List.cons_append]

theorem feed_notMem_of_mem_splitOn {text piece : List Char} (h : piece ∈ text.splitOn '\n') :
    '\n' ∉ piece := by
  induction text generalizing piece with
  | nil =>
    obtain rfl := List.mem_singleton.mp h
    simp
  | cons c text ih =>
    rw [List.splitOn_cons_eq_if_modifyHead] at h
    obtain ⟨first, more, hsplit⟩ := List.exists_cons_of_ne_nil (List.splitOn_ne_nil '\n' text)
    rw [hsplit] at h ih
    split at h
    next =>
      rcases List.mem_cons.mp h with rfl | h
      · simp
      · exact ih h
    next hc =>
      rcases List.mem_cons.mp h with rfl | h
      · have hne : c ≠ '\n' := by simpa using hc
        exact List.not_mem_cons_of_ne_of_not_mem hne.symm (ih (List.mem_cons_self ..))
      · exact ih (List.mem_cons_of_mem _ h)

end StyleDelta.Text
