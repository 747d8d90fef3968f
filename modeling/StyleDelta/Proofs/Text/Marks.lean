import StyleDelta.Proofs.Text.Canonical

/-!
Where a text ends that stands in front of others.

A text that is followed by a mark ends where the mark stands for the first time, if the text
does not hold the mark itself (`eq_of_marked`). Two texts of one canonical spelling end at the
same place whatever follows them (`eq_of_canonicalSelector_of_append`).
-/

namespace StyleDelta.Text

/-- The text holds the mark nowhere. -/
def Lacks (mark text : String) : Prop := ¬ mark.toList <:+: text.toList

instance (mark text : String) : Decidable (Lacks mark text) :=
  inferInstanceAs (Decidable (¬ mark.toList <:+: text.toList))

/-! ## Marks -/

section

variable {c : Char} {w w' s t r r' : List Char}

/-- A mark that is passed lies in the text before the other one. -/
theorem infix_of_passed (hc : c ∉ w') (h : t ++ w' = s ++ (w ++ c :: r)) : w ++ [c] <:+: t := by
  have hassoc : t ++ w' = s ++ w ++ c :: r := by rw [h, List.append_assoc]
  rcases List.append_eq_append_iff.mp hassoc with ⟨more, -, hw⟩ | ⟨more, ht, hw⟩
  · rw [hw] at hc
    exact absurd (List.mem_append_right more (List.mem_cons_self ..)) hc
  · cases more with
    | nil =>
      rw [List.nil_append] at hw
      rw [← hw] at hc
      exact absurd (List.mem_cons_self ..) hc
    | cons d more =>
      obtain ⟨rfl, -⟩ := List.cons.inj hw
      exact ⟨s, more, by simp [ht]⟩

/-- Texts that do not hold the other's mark end together. A mark ends with the character `c`,
which stands nowhere else in it. -/
theorem eq_of_marked (w w' : List Char) (c : Char) (hc : c ∉ w) (hc' : c ∉ w')
    (hs : ¬ w' ++ [c] <:+: s) (ht : ¬ w ++ [c] <:+: t)
    (h : s ++ (w ++ c :: r) = t ++ (w' ++ c :: r')) : s ++ w = t ++ w' ∧ r = r' := by
  have hassoc : s ++ w ++ c :: r = t ++ w' ++ c :: r' := by
    rw [List.append_assoc, List.append_assoc, h]
  rcases List.append_eq_append_iff.mp hassoc with ⟨more, heq, hrest⟩ | ⟨more, heq, hrest⟩
  · cases more with
    | nil => exact ⟨by rw [heq, List.append_nil], (List.cons.inj hrest).2⟩
    | cons d more =>
      obtain ⟨rfl, -⟩ := List.cons.inj hrest
      rw [List.append_assoc] at heq
      exact absurd (infix_of_passed hc' heq) ht
  · cases more with
    | nil => exact ⟨by rw [heq, List.append_nil], (List.cons.inj hrest).2.symm⟩
    | cons d more =>
      obtain ⟨rfl, -⟩ := List.cons.inj hrest
      rw [List.append_assoc] at heq
      exact absurd (infix_of_passed hc heq) hs

/-- The same mark on both sides. -/
theorem eq_of_mark (w : List Char) (c : Char) (hc : c ∉ w) (hs : ¬ w ++ [c] <:+: s)
    (ht : ¬ w ++ [c] <:+: t) (h : s ++ (w ++ c :: r) = t ++ (w ++ c :: r')) : s = t ∧ r = r' := by
  obtain ⟨htext, hrest⟩ := eq_of_marked w w c hc hc hs ht h
  exact ⟨List.append_cancel_right htext, hrest⟩

end

/-! ## Canonical spellings -/

theorem scan_eq_nil {text : List Char} (h : scan text = []) : text = [] := by
  unfold scan at h
  split at h
  · rfl
  · cases h
  · cases h
  · split at h <;> cases h

theorem scanString_eq_nil {quote : Char} {text : List Char}
    (h : scanString quote text = ([], false, [])) : text = [] := by
  unfold scanString at h
  split at h
  · rfl
  · cases h
  · cases h
  · split at h <;> cases h

/-- No longer text has the tokens of a text, also from inside a string. -/
theorem scan_append_and_string :
    (∀ text more, scan (text ++ more) = scan text → more = []) ∧
      ∀ (quote : Char) (text more), scanString quote (text ++ more) = scanString quote text →
        more = [] := by
  refine scan.mutual_induct (fun text => ∀ more, scan (text ++ more) = scan text → more = [])
    (fun quote text => ∀ more, scanString quote (text ++ more) = scanString quote text → more = [])
    ?_ ?_ ?_ ?_ ?_ ?_ ?_ ?_ ?_ ?_
  · intro more h
    exact scan_eq_nil h
  · intro more h
    cases more with
    | nil => rfl
    | cons c rest => cases h
  · intro c rest ih more h
    exact ih more (List.cons.inj h).2
  · intro c rest _ _ hq _ _ _ _ ih more h
    rw [List.cons_append, scan_quote hq, scan_quote hq] at h
    obtain ⟨hquoted, hrest⟩ := List.cons.inj h
    obtain ⟨hcontent, hclosed⟩ := Token.quoted.inj hquoted
    exact ih more (Prod.ext hcontent (Prod.ext hclosed hrest))
  · intro c rest hend hpair hq ih more h
    have hc := ne_backslash hend hpair
    have hf : isQuote c = false := by simpa using hq
    rw [List.cons_append, scan_plain hc hf, scan_plain hc hf] at h
    exact ih more (List.cons.inj h).2
  · intro quote more h
    exact scanString_eq_nil h
  · intro quote more h
    cases more with
    | nil => rfl
    | cons c rest =>
      have hpiece : Piece.escaped c = .backslash := (List.cons.inj (Prod.ext_iff.mp h).1).1
      unfold Piece.escaped at hpiece
      split at hpiece <;> cases hpiece
  · intro quote c rest _ _ _ ih more h
    obtain ⟨hcontent, hafter⟩ := Prod.ext_iff.mp h
    exact ih more (Prod.ext (List.cons.inj hcontent).2 hafter)
  · intro c rest hend hpair ih more h
    have hc := ne_backslash hend hpair
    rw [List.cons_append, scanString_quote hc, scanString_quote hc] at h
    exact ih more (Prod.ext_iff.mp (Prod.ext_iff.mp h).2).2
  · intro quote c rest hend hpair hne _ _ _ ih more h
    have hc := ne_backslash hend hpair
    rw [List.cons_append, scanString_char hc hne, scanString_char hc hne] at h
    obtain ⟨hcontent, hafter⟩ := Prod.ext_iff.mp h
    exact ih more (Prod.ext (List.cons.inj hcontent).2 hafter)

theorem eq_nil_of_scan_append (text more : List Char) (h : scan (text ++ more) = scan text) :
    more = [] := scan_append_and_string.1 text more h

/-- **Texts of one canonical spelling end together**, whatever stands behind them. -/
theorem eq_of_canonicalSelector_of_append {s t : String} {r r' : List Char}
    (h : canonicalSelector s = canonicalSelector t) (htext : s.toList ++ r = t.toList ++ r') :
    s = t ∧ r = r' := by
  have hscan := scan_eq_of_canonicalSelector h
  rcases List.append_eq_append_iff.mp htext with ⟨more, ht, hrest⟩ | ⟨more, hs, hrest⟩
  · obtain rfl := eq_nil_of_scan_append s.toList more (by rw [← ht, hscan])
    rw [List.append_nil] at ht
    exact ⟨String.toList_inj.mp ht.symm, by simpa using hrest⟩
  · obtain rfl := eq_nil_of_scan_append t.toList more (by rw [← hs, hscan])
    rw [List.append_nil] at hs
    exact ⟨String.toList_inj.mp hs, by simpa using hrest.symm⟩

end StyleDelta.Text
