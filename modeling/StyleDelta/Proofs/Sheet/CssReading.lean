import StyleDelta.Proofs.Layers
import StyleDelta.Proofs.Sheet.CssParts

/-!
The reading of the CSS text of a node.

A node is `Plain` if its own parts and those of all nodes inside it are, and if it shows what
sort of node it is. The text of a plain node can be told from whatever follows it, and what
counts of the node can be read from the text, apart from what at-rules of no known shape do not
write (`Node.readable`).
-/

namespace StyleDelta

open Text (Lacks eq_of_mark)

variable {rest rest' : List Char} {depth : Nat}

/-- Nodes of which every text ends where it seems to, and that show what sort of node they
are. -/
inductive Node.Plain : Node → Prop
  | rule {r : Rule} (selectors : PlainSelectors r.selectors) (items : ∀ x ∈ r.items, x.Plain) :
      Plain (.rule r)
  | media {query : String} {children : List Node} {span : Span}
      (hquery : Lacks " \x7b\n" (" " ++ query)) (nodes : ∀ x ∈ children, Plain x) :
      Plain (.media query children span)
  | group {kind prelude : String} {children : List Node} {span : Span}
      (hkind : ' ' ∉ kind.toList) (hprelude : Lacks " \x7b\n" (" " ++ prelude))
      (nodes : ∀ x ∈ children, Plain x) : Plain (.group kind prelude children span)
  | comment {c : Comment} (text : Lacks "*/\n" c.text) : Plain (.comment c)
  | other {kind : String} {payload : Json} {span : Span} (hkind : ' ' ∉ kind.toList)
      (hblock : ∀ block ∈ blockTypes, ¬ block.toList <:+ kind.toList)
      (hpayload : PlainPayload kind payload) : Plain (.other kind payload span)

/-! ## Sorts of nodes -/

namespace Node

/-- What tells the sort of a node: `@` and its name of an at-rule, `/*` of a comment. -/
def opening : Node → List Char
  | rule _ => []
  | media _ _ _ => '@' :: "media".toList
  | group kind _ _ _ => '@' :: kind.toList
  | comment _ => ['/', '*']
  | other kind _ _ => '@' :: kind.toList

/-- The opening that a text starts with. -/
def openingOf : List Char → List Char
  | '@' :: text => '@' :: text.takeWhile (· ≠ ' ')
  | '/' :: '*' :: _ => ['/', '*']
  | _ => []

theorem openingOf_at {kind : List Char} (hkind : ' ' ∉ kind) (text : List Char) :
    openingOf ('@' :: (kind ++ ' ' :: text)) = '@' :: kind := by
  have hchars : ∀ c ∈ kind, decide (c ≠ ' ') = true := by
    intro c hc
    exact decide_eq_true fun h => hkind (h ▸ hc)
  rw [openingOf, List.takeWhile_append_of_pos hchars]
  simp

theorem openingOf_selector {s : List Char} (hat : ¬ ['@'] <+: s) (hremark : ¬ ['/', '*'] <+: s)
    {c : Char} (hc : c = ' ' ∨ c = ',') (text : List Char) : openingOf (s ++ c :: text) = [] := by
  unfold openingOf
  split
  next tail h =>
    cases s with
    | nil =>
      rcases hc with rfl | rfl <;> cases h
    | cons x s =>
      obtain ⟨rfl, -⟩ := List.cons.inj h
      exact absurd (by simp) hat
  next tail h =>
    rcases hc with rfl | rfl <;>
      exact absurd (prefix_of_append (by decide) (by decide) h) hremark
  next => rfl

theorem selectorTail_eq_cons (selectors : List String) :
    ∃ c text, selectorTail selectors = c :: text ∧ (c = ' ' ∨ c = ',') := by
  cases selectors with
  | nil => exact ⟨' ', _, rfl, .inl rfl⟩
  | cons s rest => exact ⟨',', _, rfl, .inr rfl⟩

theorem preludeText_eq_cons (prelude : String) (text : List Char) :
    ∃ text', preludeText prelude ++ ' ' :: text = ' ' :: text' := by
  unfold preludeText
  split
  next => exact ⟨text, rfl⟩
  next => exact ⟨_, rfl⟩

theorem opening_blockText {kind : String} (hkind : ' ' ∉ kind.toList) (depth : Nat)
    (prelude : String) (children : List Node) : ∃ body,
      blockText depth kind prelude children = List.replicate (4 * depth) ' ' ++ body ∧
        ∀ rest, openingOf (body ++ rest) = '@' :: kind.toList := by
  refine ⟨_, rfl, fun rest => ?_⟩
  obtain ⟨text, htext⟩ := preludeText_eq_cons prelude ('\x7b' :: '\n' ::
    (children.flatMap (fun x => (x.css (depth + 1)).toList) ++ closing depth))
  rw [htext, List.cons_append, List.append_assoc, List.cons_append, openingOf_at hkind]

/-- The text of a plain node shows, after its indentation, what sort of node it is. -/
theorem opening_css {x : Node} (hx : x.Plain) (depth : Nat) : ∃ body,
    (x.css depth).toList = List.replicate (4 * depth) ' ' ++ body ∧
      ∀ rest, openingOf (body ++ rest) = x.opening := by
  cases hx with
  | @rule r hselectors hitems =>
    obtain ⟨selectors, items, span⟩ := r
    obtain ⟨s, more, rfl⟩ := List.exists_cons_of_ne_nil hselectors.ne_nil
    obtain ⟨c, text, htext, hc⟩ := selectorTail_eq_cons more
    obtain ⟨hat, hremark⟩ := hselectors.first s rfl
    refine ⟨_, toList_ruleCss depth s more items span, fun rest => ?_⟩
    rw [htext, List.append_assoc, List.append_assoc, List.cons_append]
    exact openingOf_selector hat hremark hc _
  | @media query children span hquery nodes =>
    rw [toList_css_media]
    exact opening_blockText (by decide) depth query children
  | @group kind prelude children span hkind hprelude nodes =>
    rw [toList_css_group]
    exact opening_blockText hkind depth prelude children
  | @comment c text => exact ⟨_, toList_commentCss depth c.text, fun rest => rfl⟩
  | @other kind payload span hkind hblock hpayload =>
    refine ⟨_, toList_payloadCss depth kind payload, fun rest => ?_⟩
    rw [List.cons_append, List.append_assoc, List.cons_append, openingOf_at hkind]
    rfl

theorem opening_eq {x y : Node} (hx : x.Plain) (hy : y.Plain)
    (h : (x.css depth).toList ++ rest = (y.css depth).toList ++ rest') : x.opening = y.opening := by
  obtain ⟨body, hbody, hopening⟩ := opening_css hx depth
  obtain ⟨body', hbody', hopening'⟩ := opening_css hy depth
  rw [hbody, hbody', List.append_assoc, List.append_assoc] at h
  rw [← hopening rest, ← hopening' rest', List.append_cancel_left h]

/-- Blocks do not have the names of other at-rules. -/
theorem media_ne_group {kind prelude query : String} {xs ys : List Node} {s t : Span}
    (hload : (group kind prelude xs s).Loadable) :
    (media query ys t).opening ≠ (group kind prelude xs s).opening := by
  cases hload with | @group vendor block _ _ _ hblock _ _ =>
  intro h
  have hkind : "media".toList = vendor.toList ++ block.toList := by
    simpa [opening] using h
  have hsuffix : ∀ block ∈ blockTypes, ¬ block.toList <:+ "media".toList := by decide
  exact hsuffix block hblock ⟨_, hkind.symm⟩

theorem media_ne_other {kind query : String} {payload : Json} {xs : List Node} {s t : Span}
    (hload : (other kind payload s).Loadable) :
    (media query xs t).opening ≠ (other kind payload s).opening := by
  cases hload with | other hkind _ _ _ =>
  intro h
  obtain rfl := String.toList_inj.mp (List.cons.inj h).2
  exact hkind (by decide)

theorem group_ne_other {kind kind' prelude : String} {payload : Json} {xs : List Node} {s t : Span}
    (hload : (group kind prelude xs s).Loadable) (hplain : (other kind' payload t).Plain) :
    (group kind prelude xs s).opening ≠ (other kind' payload t).opening := by
  cases hload with | @group vendor block _ _ _ hmem _ _ =>
  cases hplain with | other _ hblock _ =>
  intro h
  have hkind : vendor.toList ++ block.toList = kind'.toList := by
    simpa [opening] using h
  exact hblock block hmem ⟨_, hkind⟩

/-- Two plain nodes of one text are of one sort, and at-rules have one name. -/
theorem sameVariant_of_css {x y : Node} (hx : x.Plain) (hy : y.Plain) (hxload : x.Loadable)
    (hyload : y.Loadable) (h : (x.css depth).toList ++ rest = (y.css depth).toList ++ rest') :
    x.SameVariant y ∧ x.opening = y.opening := by
  have hopening := opening_eq hx hy h
  refine ⟨?_, hopening⟩
  cases x <;> cases y
  case rule.rule => exact .rule ..
  case media.media => exact .media ..
  case group.group => exact .group ..
  case comment.comment => exact .comment ..
  case other.other => exact .other ..
  case media.group => exact absurd hopening (media_ne_group hyload)
  case group.media => exact absurd hopening.symm (media_ne_group hxload)
  case media.other => exact absurd hopening (media_ne_other hyload)
  case other.media => exact absurd hopening.symm (media_ne_other hxload)
  case group.other => exact absurd hopening (group_ne_other hxload hy)
  case other.group => exact absurd hopening.symm (group_ne_other hyload hx)
  all_goals simp [opening] at hopening

/-! ## The reading of nodes -/

/-- The nodes differ in nothing that counts and is written. -/
inductive WrittenAlike : Node → Node → Prop
  | rule {r s : Rule} (selectors : r.selectors = s.selectors)
      (items : List.Forall₂ RuleItem.SameForm r.items s.items) : WrittenAlike (.rule r) (.rule s)
  | media {query : String} {xs ys : List Node} {s t : Span}
      (nodes : List.Forall₂ WrittenAlike xs ys) :
      WrittenAlike (.media query xs s) (.media query ys t)
  | group {kind prelude : String} {xs ys : List Node} {s t : Span}
      (nodes : List.Forall₂ WrittenAlike xs ys) :
      WrittenAlike (.group kind prelude xs s) (.group kind prelude ys t)
  | comment {c d : Comment} : WrittenAlike (.comment c) (.comment d)
  | other {kind : String} {p q : Json} {s t : Span}
      (h : payloadCss 0 kind p = payloadCss 0 kind q) :
      WrittenAlike (.other kind p s) (.other kind q t)

theorem items_readable {xs ys : List RuleItem} (hxs : ∀ x ∈ xs, x.Plain ∧ x.Loadable)
    (hys : ∀ y ∈ ys, y.Plain ∧ y.Loadable)
    (h : xs.flatMap (fun x => (x.css (depth + 1)).toList) ++ (closing depth ++ rest) =
      ys.flatMap (fun y => (y.css (depth + 1)).toList) ++ (closing depth ++ rest')) :
    List.Forall₂ RuleItem.SameForm xs ys ∧ rest = rest' := by
  refine parts_readable (fun x => ?_) (fun x hx y hy rest rest' hxy => ?_) h
  · cases x with
    | declaration d => exact ⟨_, toList_declarationCss _ d.property d.value⟩
    | comment c => exact ⟨_, toList_commentCss _ c.text⟩
    | other description => exact ⟨_, RuleItem.toList_css_of_remark? rfl⟩
  · exact RuleItem.readable (hxs x hx).1 (hys y hy).1 (hxs x hx).2 (hys y hy).2 hxy

/-- The text of the node can be told from what follows it, and what counts of the node from
the text. -/
def Readable (x : Node) : Prop := ∀ (y : Node) (depth : Nat) (rest rest' : List Char),
  y.Plain → y.Loadable → (x.css depth).toList ++ rest = (y.css depth).toList ++ rest' →
    x.WrittenAlike y ∧ rest = rest'

theorem exists_indent (depth : Nat) (x : Node) :
    ∃ body, (x.css depth).toList = List.replicate (4 * depth) ' ' ++ body := by
  cases x with
  | rule r =>
    rw [css, Rule.css, String.append_assoc, String.append_assoc, String.append_assoc,
      String.append_assoc, String.toList_append, toList_indent]
    exact ⟨_, rfl⟩
  | media query children span => exact ⟨_, toList_css_media depth query children span⟩
  | group kind prelude children span =>
    exact ⟨_, toList_css_group depth kind prelude children span⟩
  | comment c => exact ⟨_, toList_commentCss depth c.text⟩
  | other kind payload span => exact ⟨_, toList_payloadCss depth kind payload⟩

theorem children_readable {xs ys : List Node} (hxs : ∀ x ∈ xs, x.Readable)
    (hys : ∀ y ∈ ys, y.Plain ∧ y.Loadable)
    (h : xs.flatMap (fun x => (x.css (depth + 1)).toList) ++ (closing depth ++ rest) =
      ys.flatMap (fun y => (y.css (depth + 1)).toList) ++ (closing depth ++ rest')) :
    List.Forall₂ WrittenAlike xs ys ∧ rest = rest' := by
  refine parts_readable (exists_indent (depth + 1)) (fun x hx y hy rest rest' hxy => ?_) h
  exact hxs x hx y (depth + 1) rest rest' (hys y hy).1 (hys y hy).2 hxy

/-- Blocks of one name. -/
theorem block_readable {kind p q : String} {xs ys : List Node} (hp : Lacks " \x7b\n" (" " ++ p))
    (hq : Lacks " \x7b\n" (" " ++ q)) (hxs : ∀ x ∈ xs, x.Readable)
    (hys : ∀ y ∈ ys, y.Plain ∧ y.Loadable)
    (h : blockText depth kind p xs ++ rest = blockText depth kind q ys ++ rest') :
    p = q ∧ List.Forall₂ WrittenAlike xs ys ∧ rest = rest' := by
  simp only [blockText, List.append_assoc, List.cons_append] at h
  have hhead := List.append_cancel_left (List.cons.inj (List.append_cancel_left h)).2
  obtain ⟨hprelude, hbody⟩ := prelude_readable hp hq hhead
  exact ⟨hprelude, children_readable hxs hys hbody⟩

theorem rule_readable {r : Rule} (hr : (rule r).Plain) (hrload : (rule r).Loadable) :
    (rule r).Readable := by
  intro y depth rest rest' hy hyload h
  obtain ⟨hvariant, -⟩ := sameVariant_of_css hr hy hrload hyload h
  cases hvariant with | rule _ s =>
  cases hr with | rule hselectors hitems =>
  cases hy with | rule hselectors' hitems' =>
  cases hrload with | rule hload _ =>
  cases hyload with | rule hload' _ =>
  obtain ⟨selectors, items, span⟩ := r
  obtain ⟨selectors', items', span'⟩ := s
  obtain ⟨t, more, rfl⟩ := List.exists_cons_of_ne_nil hselectors.ne_nil
  obtain ⟨t', more', rfl⟩ := List.exists_cons_of_ne_nil hselectors'.ne_nil
  simp only [css, toList_ruleCss, List.append_assoc] at h
  obtain ⟨ht, hmore⟩ := List.forall_mem_cons.mp hselectors.plain
  obtain ⟨ht', hmore'⟩ := List.forall_mem_cons.mp hselectors'.plain
  obtain ⟨heq, hbody⟩ := selectors_readable ht ht' hmore hmore' (List.append_cancel_left h)
  obtain ⟨hforms, hrest⟩ := items_readable (fun x hx => ⟨hitems x hx, hload x hx⟩)
    (fun x hx => ⟨hitems' x hx, hload' x hx⟩) hbody
  exact ⟨.rule heq hforms, hrest⟩

theorem comment_readable {c : Comment} (hc : (comment c).Plain) (hload : (comment c).Loadable) :
    (comment c).Readable := by
  intro y depth rest rest' hy hyload h
  obtain ⟨hvariant, -⟩ := sameVariant_of_css hc hy hload hyload h
  cases hvariant with | comment _ c' =>
  cases hc with | comment htext =>
  cases hy with | comment htext' =>
  simp only [css, toList_commentCss, List.append_assoc, List.cons_append] at h
  have htail := (List.cons.inj (List.cons.inj (List.append_cancel_left h)).2).2
  have hrest := (eq_of_mark ['*', '/'] '\n' (by decide) htext htext' htail).2
  exact ⟨.comment, hrest⟩

theorem other_readable {kind : String} {payload : Json} {span : Span}
    (hx : (other kind payload span).Plain) (hload : (other kind payload span).Loadable) :
    (other kind payload span).Readable := by
  intro y depth rest rest' hy hyload h
  obtain ⟨hvariant, hopening⟩ := sameVariant_of_css hx hy hload hyload h
  cases hvariant with | other _ kind' _ payload' _ span' =>
  obtain rfl := String.toList_inj.mp (List.cons.inj hopening).2
  cases hx with | other _ _ hpayload =>
  cases hy with | other _ _ hpayload' =>
  simp only [css, toList_payloadCss, List.append_assoc, List.cons_append] at h
  have htail := List.append_cancel_left (List.cons.inj (List.append_cancel_left h)).2
  obtain ⟨hcss, hrest⟩ := payload_readable hpayload hpayload' (List.cons.inj htail).2
  exact ⟨.other hcss, hrest⟩

theorem children_loadable {kind prelude : String} {children : List Node} {span : Span}
    (h : (group kind prelude children span).Loadable) : ∀ x ∈ children, x.Loadable := by
  cases h with | group _ nodes _ => exact nodes

/-- **The CSS text of a plain node is read in one way only.** -/
theorem readable {x : Node} (hx : x.Plain) (hload : x.Loadable) : x.Readable := by
  induction x using Node.induction with
  | rule r => exact rule_readable hx hload
  | media query children span ih =>
    intro y depth rest rest' hy hyload h
    obtain ⟨hvariant, -⟩ := sameVariant_of_css hx hy hload hyload h
    cases hvariant with | media _ query' _ children' _ span' =>
    cases hx with | media hquery hnodes =>
    cases hy with | media hquery' hnodes' =>
    cases hload with | media hloads _ =>
    cases hyload with | media hloads' _ =>
    rw [toList_css_media, toList_css_media] at h
    obtain ⟨rfl, hchildren, hrest⟩ := block_readable hquery hquery'
      (fun x hx => ih x hx (hnodes x hx) (hloads x hx))
      (fun y hy => ⟨hnodes' y hy, hloads' y hy⟩) h
    exact ⟨.media hchildren, hrest⟩
  | group kind prelude children span ih =>
    intro y depth rest rest' hy hyload h
    obtain ⟨hvariant, hopening⟩ := sameVariant_of_css hx hy hload hyload h
    cases hvariant with | group _ kind' _ prelude' _ children' _ span' =>
    obtain rfl := String.toList_inj.mp (List.cons.inj hopening).2
    rw [toList_css_group, toList_css_group] at h
    cases hx with | group _ hprelude hnodes =>
    cases hy with | group _ hprelude' hnodes' =>
    obtain ⟨rfl, hchildren, hrest⟩ := block_readable hprelude hprelude'
      (fun x hx => ih x hx (hnodes x hx) (children_loadable hload x hx))
      (fun y hy => ⟨hnodes' y hy, children_loadable hyload y hy⟩) h
    exact ⟨.group hchildren, hrest⟩
  | comment c => exact comment_readable hx hload
  | other kind payload span => exact other_readable hx hload

end Node

end StyleDelta
