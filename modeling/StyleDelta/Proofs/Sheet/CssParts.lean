import StyleDelta.Proofs.Identity
import StyleDelta.Proofs.Sheet.RoundTrip
import StyleDelta.Proofs.Text.Marks
import StyleDelta.Sheet.Css

/-!
What ends the parts of a CSS text.

Texts are written as they are, so a selector, a value or a comment can look like several items
of a rule, or like the end of a block. The parts of a node are `Plain` if none of them holds the
mark that ends it; then each can be told from whatever follows it. The parts of a block end
where a line begins that is indented less (`parts_readable`).
-/

namespace StyleDelta

open Text (Lacks eq_of_mark eq_of_marked)

variable {rest rest' : List Char} {depth : Nat}

/-! ## Plain parts -/

/-- The text of the declaration ends where it seems to, and so does its property. -/
def PlainDeclaration (property value : String) : Prop := Lacks ": " property ∧ Lacks ";\n" value

instance (property value : String) : Decidable (PlainDeclaration property value) :=
  inferInstanceAs (Decidable (_ ∧ _))

/-- Declarations do not look like comments, nor comments like items of unknown kinds. -/
def RuleItem.Plain : RuleItem → Prop
  | .declaration d => PlainDeclaration d.property d.value ∧ ¬ ['/', '*'] <+: d.property.toList
  | .comment c => Lacks "*/\n" c.text ∧
      ∀ members, c.text.toList ≠ ' ' :: (Json.obj members).compact ++ [' ']
  | .other _ => True

/-- The property and the value of a description that has both. -/
def described? (description : Json) : Option (String × String) :=
  ((description.get? "property").bind Json.str?).bind fun property =>
    ((description.get? "value").bind Json.str?).map fun value => (property, value)

/-- The declarations that are written of an at-rule without a prelude. -/
def describedDeclarations (payload : Json) : List (String × String) :=
  (((payload.get? "declarations").bind Json.arr?).getD []).filterMap described?

/-- Preludes do not look like blocks. -/
def PlainPayload (kind : String) (payload : Json) : Prop :=
  match payloadPrelude? kind payload with
  | some prelude => Lacks ";\n" prelude ∧ ¬ ['\x7b', '\n'] <+: prelude.toList
  | none => ∀ d ∈ describedDeclarations payload, PlainDeclaration d.1 d.2

/-- A selector ends before the next one or before the brace. -/
def PlainSelector (s : String) : Prop := Lacks ",\n" s ∧ Lacks " \x7b\n" s

instance (s : String) : Decidable (PlainSelector s) := inferInstanceAs (Decidable (_ ∧ _))

/-- The selectors of a rule do not look like the start of another node. -/
structure PlainSelectors (selectors : List String) : Prop where
  ne_nil : selectors ≠ []
  plain : ∀ s ∈ selectors, PlainSelector s
  first : ∀ s ∈ selectors.head?, ¬ ['@'] <+: s.toList ∧ ¬ ['/', '*'] <+: s.toList

/-! ## Blocks -/

/-- What ends a block at a depth. -/
def closing (depth : Nat) : List Char := List.replicate (4 * depth) ' ' ++ ['\x7d', '\n']

/-- Inside a block every line begins one step deeper than the block ends. -/
theorem closing_append_ne (text : List Char) :
    closing depth ++ rest ≠ List.replicate (4 * (depth + 1)) ' ' ++ text := by
  have hdeeper : List.replicate (4 * (depth + 1)) ' ' =
      List.replicate (4 * depth) ' ' ++ [' ', ' ', ' ', ' '] := by
    rw [Nat.mul_succ, List.replicate_add]
    rfl
  rw [closing, hdeeper, List.append_assoc, List.append_assoc]
  intro h
  have htail := List.append_cancel_left h
  simp at htail

/-- The parts of a block can be told from their texts, if each can be told from what follows. -/
theorem parts_readable {α : Type} {R : α → α → Prop} {text : α → List Char} {xs ys : List α}
    (hindent : ∀ x, ∃ body, text x = List.replicate (4 * (depth + 1)) ' ' ++ body)
    (hread : ∀ x ∈ xs, ∀ y ∈ ys, ∀ rest rest', text x ++ rest = text y ++ rest' →
      R x y ∧ rest = rest')
    (h : xs.flatMap text ++ (closing depth ++ rest) =
      ys.flatMap text ++ (closing depth ++ rest')) :
    List.Forall₂ R xs ys ∧ rest = rest' := by
  induction xs generalizing ys with
  | nil =>
    cases ys with
    | nil => exact ⟨.nil, List.append_cancel_left h⟩
    | cons y ys =>
      obtain ⟨body, hbody⟩ := hindent y
      rw [List.flatMap_nil, List.nil_append, List.flatMap_cons, hbody] at h
      simp only [List.append_assoc] at h
      exact absurd h (closing_append_ne _)
  | cons x xs ih =>
    cases ys with
    | nil =>
      obtain ⟨body, hbody⟩ := hindent x
      rw [List.flatMap_nil, List.nil_append, List.flatMap_cons, hbody] at h
      simp only [List.append_assoc] at h
      exact absurd h.symm (closing_append_ne _)
    | cons y ys =>
      simp only [List.flatMap_cons, List.append_assoc] at h
      obtain ⟨hxy, htail⟩ := hread x (List.mem_cons_self ..) y (List.mem_cons_self ..) _ _ h
      obtain ⟨hforms, hrest⟩ := ih (fun x hx y hy =>
        hread x (List.mem_cons_of_mem _ hx) y (List.mem_cons_of_mem _ hy)) htail
      exact ⟨.cons hxy hforms, hrest⟩

/-! ## Items of rules -/

theorem toList_indent (depth : Nat) : (indent depth).toList = List.replicate (4 * depth) ' ' := by
  simp [indent]

theorem toList_declarationCss (depth : Nat) (property value : String) :
    (declarationCss depth property value).toList = List.replicate (4 * depth) ' ' ++
      (property.toList ++ (':' :: ' ' :: (value.toList ++ [';', '\n']))) := by
  simp [declarationCss, toList_indent]

theorem toList_commentCss (depth : Nat) (text : String) :
    (commentCss depth text).toList = List.replicate (4 * depth) ' ' ++
      ('/' :: '*' :: (text.toList ++ ['*', '/', '\n'])) := by
  simp [commentCss, toList_indent]

theorem declaration_readable {property property' value value' : String}
    (hp : PlainDeclaration property value) (hp' : PlainDeclaration property' value')
    (h : (declarationCss depth property value).toList ++ rest =
      (declarationCss depth property' value').toList ++ rest') :
    (property = property' ∧ value = value') ∧ rest = rest' := by
  simp only [toList_declarationCss, List.append_assoc, List.cons_append, List.nil_append] at h
  obtain ⟨hproperty, htail⟩ := eq_of_mark [':'] ' ' (by decide) hp.1 hp'.1
    (List.append_cancel_left h)
  obtain ⟨hvalue, hrest⟩ := eq_of_mark [';'] '\n' (by decide) hp.2 hp'.2 htail
  exact ⟨⟨String.toList_inj.mp hproperty, String.toList_inj.mp hvalue⟩, hrest⟩

/-- A text that a mark follows begins with two characters that are none of the mark's only if
it holds them itself. -/
theorem prefix_of_append {a b c : Char} {s text text' : List Char} (ha : c ≠ a) (hb : c ≠ b)
    (h : s ++ c :: text = a :: b :: text') : [a, b] <+: s := by
  match s, h with
  | [], h => exact absurd (List.cons.inj h).1 ha
  | [x], h => exact absurd (List.cons.inj (List.cons.inj h).2).1 hb
  | x :: y :: s, h =>
    simp only [List.cons_append, List.cons.injEq] at h
    exact ⟨s, by simp [h.1, h.2.1]⟩

namespace RuleItem

/-- What stands between the comment marks for an item that is no declaration. -/
def remark? : RuleItem → Option (List Char)
  | .declaration _ => none
  | .comment c => some c.text.toList
  | .other description => some (' ' :: description.compact ++ [' '])

theorem toList_css_of_remark? {item : RuleItem} {text : List Char} (h : item.remark? = some text) :
    (item.css depth).toList = List.replicate (4 * depth) ' ' ++
      ('/' :: '*' :: (text ++ ['*', '/', '\n'])) := by
  cases item with
  | declaration d => cases h
  | comment c =>
    obtain rfl := Option.some.inj h
    exact toList_commentCss depth c.text
  | other description =>
    obtain rfl := Option.some.inj h
    simp [css, toList_indent]

theorem lacks_of_remark? {item : RuleItem} {text : List Char} (hitem : item.Plain)
    (h : item.remark? = some text) : ¬ ['*', '/', '\n'] <:+: text := by
  cases item with
  | declaration d => cases h
  | comment c =>
    obtain rfl := Option.some.inj h
    exact hitem.1
  | other description =>
    obtain rfl := Option.some.inj h
    intro hmark
    have hfeed : '\n' ∈ ' ' :: description.compact ++ [' '] := hmark.subset (by simp)
    simp [description.feed_notMem_compact] at hfeed

theorem remark_readable {a b : RuleItem} {text text' : List Char} (ha : a.Plain) (hb : b.Plain)
    (htext : a.remark? = some text) (htext' : b.remark? = some text')
    (h : (a.css depth).toList ++ rest = (b.css depth).toList ++ rest') :
    text = text' ∧ rest = rest' := by
  simp only [toList_css_of_remark? htext, toList_css_of_remark? htext', List.append_assoc,
    List.cons_append, List.nil_append] at h
  have htail := List.append_cancel_left h
  simp only [List.cons.injEq, true_and] at htail
  exact eq_of_mark ['*', '/'] '\n' (by decide) (lacks_of_remark? ha htext)
    (lacks_of_remark? hb htext') htail

theorem declaration_ne_remark {d : Declaration} {b : RuleItem} {text : List Char}
    (hd : (declaration d).Plain) (hb : b.remark? = some text) :
    ((declaration d).css depth).toList ++ rest ≠ (b.css depth).toList ++ rest' := by
  intro h
  rw [toList_css_of_remark? hb, css, toList_declarationCss, List.append_assoc, List.append_assoc,
    List.append_assoc] at h
  have hstart : ':' ≠ '/' ∧ ':' ≠ '*' := by decide
  exact hd.2 (prefix_of_append hstart.1 hstart.2 (List.append_cancel_left h))

/-- The canonical forms agree, or there are none. -/
def SameForm (a b : RuleItem) : Prop := Option.Rel Agrees a.canonical? b.canonical?

/-- The text of a plain item can be told from what follows it, and what counts of the item can
be read from it. -/
theorem readable {a b : RuleItem} (ha : a.Plain) (hb : b.Plain) (haload : a.Loadable)
    (hbload : b.Loadable) (h : (a.css depth).toList ++ rest = (b.css depth).toList ++ rest') :
    a.SameForm b ∧ rest = rest' := by
  cases a with
  | declaration d =>
    cases b with
    | declaration e =>
      obtain ⟨⟨hproperty, hvalue⟩, hrest⟩ := declaration_readable ha.1 hb.1 h
      refine ⟨.some (.declaration hproperty ?_), hrest⟩
      simp only [Declaration.canonical, hvalue]
    | comment c => exact absurd h (declaration_ne_remark ha rfl)
    | other description => exact absurd h (declaration_ne_remark ha rfl)
  | comment c =>
    cases b with
    | declaration e => exact absurd h.symm (declaration_ne_remark hb rfl)
    | comment c' => exact ⟨.none, (remark_readable ha hb rfl rfl h).2⟩
    | other description =>
      obtain ⟨members, -, rfl, -⟩ := hbload
      exact absurd (remark_readable ha hb rfl rfl h).1 (ha.2 members)
  | other description =>
    cases b with
    | declaration e => exact absurd h.symm (declaration_ne_remark hb rfl)
    | comment c =>
      obtain ⟨members, -, rfl, -⟩ := haload
      exact absurd (remark_readable ha hb rfl rfl h).1.symm (hb.2 members)
    | other description' =>
      obtain ⟨htext, hrest⟩ := remark_readable ha hb rfl rfl h
      have hcompact := Json.compact_injective (List.append_cancel_right (List.cons.inj htext).2)
      subst hcompact
      exact ⟨.some (.other description.eqv_refl), hrest⟩

end RuleItem

/-! ## The texts of nodes -/

/-- What follows a selector: the other selectors and the brace. -/
def selectorTail : List String → List Char
  | [] => [' ', '\x7b', '\n']
  | s :: rest => ',' :: '\n' :: (s.toList ++ selectorTail rest)

theorem intercalate_append_brace (s : String) (rest : List String) :
    (",\n".intercalate (s :: rest)).toList ++ [' ', '\x7b', '\n'] =
      s.toList ++ selectorTail rest := by
  induction rest generalizing s with
  | nil => simp [selectorTail]
  | cons t rest ih =>
    have htail := ih t
    rw [String.toList_intercalate] at htail ⊢
    simp only [List.map_cons, List.intercalate_cons_cons, List.append_assoc] at htail ⊢
    rw [htail]
    rfl

/-- What stands between the name of a block and its brace. -/
def preludeText (prelude : String) : List Char :=
  if prelude = "" then [] else ' ' :: prelude.toList

def blockText (depth : Nat) (kind prelude : String) (children : List Node) : List Char :=
  List.replicate (4 * depth) ' ' ++ ('@' :: (kind.toList ++ (preludeText prelude ++
    (' ' :: '\x7b' :: '\n' :: (children.flatMap (fun x => (x.css (depth + 1)).toList) ++
      closing depth)))))

theorem toList_ruleCss (depth : Nat) (s : String) (more : List String) (items : List RuleItem)
    (span : Span) : ((Rule.mk (s :: more) items span).css depth).toList =
      List.replicate (4 * depth) ' ' ++ (s.toList ++ (selectorTail more ++
        (items.flatMap (fun x => (x.css (depth + 1)).toList) ++ closing depth))) := by
  have hhead := intercalate_append_brace s more
  have hbrace : " \x7b\n".toList = [' ', '\x7b', '\n'] := rfl
  have hclosing : (indent depth).toList ++ "\x7d\n".toList = closing depth := by
    rw [toList_indent]
    rfl
  rw [← List.append_assoc s.toList, ← hhead, ← hclosing, ← hbrace]
  simp [Rule.css, toList_indent, String.toList_join, List.flatMap_map]

/-- A rule without selectors is written like one with an empty selector. -/
theorem Rule.css_withoutSelectors (depth : Nat) (items : List RuleItem) (span : Span) :
    (Rule.mk [] items span).css depth = (Rule.mk [""] items span).css depth := rfl

namespace Node

theorem toList_cssAll (depth : Nat) (nodes : List Node) :
    (cssAll depth nodes).toList = nodes.flatMap fun x => (x.css depth).toList := by
  induction nodes with
  | nil => rfl
  | cons x nodes ih => rw [cssAll, String.toList_append, ih, List.flatMap_cons]

theorem toList_block (depth : Nat) (kind prelude : String) (children : List Node) :
    (blockHead depth kind prelude ++ cssAll (depth + 1) children ++ indent depth ++
      "\x7d\n").toList = blockText depth kind prelude children := by
  have hprelude : (if prelude = "" then "" else " " ++ prelude).toList = preludeText prelude := by
    unfold preludeText
    split <;> simp
  simp [blockHead, blockText, toList_cssAll, toList_indent, closing, hprelude]

theorem toList_css_media (depth : Nat) (query : String) (children : List Node) (span : Span) :
    ((media query children span).css depth).toList = blockText depth "media" query children := by
  rw [css, toList_block]

theorem toList_css_group (depth : Nat) (kind prelude : String) (children : List Node)
    (span : Span) : ((group kind prelude children span).css depth).toList =
      blockText depth kind prelude children := by
  rw [css, toList_block]

end Node

/-- What is written of the descriptions is what is written of those with both texts. -/
theorem toList_describedCss (depth : Nat) (descriptions : List Json) :
    (String.join (descriptions.map (describedCss depth))).toList =
      (descriptions.filterMap described?).flatMap fun d =>
        (declarationCss depth d.1 d.2).toList := by
  induction descriptions with
  | nil => rfl
  | cons description rest ih =>
    rw [List.map_cons, String.join_cons, String.toList_append, ih, List.filterMap_cons,
      describedCss, described?]
    cases (description.get? "property").bind Json.str? <;>
      cases (description.get? "value").bind Json.str? <;> simp

/-- What an at-rule of no known shape shows behind its name. -/
def payloadText (depth : Nat) (kind : String) (payload : Json) : List Char :=
  match payloadPrelude? kind payload with
  | some prelude => prelude.toList ++ [';', '\n']
  | none => '\x7b' :: '\n' :: ((describedDeclarations payload).flatMap
      (fun d => (declarationCss (depth + 1) d.1 d.2).toList) ++ closing depth)

theorem toList_payloadCss (depth : Nat) (kind : String) (payload : Json) :
    (payloadCss depth kind payload).toList = List.replicate (4 * depth) ' ' ++
      ('@' :: (kind.toList ++ (' ' :: payloadText depth kind payload))) := by
  unfold payloadCss payloadText
  cases payloadPrelude? kind payload with
  | some prelude => simp [toList_indent]
  | none =>
    simp only [String.toList_append, toList_describedCss, toList_indent]
    simp [closing, describedDeclarations]

/-! ## The reading of selectors, preludes and descriptions -/

theorem selectors_readable {s t : String} {xs ys : List String} (hs : PlainSelector s)
    (ht : PlainSelector t) (hxs : ∀ x ∈ xs, PlainSelector x) (hys : ∀ y ∈ ys, PlainSelector y)
    (h : s.toList ++ (selectorTail xs ++ rest) = t.toList ++ (selectorTail ys ++ rest')) :
    s :: xs = t :: ys ∧ rest = rest' := by
  induction xs generalizing s t ys with
  | nil =>
    cases ys with
    | nil =>
      obtain ⟨hst, hrest⟩ := eq_of_mark [' ', '\x7b'] '\n' (by decide) hs.2 ht.2 h
      exact ⟨by rw [String.toList_inj.mp hst], hrest⟩
    | cons y ys =>
      obtain ⟨hst, -⟩ := eq_of_marked [' ', '\x7b'] [','] '\n' (by decide)
        (by decide) hs.1 ht.2 h
      have hlast := congrArg List.getLast? hst
      simp at hlast
  | cons x xs ih =>
    cases ys with
    | nil =>
      obtain ⟨hst, -⟩ := eq_of_marked [','] [' ', '\x7b'] '\n' (by decide)
        (by decide) hs.2 ht.1 h
      have hlast := congrArg List.getLast? hst
      simp at hlast
    | cons y ys =>
      simp only [selectorTail, List.cons_append, List.append_assoc] at h
      obtain ⟨hst, htail⟩ := eq_of_mark [','] '\n' (by decide) hs.1 ht.1 h
      obtain ⟨hx, hxs⟩ := List.forall_mem_cons.mp hxs
      obtain ⟨hy, hys⟩ := List.forall_mem_cons.mp hys
      obtain ⟨hrec, hrest⟩ := ih hx hy hxs hys htail
      exact ⟨by rw [String.toList_inj.mp hst, hrec], hrest⟩

theorem preludeText_injective : Function.Injective preludeText := by
  intro p q h
  unfold preludeText at h
  split at h <;> split at h
  next hp hq => rw [hp, hq]
  next => cases h
  next => cases h
  next => exact String.toList_inj.mp (List.cons.inj h).2

/-- The text of a prelude starts no earlier than its block lets it. -/
theorem lacks_preludeText {prelude : String} (h : Lacks " \x7b\n" (" " ++ prelude)) :
    ¬ [' ', '\x7b', '\n'] <:+: preludeText prelude := by
  unfold preludeText
  split
  · decide
  · simpa [Lacks] using h

theorem prelude_readable {p q : String} (hp : Lacks " \x7b\n" (" " ++ p))
    (hq : Lacks " \x7b\n" (" " ++ q))
    (h : preludeText p ++ (' ' :: '\x7b' :: '\n' :: rest) =
      preludeText q ++ (' ' :: '\x7b' :: '\n' :: rest')) : p = q ∧ rest = rest' := by
  obtain ⟨htext, hrest⟩ := eq_of_mark [' ', '\x7b'] '\n' (by decide)
    (lacks_preludeText hp) (lacks_preludeText hq) h
  exact ⟨preludeText_injective htext, hrest⟩

theorem declarations_readable {xs ys : List (String × String)}
    (hxs : ∀ d ∈ xs, PlainDeclaration d.1 d.2) (hys : ∀ d ∈ ys, PlainDeclaration d.1 d.2)
    (h : xs.flatMap (fun d => (declarationCss (depth + 1) d.1 d.2).toList) ++
        (closing depth ++ rest) =
      ys.flatMap (fun d => (declarationCss (depth + 1) d.1 d.2).toList) ++
        (closing depth ++ rest')) : xs = ys ∧ rest = rest' := by
  have hindent (d : String × String) : ∃ body, (declarationCss (depth + 1) d.1 d.2).toList =
      List.replicate (4 * (depth + 1)) ' ' ++ body := ⟨_, toList_declarationCss _ d.1 d.2⟩
  have hread : ∀ x ∈ xs, ∀ y ∈ ys, ∀ rest rest' : List Char,
      (declarationCss (depth + 1) x.1 x.2).toList ++ rest =
        (declarationCss (depth + 1) y.1 y.2).toList ++ rest' → x = y ∧ rest = rest' := by
    intro x hx y hy rest rest' hxy
    obtain ⟨⟨hproperty, hvalue⟩, hrest⟩ := declaration_readable (hxs x hx) (hys y hy) hxy
    exact ⟨Prod.ext hproperty hvalue, hrest⟩
  obtain ⟨heq, hrest⟩ := parts_readable hindent hread h
  rw [List.forall₂_eq_eq_eq] at heq
  exact ⟨heq, hrest⟩

theorem payload_readable {kind : String} {p q : Json} (hp : PlainPayload kind p)
    (hq : PlainPayload kind q)
    (h : payloadText depth kind p ++ rest = payloadText depth kind q ++ rest') :
    payloadCss 0 kind p = payloadCss 0 kind q ∧ rest = rest' := by
  unfold PlainPayload at hp hq
  rw [← String.toList_inj, toList_payloadCss, toList_payloadCss]
  unfold payloadText at h ⊢
  generalize payloadPrelude? kind p = prelude at hp h ⊢
  generalize payloadPrelude? kind q = prelude' at hq h ⊢
  cases prelude with
  | some s =>
    cases prelude' with
    | some t =>
      simp only [List.append_assoc, List.cons_append, List.nil_append] at h
      obtain ⟨hst, hrest⟩ := eq_of_mark [';'] '\n' (by decide) hp.1 hq.1 h
      exact ⟨by simp only [hst], hrest⟩
    | none =>
      simp only [List.append_assoc, List.cons_append, List.nil_append] at h
      exact absurd (prefix_of_append (c := ';') (by decide) (by decide) h) hp.2
  | none =>
    cases prelude' with
    | some t =>
      simp only [List.append_assoc, List.cons_append, List.nil_append] at h
      exact absurd (prefix_of_append (c := ';') (by decide) (by decide) h.symm) hq.2
    | none =>
      simp only [List.cons_append, List.cons.injEq, List.append_assoc, true_and] at h
      obtain ⟨heq, hrest⟩ := declarations_readable hp hq h
      exact ⟨by simp only [heq], hrest⟩

end StyleDelta
