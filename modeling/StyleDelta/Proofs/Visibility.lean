import StyleDelta.Proofs.Partition
import StyleDelta.Proofs.Sheet.CssReading
import StyleDelta.Proofs.Text.Lines
import StyleDelta.Report

/-!
A reported modification can be seen.

The two sides of a modification have one identity, so their heads are spelled alike up to
quotes, and two such heads are equal if their texts start alike
(`Text.eq_of_canonicalSelector_of_append`). What is inside is read from the text
(`Node.readable`), so equal texts would mean equal contents. Main statement:
`modification_visible`.
-/

namespace StyleDelta

open Text (Lacks)

variable {rest rest' : List Char} {depth : Nat}

namespace Node

/-- The items of a rule or the nodes of a block are plain. -/
def PlainInside : Node → Prop
  | rule r => ∀ item ∈ r.items, item.Plain
  | media _ children _ => ∀ child ∈ children, child.Plain
  | group _ _ children _ => ∀ child ∈ children, child.Plain
  | comment _ => True
  | other _ _ _ => True

/-! ## Heads of one identity -/

theorem selectors_append {s t : String} {xs ys : List String}
    (hcanonical : (s :: xs).map Text.canonicalSelector = (t :: ys).map Text.canonicalSelector)
    (h : s.toList ++ (selectorTail xs ++ rest) = t.toList ++ (selectorTail ys ++ rest')) :
    rest = rest' := by
  induction xs generalizing s t ys with
  | nil =>
    cases ys with
    | nil =>
      obtain ⟨hhead, -⟩ := List.cons.inj hcanonical
      obtain ⟨-, htail⟩ := Text.eq_of_canonicalSelector_of_append hhead h
      exact List.append_cancel_left htail
    | cons y ys => simp at hcanonical
  | cons x xs ih =>
    cases ys with
    | nil => simp at hcanonical
    | cons y ys =>
      obtain ⟨hhead, hmore⟩ := List.cons.inj hcanonical
      obtain ⟨-, htail⟩ := Text.eq_of_canonicalSelector_of_append hhead h
      simp only [selectorTail, List.cons_append, List.cons.injEq, true_and,
        List.append_assoc] at htail
      exact ih hmore htail

/-- The items of rules whose selectors have one canonical spelling. -/
theorem rule_append {r s : Rule}
    (hcanonical : r.selectors.map Text.canonicalSelector = s.selectors.map Text.canonicalSelector)
    (h : (r.css depth).toList ++ rest = (s.css depth).toList ++ rest') :
    r.items.flatMap (fun x => (x.css (depth + 1)).toList) ++ (closing depth ++ rest) =
      s.items.flatMap (fun x => (x.css (depth + 1)).toList) ++ (closing depth ++ rest') := by
  obtain ⟨selectors, items, span⟩ := r
  obtain ⟨selectors', items', span'⟩ := s
  cases selectors with
  | nil =>
    obtain rfl := List.map_eq_nil_iff.mp hcanonical.symm
    simp only [Rule.css_withoutSelectors, toList_ruleCss, List.append_assoc] at h
    exact List.append_cancel_left (List.append_cancel_left (List.append_cancel_left h))
  | cons t more =>
    cases selectors' with
    | nil => cases hcanonical
    | cons t' more' =>
      simp only [toList_ruleCss, List.append_assoc] at h
      exact selectors_append hcanonical (List.append_cancel_left h)

theorem prelude_append {p q : String}
    (hcanonical : Text.canonicalSelector p = Text.canonicalSelector q)
    (h : preludeText p ++ rest = preludeText q ++ rest') : p = q ∧ rest = rest' := by
  have hempty {p q : String} (hpq : Text.canonicalSelector p = Text.canonicalSelector q)
      (hp : p = "") : q = "" := by
    have htext : p.toList ++ q.toList = q.toList ++ [] := by simp [hp]
    rw [← (Text.eq_of_canonicalSelector_of_append hpq htext).1, hp]
  unfold preludeText at h
  split at h
  next hp =>
    obtain rfl := hempty hcanonical hp
    exact ⟨hp, by simpa using h⟩
  next hp =>
    split at h
    next hq => exact absurd (hempty hcanonical.symm hq) hp
    next hq =>
      exact Text.eq_of_canonicalSelector_of_append hcanonical (List.cons.inj h).2

/-- Blocks of one name whose preludes have one canonical spelling. -/
theorem block_append {kind p q : String} {xs ys : List Node}
    (hcanonical : Text.canonicalSelector p = Text.canonicalSelector q)
    (h : blockText depth kind p xs ++ rest = blockText depth kind q ys ++ rest') :
    xs.flatMap (fun x => (x.css (depth + 1)).toList) ++ (closing depth ++ rest) =
      ys.flatMap (fun y => (y.css (depth + 1)).toList) ++ (closing depth ++ rest') := by
  simp only [blockText, List.append_assoc, List.cons_append] at h
  have hhead := List.append_cancel_left (List.cons.inj (List.append_cancel_left h)).2
  obtain ⟨-, hbody⟩ := prelude_append hcanonical hhead
  simpa using hbody

/-! ## What is not written -/

mutual

/-- The at-rules of no known shape in a node, at any depth. -/
def atRules : Node → List Node
  | other kind payload span => [other kind payload span]
  | media _ children _ => atRulesAll children
  | group _ _ children _ => atRulesAll children
  | rule _ => []
  | comment _ => []
termination_by structural node => node

def atRulesAll : List Node → List Node
  | [] => []
  | node :: rest => atRules node ++ atRulesAll rest
termination_by structural nodes => nodes

end

/-- At-rules at one place of two lists that read the same have one identity: they differ in
nothing that is not written. -/
def Shown (first second : List Node) : Prop :=
  ∀ p ∈ first.zip second, p.1.css 0 = p.2.css 0 → p.1.canonicalIdentity? = p.2.canonicalIdentity?

theorem rule_sameForm_of {r s : Rule}
    (hselectors : r.selectors.map Text.canonicalSelector = s.selectors.map Text.canonicalSelector)
    (hitems : List.Forall₂ RuleItem.SameForm r.items s.items) : SameForm (.rule r) (.rule s) := by
  have hcanonical : List.Forall₂ RuleItem.Agrees r.canonical.items s.canonical.items :=
    List.rel_filterMap (fun _ _ hab => hab) hitems
  refine .some ⟨?_, .rule hcanonical⟩
  simp only [identity?, Rule.canonical, hselectors]

/-- A node has the canonical form of every node that is written like it, if their at-rules and
those that follow are shown. -/
def Settled (x : Node) : Prop := ∀ (y : Node) (more more' : List Node), x.WrittenAlike y →
  Shown (x.atRules ++ more) (y.atRules ++ more') → x.SameForm y ∧ Shown more more'

theorem nodes_settled {xs ys more more' : List Node} (hxs : ∀ x ∈ xs, x.Settled)
    (h : List.Forall₂ WrittenAlike xs ys)
    (hshown : Shown (atRulesAll xs ++ more) (atRulesAll ys ++ more')) :
    Corresponds (canonicalNodes xs) (canonicalNodes ys) ∧ Shown more more' := by
  suffices List.Forall₂ SameForm xs ys ∧ Shown more more' from
    ⟨corresponds_of_sameForm this.1, this.2⟩
  induction h with
  | nil => exact ⟨.nil, hshown⟩
  | @cons x y xs ys hxy _ ih =>
    simp only [atRulesAll, List.append_assoc] at hshown
    obtain ⟨hform, hrest⟩ := hxs x (List.mem_cons_self ..) y _ _ hxy hshown
    obtain ⟨hforms, hmore⟩ := ih (fun x hx => hxs x (List.mem_cons_of_mem _ hx)) hrest
    exact ⟨.cons hform hforms, hmore⟩

theorem settled (x : Node) : x.Settled := by
  induction x using Node.induction with
  | rule r =>
    intro y more more' h hshown
    cases h with | rule hselectors hitems =>
    exact ⟨rule_sameForm_of (congrArg _ hselectors) hitems, hshown⟩
  | media query children span ih =>
    intro y more more' h hshown
    cases h with | media hnodes =>
    obtain ⟨hchildren, hmore⟩ := nodes_settled ih hnodes hshown
    exact ⟨.some ⟨rfl, .media hchildren⟩, hmore⟩
  | group kind prelude children span ih =>
    intro y more more' h hshown
    cases h with | group hnodes =>
    obtain ⟨hchildren, hmore⟩ := nodes_settled ih hnodes hshown
    exact ⟨.some ⟨rfl, .group hchildren⟩, hmore⟩
  | comment c =>
    intro y more more' h hshown
    cases h with | comment =>
    exact ⟨.none, hshown⟩
  | other kind payload span =>
    intro y more more' h hshown
    cases h with | other hcss =>
    obtain ⟨hhead, hmore⟩ := List.forall_mem_cons.mp hshown
    have hidentity := hhead hcss
    refine ⟨.some ⟨?_, .other⟩, hmore⟩
    simpa [canonicalIdentity?, canonical?] using hidentity

/-! ## The sides of a modification -/

theorem plain_children {xs ys : List Node} (hxs : ∀ x ∈ xs, x.Plain) (hys : ∀ y ∈ ys, y.Plain)
    (hxload : ∀ x ∈ xs, x.Loadable) (hyload : ∀ y ∈ ys, y.Loadable)
    (hshown : Shown (atRulesAll xs) (atRulesAll ys))
    (h : xs.flatMap (fun x => (x.css (depth + 1)).toList) ++ (closing depth ++ rest) =
      ys.flatMap (fun y => (y.css (depth + 1)).toList) ++ (closing depth ++ rest')) :
    Corresponds (canonicalNodes xs) (canonicalNodes ys) := by
  have hread : ∀ x ∈ xs, x.Readable := fun x hx => readable (hxs x hx) (hxload x hx)
  obtain ⟨hwritten, -⟩ := children_readable hread (fun y hy => ⟨hys y hy, hyload y hy⟩) h
  have hshown' : Shown (atRulesAll xs ++ []) (atRulesAll ys ++ []) := by simpa using hshown
  exact (nodes_settled (fun x _ => x.settled) hwritten hshown').1

/-- Nodes of one identity and one text have the same contents, if what is inside them is
plain. -/
theorem sameForm_of_css {x y : Node} (hx : x.PlainInside) (hy : y.PlainInside)
    (hxload : x.Loadable) (hyload : y.Loadable) (hshown : Shown x.atRules y.atRules)
    (hidentity : x.canonicalIdentity? = y.canonicalIdentity?) (h : x.css depth = y.css depth) :
    x.SameForm y := by
  have htext : (x.css depth).toList ++ [] = (y.css depth).toList ++ [] := by rw [h]
  cases x with
  | rule r =>
    cases y <;> simp [canonicalIdentity?, canonical?, identity?] at hidentity
    next s =>
      cases hxload with | rule hrload _ =>
      cases hyload with | rule hsload _ =>
      have hitems := items_readable (fun x hmem => ⟨hx x hmem, hrload x hmem⟩)
        (fun y hmem => ⟨hy y hmem, hsload y hmem⟩) (rule_append hidentity htext)
      exact rule_sameForm_of hidentity hitems.1
  | media query children span =>
    cases y <;> simp [canonicalIdentity?, canonical?, identity?] at hidentity
    next query' children' span' =>
      cases hxload with | media hload _ =>
      cases hyload with | media hload' _ =>
      rw [toList_css_media, toList_css_media] at htext
      have hchildren := plain_children hx hy hload hload' hshown (block_append hidentity htext)
      exact .some ⟨by rw [identity?, identity?, hidentity], .media hchildren⟩
  | group kind prelude children span =>
    cases y <;> simp [canonicalIdentity?, canonical?, identity?] at hidentity
    next kind' prelude' children' span' =>
      obtain ⟨rfl, hprelude⟩ := hidentity
      rw [toList_css_group, toList_css_group] at htext
      have hchildren := plain_children hx hy (children_loadable hxload) (children_loadable hyload)
        hshown (block_append hprelude htext)
      exact .some ⟨by rw [identity?, identity?, hprelude], .group hchildren⟩
  | comment c =>
    cases y <;> simp [canonicalIdentity?, canonical?, identity?] at hidentity
    next c' => exact .none
  | other kind payload span =>
    cases y <;> simp [canonicalIdentity?, canonical?, identity?] at hidentity
    next kind' payload' span' =>
      obtain ⟨rfl, hpayload⟩ := hidentity
      exact .some ⟨by rw [identity?, identity?, hpayload], .other⟩

end Node

/-- A modification stands for nodes of both sheets that have one identity and are no comments;
their contents differ. -/
theorem modified_cases {a b : Stylesheet} {m : Modification} (hm : m ∈ (diff a b).modified) :
    m.before ∈ a.nodes ∧ m.after ∈ b.nodes ∧
      m.before.canonicalIdentity? = m.after.canonicalIdentity? ∧
      ¬ m.before.SameForm m.after := by
  rw [diff_eq_diffMatching] at hm
  obtain ⟨p, hp, rfl⟩ := List.mem_map.mp hm
  obtain ⟨hmem, hdiffers⟩ := List.mem_filter.mp hp
  obtain ⟨hidentity, hsame⟩ := pair_of_placed hmem
  obtain ⟨key, hfirst, hsecond⟩ := Matching.exists_key_of_mem_pairs hmem
  obtain ⟨hbefore, hx, -⟩ := Entry.mem_placed hfirst
  obtain ⟨hafter, hy, -⟩ := Entry.mem_placed hsecond
  refine ⟨List.mem_of_getElem? hbefore, List.mem_of_getElem? hafter, hidentity, fun hform => ?_⟩
  unfold Node.SameForm at hform
  rw [hx, hy] at hform
  cases hform with | some h =>
  simp [hsame.mpr ⟨_, _, hx, hy, h⟩] at hdiffers

/-! ## The reports -/

theorem getLast?_append_feed (front : String) {mark : String} (marks : List Char)
    (hmark : mark.toList = marks ++ ['\n']) : (front ++ mark).toList.getLast? = some '\n' := by
  rw [String.toList_append, hmark, ← List.append_assoc, List.getLast?_concat]

/-- The text of a node ends with a line feed. -/
theorem Node.getLast?_css (depth : Nat) (x : Node) :
    (x.css depth).toList.getLast? = some '\n' := by
  cases x with
  | rule r => exact getLast?_append_feed _ ['\x7d'] rfl
  | media query children span => exact getLast?_append_feed _ ['\x7d'] rfl
  | group kind prelude children span => exact getLast?_append_feed _ ['\x7d'] rfl
  | comment c => exact getLast?_append_feed _ ['*', '/'] rfl
  | other kind payload span =>
    rw [css, payloadCss]
    split
    next => exact getLast?_append_feed _ [';'] rfl
    next => exact getLast?_append_feed _ ['\x7d'] rfl

/-- **A modification can be seen**, in the JSON report by its texts and in the text report by
their lines. -/
theorem modification_visible {tree tree' : Json} {a b : Stylesheet} {m : Modification}
    (hfirst : Stylesheet.ofJson tree = .ok a) (hsecond : Stylesheet.ofJson tree' = .ok b)
    (hm : m ∈ (diff a b).modified) (hbefore : m.before.PlainInside) (hafter : m.after.PlainInside)
    (hshown : Node.Shown m.before.atRules m.after.atRules) :
    m.before.css 0 ≠ m.after.css 0 ∧
      (Lacks "\r\n" (m.before.css 0) → Lacks "\r\n" (m.after.css 0) →
        Text.lines (m.before.css 0).toList ≠ Text.lines (m.after.css 0).toList) := by
  obtain ⟨hmem, hmem', hidentity, hdiffers⟩ := modified_cases hm
  have hcss : m.before.css 0 ≠ m.after.css 0 := fun h =>
    hdiffers (Node.sameForm_of_css hbefore hafter (loadable_of_ofJson hfirst m.before hmem)
      (loadable_of_ofJson hsecond m.after hmem') hshown hidentity h)
  refine ⟨hcss, fun hreturn hreturn' hlines => hcss (String.toList_inj.mp ?_)⟩
  have hends (x : Node) : ∀ c ∈ (x.css 0).toList.getLast?, c = '\n' := by
    intro c hc
    rw [x.getLast?_css] at hc
    exact (Option.some.inj hc).symm
  exact Text.lines_injective (hends _) hreturn (hends _) hreturn' hlines

/-- A sheet of one block with the nodes. -/
def printSheet (nodes : List Node) : Stylesheet := ⟨[.media "print" nodes .unknown]⟩

/-- An at-rule that is not written in full, and a rule with a declaration. -/
def colourNodes (value : String) : List Node :=
  [.other "page" (.obj [("selectors", .arr [.str ":first"])]) .unknown,
    .rule ⟨["a"], [.declaration ⟨"color", value, .unknown⟩], .unknown⟩]

theorem colourNodes_plain {value : String} (h : Lacks ";\n" value) :
    ∀ x ∈ colourNodes value, x.Plain := by
  have hselectors : PlainSelectors ["a"] := ⟨by decide, by decide, by decide⟩
  have hproperty : Lacks ": " "color" ∧ ¬ ['/', '*'] <+: "color".toList := by decide
  have hitem : (RuleItem.declaration ⟨"color", value, .unknown⟩).Plain :=
    ⟨⟨hproperty.1, h⟩, hproperty.2⟩
  simp only [colourNodes, List.forall_mem_cons]
  refine ⟨.other (by decide) (by decide) ?_, .rule hselectors ?_, by simp⟩
  · intro d hd
    cases hd
  · simpa using hitem

theorem modification_visible_colourNodes :
    let m : Modification := ⟨.media "print" (colourNodes "red") .unknown,
      .media "print" (colourNodes "blue") .unknown⟩
    Stylesheet.ofJson (printSheet (colourNodes "red")).toJson =
        .ok (printSheet (colourNodes "red")) ∧
      Stylesheet.ofJson (printSheet (colourNodes "blue")).toJson =
        .ok (printSheet (colourNodes "blue")) ∧
      m ∈ (diff (printSheet (colourNodes "red")) (printSheet (colourNodes "blue"))).modified ∧
      m.before.PlainInside ∧ m.after.PlainInside ∧
      Node.Shown m.before.atRules m.after.atRules ∧
      Lacks "\r\n" (m.before.css 0) ∧ Lacks "\r\n" (m.after.css 0) ∧
      m.before.css 0 ≠ m.after.css 0 ∧
      Text.lines (m.before.css 0).toList ≠ Text.lines (m.after.css 0).toList := by
  intro m
  have hfirst : Stylesheet.ofJson (printSheet (colourNodes "red")).toJson =
    .ok (printSheet (colourNodes "red")) := by rfl
  have hsecond : Stylesheet.ofJson (printSheet (colourNodes "blue")).toJson =
    .ok (printSheet (colourNodes "blue")) := by rfl
  have hmodified : (diff (printSheet (colourNodes "red"))
      (printSheet (colourNodes "blue"))).modified = [m] := by rfl
  have hm := hmodified ▸ List.mem_singleton_self m
  have hbefore : m.before.PlainInside := colourNodes_plain (by decide)
  have hafter : m.after.PlainInside := colourNodes_plain (by decide)
  have hshown : Node.Shown m.before.atRules m.after.atRules := by
    intro p hp _
    obtain rfl := List.mem_singleton.mp hp
    rfl
  have hreturn : Lacks "\r\n" (m.before.css 0) := by decide +kernel
  have hreturn' : Lacks "\r\n" (m.after.css 0) := by decide +kernel
  obtain ⟨hcss, hlines⟩ := modification_visible hfirst hsecond hm hbefore hafter hshown
  exact ⟨hfirst, hsecond, hm, hbefore, hafter, hshown, hreturn, hreturn', hcss,
    hlines hreturn hreturn'⟩

/-- Nodes that differ and read the same inside a block, a pair for each thing that the texts of
plain nodes do not hold and that at-rules have to show. -/
def lookalikes : List (List Node × List Node) :=
  let rule (selectors : List String) (items : List RuleItem) : Node :=
    .rule ⟨selectors, items, .unknown⟩
  let item (property value : String) : RuleItem := .declaration ⟨property, value, .unknown⟩
  let remark (text : String) : RuleItem := .comment ⟨text, .unknown⟩
  let comment (text : String) : Node := .comment ⟨text, .unknown⟩
  let media (query : String) : Node := .media query [] .unknown
  let group (kind prelude : String) : Node := .group kind prelude [] .unknown
  let other (kind : String) (members : Members) : Node := .other kind (.obj members) .unknown
  let prelude (text : String) : Node := other "a" [("a", .str text)]
  let described (property value : String) : Node :=
    other "a" [("declarations", .arr [.obj [("property", .str property), ("value", .str value)]])]
  [ -- what at-rules do not write
    ([other "page" [("selectors", .arr [.str ":first"])]],
      [other "page" [("selectors", .arr [.str ":left"])]]),
    -- selectors
    ([rule [] []], [rule [""] []]),
    ([rule ["a,\nb"] []], [rule ["a", "b"] []]),
    ([rule ["a \x7b\n    \x7d\n    b"] []], [rule ["a"] [], rule ["b"] []]),
    ([rule ["@media a"] []], [media "a"]),
    ([rule ["/*a*/\n    b"] []], [comment "a", rule ["b"] []]),
    -- items of rules
    ([rule ["a"] [item "b: c" "d"]], [rule ["a"] [item "b" "c: d"]]),
    ([rule ["a"] [item "b" "c;\n        d: e"]], [rule ["a"] [item "b" "c", item "d" "e"]]),
    ([rule ["a"] [item "/*b" "c*/\n        d: e"]], [rule ["a"] [remark "b: c", item "d" "e"]]),
    ([rule ["a"] [remark "b*/\n        c: d;\n        /*e"]],
      [rule ["a"] [remark "b", item "c" "d", remark "e"]]),
    ([rule ["a"] [remark " \x7b\"type\":\"b\"\x7d "]],
      [rule ["a"] [.other (.obj [("type", .str "b")])]]),
    -- blocks and comments
    ([media "\x7b\n    \x7d\n    a"], [media "", rule ["a"] []]),
    ([group "supports" "a \x7b\n    \x7d\n    b"], [group "supports" "a", rule ["b"] []]),
    ([group "media supports" ""], [media "supports"]),
    ([comment "a*/\n    b \x7b\n    \x7d\n    /*c"], [comment "a", rule ["b"] [], comment "c"]),
    -- at-rules
    ([other "supports a" []], [group "supports" "a"]),
    ([other "a-supports" []], [group "a-supports" ""]),
    ([prelude "b;\n    @a c"], [prelude "b", prelude "c"]),
    ([prelude "\x7b\n        b: c", rule ["\x7d\n    d"] []], [described "b" "c", rule ["d"] []]),
    ([described "b" "c;\n    \x7d\n    @a \x7b\n        d: e"],
      [described "b" "c", described "d" "e"]),
    ([described "b: c;\n    \x7d\n    @a \x7b\n        d" "e"],
      [described "b" "c", described "d" "e"])]

/-- **Some modifications cannot be seen.** Each pair is a modification with one text, and a line
feed with a carriage return before it is a modification whose lines do not show it. -/
theorem lookalikes_modified :
    (∀ p ∈ lookalikes,
      Stylesheet.ofJson (printSheet p.1).toJson = .ok (printSheet p.1) ∧
        Stylesheet.ofJson (printSheet p.2).toJson = .ok (printSheet p.2) ∧
        ∃ m ∈ (diff (printSheet p.1) (printSheet p.2)).modified,
          m.before.css 0 = m.after.css 0) ∧
      Stylesheet.ofJson (printSheet (colourNodes "a\r\nb")).toJson =
        .ok (printSheet (colourNodes "a\r\nb")) ∧
      Stylesheet.ofJson (printSheet (colourNodes "a\nb")).toJson =
        .ok (printSheet (colourNodes "a\nb")) ∧
      ∃ m ∈ (diff (printSheet (colourNodes "a\r\nb")) (printSheet (colourNodes "a\nb"))).modified,
        Text.lines (m.before.css 0).toList = Text.lines (m.after.css 0).toList := by
  have hfirst : lookalikes.map (fun p => Stylesheet.ofJson (printSheet p.1).toJson) =
      lookalikes.map fun p => .ok (printSheet p.1) := by rfl
  have hsecond : lookalikes.map (fun p => Stylesheet.ofJson (printSheet p.2).toJson) =
      lookalikes.map fun p => .ok (printSheet p.2) := by rfl
  have hmodified : ∀ p ∈ lookalikes, ∃ m ∈ (diff (printSheet p.1) (printSheet p.2)).modified,
      m.before.css 0 = m.after.css 0 := by decide +kernel
  refine ⟨fun p hp => ⟨List.map_inj_left.mp hfirst p hp, List.map_inj_left.mp hsecond p hp,
    hmodified p hp⟩, by rfl, by rfl, by decide +kernel⟩

end StyleDelta
