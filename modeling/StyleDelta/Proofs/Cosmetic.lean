import Mathlib.Logic.Relation
import StyleDelta.Proofs.Agreement
import StyleDelta.Proofs.Sheet.Unplaced

/-!
Cosmetic edits: comments, places in the source text, and spellings of one canonical
text.

`Node.Edit` is one such edit somewhere in a tree. It keeps the essence of the tree,
which is its canonical nodes without their places (`Node.Edit.essence_eq`), and so
does any number of edits (`Cosmetic.essence_eq`). A difference sees nothing but the
essence of its sheets. Main statement: `diff_cosmetic`.
-/

namespace StyleDelta

open Text

/-! ## Edits -/

/-- One cosmetic edit among the items of a rule. -/
inductive RuleItem.Edit : List RuleItem → List RuleItem → Prop
  | insert (c : Comment) (items : List RuleItem) : Edit items (.comment c :: items)
  | delete (c : Comment) (items : List RuleItem) : Edit (.comment c :: items) items
  | reword (c d : Comment) (items : List RuleItem) :
      Edit (.comment c :: items) (.comment d :: items)
  | respell {v w : String} (h : canonicalValue v = canonicalValue w) (property : String)
      (span : Span) (items : List RuleItem) :
      Edit (.declaration ⟨property, v, span⟩ :: items) (.declaration ⟨property, w, span⟩ :: items)
  | move (d : Declaration) (span : Span) (items : List RuleItem) :
      Edit (.declaration d :: items) (.declaration { d with span := span } :: items)
  | later {items items' : List RuleItem} (item : RuleItem) (h : Edit items items') :
      Edit (item :: items) (item :: items')

namespace Node

/-- The node at another place. -/
def moved (span : Span) : Node → Node
  | rule r => rule { r with span := span }
  | media query children _ => media query children span
  | group kind prelude children _ => group kind prelude children span
  | comment c => comment { c with span := span }
  | other kind payload _ => other kind payload span

/-- One cosmetic edit among siblings or, at any depth, inside one of them. -/
inductive Edit : List Node → List Node → Prop
  | insert (c : Comment) (nodes : List Node) : Edit nodes (.comment c :: nodes)
  | delete (c : Comment) (nodes : List Node) : Edit (.comment c :: nodes) nodes
  | reword (c d : Comment) (nodes : List Node) : Edit (.comment c :: nodes) (.comment d :: nodes)
  | move (x : Node) (span : Span) (nodes : List Node) : Edit (x :: nodes) (x.moved span :: nodes)
  | respellSelector {s t : String} (h : canonicalSelector s = canonicalSelector t)
      (before after : List String) (items : List RuleItem) (span : Span) (nodes : List Node) :
      Edit (.rule ⟨before ++ s :: after, items, span⟩ :: nodes)
        (.rule ⟨before ++ t :: after, items, span⟩ :: nodes)
  | respellQuery {q q' : String} (h : canonicalSelector q = canonicalSelector q')
      (children : List Node) (span : Span) (nodes : List Node) :
      Edit (.media q children span :: nodes) (.media q' children span :: nodes)
  | respellPrelude {p p' : String} (h : canonicalSelector p = canonicalSelector p')
      (kind : String) (children : List Node) (span : Span) (nodes : List Node) :
      Edit (.group kind p children span :: nodes) (.group kind p' children span :: nodes)
  | insideRule {items items' : List RuleItem} (h : RuleItem.Edit items items')
      (selectors : List String) (span : Span) (nodes : List Node) :
      Edit (.rule ⟨selectors, items, span⟩ :: nodes) (.rule ⟨selectors, items', span⟩ :: nodes)
  | insideMedia {children children' : List Node} (h : Edit children children')
      (query : String) (span : Span) (nodes : List Node) :
      Edit (.media query children span :: nodes) (.media query children' span :: nodes)
  | insideGroup {children children' : List Node} (h : Edit children children')
      (kind prelude : String) (span : Span) (nodes : List Node) :
      Edit (.group kind prelude children span :: nodes)
        (.group kind prelude children' span :: nodes)
  | later {nodes nodes' : List Node} (x : Node) (h : Edit nodes nodes') :
      Edit (x :: nodes) (x :: nodes')

end Node

def Stylesheet.Edit (a b : Stylesheet) : Prop := Node.Edit a.nodes b.nodes

/-- The second sheet comes from the first by any number of cosmetic edits. -/
def Cosmetic : Stylesheet → Stylesheet → Prop := Relation.ReflTransGen Stylesheet.Edit

/-! ## What an edit keeps -/

/-- The canonical items of a rule without their places. -/
def RuleItem.essence (items : List RuleItem) : List RuleItem :=
  (items.filterMap RuleItem.canonical?).map RuleItem.unplaced

/-- The canonical nodes without their places: all that a difference sees. -/
def Node.essence (nodes : List Node) : List Node := (canonicalNodes nodes).map unplaced

theorem RuleItem.essence_cons (item : RuleItem) (items : List RuleItem) :
    essence (item :: items) = (item.canonical?.map unplaced).toList ++ essence items := by
  rw [essence, List.filterMap_cons]
  cases item.canonical? <;> rfl

theorem RuleItem.Edit.essence_eq {items items' : List RuleItem} (h : RuleItem.Edit items items') :
    essence items = essence items' := by
  induction h with
  | insert c items => rfl
  | delete c items => rfl
  | reword c d items => rfl
  | respell h property span items =>
    simp [essence_cons, RuleItem.canonical?, Declaration.canonical, h]
  | move d span items => rfl
  | later item h ih => rw [essence_cons, essence_cons, ih]

namespace Node

theorem essence_cons (x : Node) (nodes : List Node) :
    essence (x :: nodes) = (x.canonical?.map unplaced).toList ++ essence nodes := by
  rw [essence, canonicalNodes]
  cases x.canonical? <;> rfl

/-- Nodes in front that have one canonical form up to places. -/
theorem essence_cons_congr {x y : Node} (h : x.canonical?.map unplaced = y.canonical?.map unplaced)
    (nodes : List Node) : essence (x :: nodes) = essence (y :: nodes) := by
  rw [essence_cons, essence_cons, h]

theorem unplaced_rule_canonical (selectors : List String) (items : List RuleItem) (span : Span) :
    (rule ⟨selectors, items, span⟩).canonical?.map unplaced =
      some (rule ⟨selectors.map canonicalSelector, RuleItem.essence items, .unknown⟩) := rfl

theorem unplaced_media_canonical (query : String) (children : List Node) (span : Span) :
    (media query children span).canonical?.map unplaced =
      some (media (canonicalSelector query) (essence children) .unknown) := by
  simp [canonical?, unplaced, unplacedAll_eq_map, essence]

theorem unplaced_group_canonical (kind prelude : String) (children : List Node) (span : Span) :
    (group kind prelude children span).canonical?.map unplaced =
      some (group kind (canonicalSelector prelude) (essence children) .unknown) := by
  simp [canonical?, unplaced, unplacedAll_eq_map, essence]

theorem Edit.essence_eq {nodes nodes' : List Node} (h : Edit nodes nodes') :
    essence nodes = essence nodes' := by
  induction h with
  | insert c nodes => rfl
  | delete c nodes => rfl
  | reword c d nodes => rfl
  | move x span nodes =>
    apply essence_cons_congr
    cases x <;> rfl
  | respellSelector h before after items span nodes =>
    apply essence_cons_congr
    simp only [unplaced_rule_canonical, List.map_append, List.map_cons, h]
  | respellQuery h children span nodes =>
    apply essence_cons_congr
    rw [unplaced_media_canonical, unplaced_media_canonical, h]
  | respellPrelude h kind children span nodes =>
    apply essence_cons_congr
    rw [unplaced_group_canonical, unplaced_group_canonical, h]
  | insideRule h selectors span nodes =>
    apply essence_cons_congr
    rw [unplaced_rule_canonical, unplaced_rule_canonical, h.essence_eq]
  | insideMedia h query span nodes ih =>
    apply essence_cons_congr
    rw [unplaced_media_canonical, unplaced_media_canonical, ih]
  | insideGroup h kind prelude span nodes ih =>
    apply essence_cons_congr
    rw [unplaced_group_canonical, unplaced_group_canonical, ih]
  | later x h ih => rw [essence_cons, essence_cons, ih]

end Node

theorem Cosmetic.essence_eq {a b : Stylesheet} (h : Cosmetic a b) :
    Node.essence a.nodes = Node.essence b.nodes := by
  induction h with
  | refl => rfl
  | tail _ hedit ih => exact ih.trans hedit.essence_eq

/-! ## What a difference sees -/

theorem diff_changed_essence (a b : Stylesheet) :
    (diff a b).changed =
      !Node.sameSiblings (Node.comparisons (Node.essence a.nodes)) (Node.essence b.nodes) := by
  rw [diff_changed, Node.essence, Node.essence,
    Node.sameSiblings_unplaced fun x _ => Node.same_unplaced x]
  rfl

theorem diffPlaces_essence (a b : Stylesheet) :
    diffPlaces a b = Node.places (Node.essence a.nodes) (Node.essence b.nodes) :=
  (Node.places_unplaced _ _).symm

/-- **Cosmetic edits never influence the comparison.** The verdict is the same, the
same positions are reported, and a sheet does not differ from its edited copy. -/
theorem diff_cosmetic {a a' b b' : Stylesheet} (ha : Cosmetic a a') (hb : Cosmetic b b') :
    (diff a b).changed = (diff a' b').changed ∧
      (diff a b).ReportedAt a b (diffPlaces a b) ∧
      (diff a' b').ReportedAt a' b' (diffPlaces a b) ∧
      diff a a' = .unchanged := by
  have hplaces : diffPlaces a b = diffPlaces a' b' := by
    rw [diffPlaces_essence, diffPlaces_essence, ha.essence_eq, hb.essence_eq]
  refine ⟨?_, diff_reportedAt a b, ?_, ?_⟩
  · rw [diff_changed_essence, diff_changed_essence, ha.essence_eq, hb.essence_eq]
  · rw [hplaces]
    exact diff_reportedAt a' b'
  · rw [diff_eq_unchanged_iff, diff_changed_essence, ← ha.essence_eq, ← diff_changed_essence,
      diff_self]
    rfl

/-- Two values respelled inside a block on the left, and a comment in front on the
right, where one of the values differs. -/
theorem diff_cosmetic_twinRules :
    Cosmetic (twinRules "#FFF" "'x'") (twinRules "#fff" "\"x\"") ∧
      Cosmetic (twinRules "#fff" "'y'") ⟨.comment ⟨"y", ⟨1, 1⟩⟩ :: (twinRules "#fff" "'y'").nodes⟩ ∧
      (diff (twinRules "#FFF" "'x'") (twinRules "#fff" "'y'")).changed =
        (diff (twinRules "#fff" "\"x\"")
          ⟨.comment ⟨"y", ⟨1, 1⟩⟩ :: (twinRules "#fff" "'y'").nodes⟩).changed ∧
      (diff (twinRules "#fff" "\"x\"")
          ⟨.comment ⟨"y", ⟨1, 1⟩⟩ :: (twinRules "#fff" "'y'").nodes⟩).ReportedAt
        (twinRules "#fff" "\"x\"") ⟨.comment ⟨"y", ⟨1, 1⟩⟩ :: (twinRules "#fff" "'y'").nodes⟩
        ⟨[], [], [(0, 0)]⟩ := by
  have hcolour : Stylesheet.Edit (twinRules "#FFF" "'x'") (twinRules "#fff" "'x'") :=
    Node.Edit.insideMedia (.insideRule (.respell (by decide) ..) ..) ..
  have hquotes : Stylesheet.Edit (twinRules "#fff" "'x'") (twinRules "#fff" "\"x\"") :=
    Node.Edit.insideMedia (.later _ (.insideRule (.respell (by decide) ..) ..)) ..
  have ha : Cosmetic (twinRules "#FFF" "'x'") (twinRules "#fff" "\"x\"") :=
    (Relation.ReflTransGen.single hcolour).tail hquotes
  have hb : Cosmetic (twinRules "#fff" "'y'")
      ⟨.comment ⟨"y", ⟨1, 1⟩⟩ :: (twinRules "#fff" "'y'").nodes⟩ := .single (Node.Edit.insert ..)
  have hplaces :
      diffPlaces (twinRules "#FFF" "'x'") (twinRules "#fff" "'y'") = ⟨[], [], [(0, 0)]⟩ := by
    rfl
  obtain ⟨hchanged, -, hreported, -⟩ := diff_cosmetic ha hb
  exact ⟨ha, hb, hchanged, hplaces ▸ hreported⟩

end StyleDelta
