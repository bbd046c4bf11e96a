import Hypertext.Html.WellFormed
import Hypertext.Html.Writer
import Hypertext.Proofs.Html.Entity

/-!
# Merged trees

`Element.merged` drops empty texts and joins neighbouring ones.  The HTML of a tree does not change
by that, as `writeHtml_merged` says, so that a tree reads back as it was only if it is merged
already: `merged_eq_self_iff`.  All else that is said of the elements of a tree holds before exactly
if it holds after, by `every_merged_iff`.
-/

namespace Hypertext

open Html (joinText Joined Apart)

/-! ### Joining texts -/

namespace Html

/-- A text in front of others stands for itself, joined or not. -/
theorem writeHtmls_joinText (o : HtmlOptions) (escapes : Bool) (n : Node) (ns : List Node) :
  Node.writeHtmls o escapes (joinText n ns)
    = n.writeHtml o escapes ++ Node.writeHtmls o escapes ns
  := by
  fun_cases joinText n ns with
  | case1 content more ns =>
    cases escapes with
    | true => simp [Node.writeHtmls, Node.writeHtml, escapeText_append, String.append_assoc]
    | false => simp [Node.writeHtmls, Node.writeHtml, String.append_assoc]
  | case2 ns content _ hempty =>
    obtain rfl := String.isEmpty_iff.mp hempty
    cases escapes with
    | true => exact (String.empty_append).symm
    | false => exact (String.empty_append).symm
  | case3 ns content _ hempty => rfl
  | case4 => rfl

/-- Joining texts does not change the text. -/
theorem textContents_joinText (n : Node) (ns : List Node) :
  Node.textContents (joinText n ns) = n.textContent ++ Node.textContents ns
  := by
  fun_cases joinText n ns with
  | case1 content more ns =>
    simp [Node.textContents, Node.textContent, String.append_assoc]
  | case2 ns content _ hempty =>
    obtain rfl := String.isEmpty_iff.mp hempty
    exact (String.empty_append).symm
  | case3 ns content _ hempty => rfl
  | case4 => rfl

/-- Joining texts changes nothing of the elements. -/
theorem element_mem_joinText {e : Element} {n : Node} {ns : List Node} :
  .element e ∈ joinText n ns ↔ n = .element e ∨ .element e ∈ ns
  := by
  fun_cases joinText n ns with
  | case1 content more ns => simp
  | case2 ns content _ hempty => simp
  | case3 ns content _ hempty => simp
  | case4 n ns => simp [eq_comm]

/-- Among texts there are only texts after joining. -/
theorem isText_joinText {n : Node} {ns : List Node} (hn : n.isText) (hns : ∀ m ∈ ns, m.isText) :
  ∀ m ∈ joinText n ns, m.isText
  := by
  intro m hm
  cases m with
  | text content => rfl
  | element e =>
    rcases element_mem_joinText.mp hm with rfl | hmem
    · exact hn
    · exact hns _ hmem

/-- Whether a node may stand before others is decided by its kind. -/
theorem apart_cons_iff {n : Node} {ns : List Node} :
  Apart (n :: ns) ↔ (∀ m ∈ ns.head?, ¬(n.isText ∧ m.isText)) ∧ Apart ns
  := List.isChain_cons

/-- A node in front of nodes that are joined is joined with them. -/
theorem joined_joinText {n : Node} {ns : List Node} (h : Joined ns) :
  Joined (joinText n ns)
  := by
  obtain ⟨hnonempty, hapart⟩ := h
  fun_cases joinText n ns with
  | case1 content more ns =>
    rw [List.mem_cons, not_or, Node.text.injEq] at hnonempty
    obtain ⟨htexts, hns⟩ := apart_cons_iff.mp hapart
    constructor
    · rw [List.mem_cons, not_or, Node.text.injEq]
      refine ⟨?_, hnonempty.2⟩
      intro h
      exact hnonempty.1 (String.append_eq_empty_iff.mp h.symm).2.symm
    · exact apart_cons_iff.mpr ⟨htexts, hns⟩
  | case2 ns content _ hempty => exact ⟨hnonempty, hapart⟩
  | case3 ns content htext hempty =>
    constructor
    · rw [List.mem_cons, not_or, Node.text.injEq]
      refine ⟨?_, hnonempty⟩
      rintro rfl
      exact hempty rfl
    · rw [apart_cons_iff]
      refine ⟨?_, hapart⟩
      rintro (e | more) hm
      · simp [Node.isText, Node.text?]
      · obtain ⟨ns, rfl⟩ := List.head?_eq_some_iff.mp hm
        exact absurd rfl (htext more ns)
  | case4 n ns _ htext =>
    cases n with
    | text content => exact absurd rfl (htext content)
    | element e =>
      constructor
      · simpa using hnonempty
      · rw [apart_cons_iff]
        refine ⟨?_, hapart⟩
        rintro m - ⟨h, -⟩
        cases h

/-- There is nothing to be joined among nodes that are. -/
theorem joinText_of_joined {n : Node} {ns : List Node} (h : Joined (n :: ns)) :
  joinText n ns = n :: ns
  := by
  obtain ⟨hnonempty, hapart⟩ := h
  fun_cases joinText n ns with
  | case1 content more ns =>
    obtain ⟨htexts, -⟩ := apart_cons_iff.mp hapart
    exact absurd ⟨rfl, rfl⟩ (htexts (.text more) rfl)
  | case2 ns content _ hempty =>
    obtain rfl := String.isEmpty_iff.mp hempty
    exact absurd (.head ns) hnonempty
  | case3 ns content _ hempty => rfl
  | case4 => rfl

end Html

/-! ### Merging children -/

namespace Node

variable {ns : List Node}

/-- The first of some nodes is joined with the merged others. -/
theorem mergedAll_cons (n : Node) (ns : List Node) :
  mergedAll (n :: ns) = joinText n.merged (mergedAll ns)
  := rfl

/-- Merging turns no element into a text. -/
theorem isText_merged (n : Node) :
  n.merged.isText = n.isText
  := by
  cases n with
  | element e => rfl
  | text content => rfl

/-- Merging nodes does not change their HTML if merging the elements among them does not. -/
theorem writeHtmls_mergedAll {o : HtmlOptions} (escapes : Bool)
    (h : ∀ child, .element child ∈ ns → child.merged.writeHtml o = child.writeHtml o) :
  writeHtmls o escapes (mergedAll ns) = writeHtmls o escapes ns
  := by
  induction ns with
  | nil => rfl
  | cons n ns ih =>
    have hn : n.merged.writeHtml o escapes = n.writeHtml o escapes := by
      cases n with
      | element e => exact h e (.head ns)
      | text content => rfl
    rw [mergedAll_cons, Html.writeHtmls_joinText, hn,
      ih fun child hchild => h child (.tail n hchild)]
    rfl

/-- The elements among merged nodes are those among the nodes, merged. -/
theorem element_mem_mergedAll {e : Element} :
  .element e ∈ mergedAll ns ↔ ∃ child, .element child ∈ ns ∧ e = child.merged
  := by
  induction ns with
  | nil => simp [mergedAll]
  | cons n ns ih =>
    rw [mergedAll_cons, Html.element_mem_joinText, ih]
    cases n with
    | element e' => simp [merged, eq_comm]
    | text content => simp [merged]

/-- Merging texts leaves texts. -/
theorem isText_mergedAll (h : ∀ n ∈ ns, n.isText) :
  ∀ n ∈ mergedAll ns, n.isText
  := by
  induction ns with
  | nil => exact h
  | cons n ns ih =>
    obtain ⟨hn, hns⟩ := List.forall_mem_cons.mp h
    apply Html.isText_joinText ((isText_merged n).trans hn) (ih hns)

/-- Joining texts keeps all text that is not inside of other elements. -/
theorem textContents_mergedAll (h : ∀ n ∈ ns, n.isText) :
  textContents (mergedAll ns) = textContents ns
  := by
  induction ns with
  | nil => rfl
  | cons n ns ih =>
    obtain ⟨hn, hns⟩ := List.forall_mem_cons.mp h
    rw [mergedAll_cons, Html.textContents_joinText, ih hns]
    cases n with
    | element e => cases hn
    | text content => rfl

/-- Merged nodes are joined. -/
theorem joined_mergedAll (ns : List Node) :
  Joined (mergedAll ns)
  := by
  induction ns with
  | nil => exact ⟨List.not_mem_nil, .nil⟩
  | cons n ns ih => exact Html.joined_joinText ih

/-- Nodes that are joined are not changed by merging if the elements among them are not. -/
theorem mergedAll_of_joined (h : Joined ns)
    (hmerged : ∀ child, .element child ∈ ns → child.merged = child) :
  mergedAll ns = ns
  := by
  induction ns with
  | nil => rfl
  | cons n ns ih =>
    have hn : n.merged = n := by
      cases n with
      | element e => exact congrArg Node.element (hmerged e (.head ns))
      | text content => rfl
    rw [mergedAll_cons, hn, ih h.tail fun child hchild => hmerged child (.tail n hchild),
      Html.joinText_of_joined h]

end Node

/-! ### Merging trees -/

namespace Element

/-- The children of the merged element are the merged children. -/
theorem children_merged (e : Element) :
  e.merged.children = Node.mergedAll e.children
  := by
  cases e
  rfl

/-- Merging does not change a tag. -/
theorem tag_merged (e : Element) :
  e.merged.tag = e.tag
  := by
  cases e
  rfl

/-- Merging does not change attributes. -/
theorem attributes_merged (e : Element) :
  e.merged.attributes = e.attributes
  := by
  cases e
  rfl

/-- A merged tree is written as the tree that it was. -/
theorem writeHtml_merged (o : HtmlOptions) (e : Element) :
  e.merged.writeHtml o = e.writeHtml o
  := by
  induction e using induct with
  | step e ih =>
    obtain ⟨tag, attributes, children⟩ := e
    rw [merged, writeHtml, writeHtml, Node.writeHtmls_mergedAll _ ih]

/-- What holds of all elements of a merged tree is what holds of all elements of the tree when each
of them is merged. -/
theorem every_merged_iff {p : Element → Prop} {e : Element} :
  e.merged.Every p ↔ e.Every fun e => p e.merged
  := by
  constructor
  · intro h
    induction e using induct with
    | step e ih =>
      refine .intro h.root ?_
      intro child hchild
      apply ih child hchild
      apply h.child
      rw [children_merged, Node.element_mem_mergedAll]
      exact ⟨child, hchild, rfl⟩
  · intro h
    induction h with
    | intro root below ih =>
      refine .intro root ?_
      intro child hchild
      rw [children_merged, Node.element_mem_mergedAll] at hchild
      obtain ⟨child, hchild, rfl⟩ := hchild
      apply ih child hchild

/-- Merging does not change whether there is a void element in a tree. -/
theorem isVoidFree_merged_iff {e : Element} :
  e.merged.IsVoidFree ↔ e.IsVoidFree
  := by
  simp only [IsVoidFree, every_merged_iff, tag_merged]

/-- The children of every element of a merged tree are joined. -/
theorem every_joined_merged (e : Element) :
  e.merged.Every fun e => Joined e.children
  := by
  rw [every_merged_iff]
  induction e using induct with
  | step e ih =>
    apply Every.intro _ ih
    rw [children_merged]
    apply Node.joined_mergedAll

/-- A tree in which the children of every element are joined is merged. -/
theorem merged_of_joined {e : Element} (h : e.Every fun e => Joined e.children) :
  e.merged = e
  := by
  induction h with
  | @intro e root below ih =>
    obtain ⟨tag, attributes, children⟩ := e
    rw [merged, Node.mergedAll_of_joined root ih]

/-- A tree without empty texts is merged already exactly if no two neighbours in it are texts. -/
theorem merged_eq_self_iff {e : Element} (h : e.Every fun e => .text "" ∉ e.children) :
  e.merged = e ↔ e.IsApart
  := by
  constructor
  · intro heq
    rw [← heq]
    apply e.every_joined_merged.mono
    intro e he
    exact he.apart
  · intro hapart
    apply merged_of_joined
    apply (h.and hapart).mono
    rintro e ⟨hnonempty, hapart⟩
    exact ⟨hnonempty, hapart⟩

end Element

/-- Merging keeps an element such as it can be written. -/
theorem Html.WellFormed.merged {e : Element} (h : WellFormed e) :
  WellFormed e.merged
  where
  tag := e.tag_merged ▸ h.tag
  names := e.attributes_merged ▸ h.names
  void htag := by
    rw [e.tag_merged] at htag
    rw [e.children_merged, h.void htag]
    rfl
  isText htag := by
    rw [e.tag_merged] at htag
    rw [e.children_merged]
    apply Node.isText_mergedAll (h.isText htag)
  closer htag := by
    rw [e.tag_merged] at htag ⊢
    rw [e.children_merged, Node.textContents_mergedAll (h.isText htag)]
    apply h.closer htag

/-- A merged tree can be told from what is written for it, as the tree can. -/
theorem Element.every_wellFormed_merged {e : Element} (h : e.Every Html.WellFormed) :
  e.merged.Every Html.WellFormed
  := by
  rw [every_merged_iff]
  apply h.mono
  intro e he
  apply he.merged

end Hypertext
