import Hypertext.Proofs.Update

/-!
# Text under rewriting

`Rewriter.recorded` is a rewriter that also writes down its answers, each with the element that it
is for.  If every answer of a rewriting has the text of its element, then so has what any element
turns into, and the rewritten tree has the text of the tree, as `textContent_of_rewrite` says.

`Records` relates an effect with a rewriter to the one with the recorded rewriter, which does the
same, and says what the value of the effect is like if all answers are of that kind.
-/

namespace Hypertext

variable {σ α β : Type}

/-- The text of nodes is that of a first part and that of the rest. -/
theorem Node.textContents_append (ns ms : List Node) :
  Node.textContents (ns ++ ms) = Node.textContents ns ++ Node.textContents ms
  := by
  induction ns with
  | nil => rw [List.nil_append, Node.textContents, String.empty_append]
  | cons n ns ih =>
    rw [List.cons_append, Node.textContents, Node.textContents, ih, String.append_assoc]

/-- The text of a single node is its text. -/
theorem Node.textContents_singleton (n : Node) :
  Node.textContents [n] = n.textContent
  := by
  rw [Node.textContents, Node.textContents, String.append_empty]

/-- Attributes do not change the text of an element. -/
theorem Element.textContent_setAttributes (e : Element) (attributes : Attributes) :
  (e.setAttributes attributes).textContent = e.textContent
  := by
  rw [Element.textContent_eq, Element.textContent_eq]
  rfl

/-! ### Records of answers -/

/-- An element and the nodes that a rewriter gave for it. -/
structure Answer where
  element : Element
  nodes : List Node

/-- Whether an answer has the text of its element. -/
def Answer.KeepsText (a : Answer) : Prop := Node.textContents a.nodes = a.element.textContent

/-- The rewriter that writes down its answers. -/
def Rewriter.recorded (f : Rewriter σ) : Rewriter (σ × List Answer) := fun e m =>
  match f e m.1 with
  | (.ok nodes, memory) => (.ok nodes, memory, m.2 ++ [⟨e, nodes⟩])
  | (.error err, memory) => (.error err, memory, m.2)

/-- Whether one effect does the same as another and writes down answers of a rewriter, and has a
value of a kind if all these answers keep the text. -/
def Records (f : Rewriter σ) (x : Effect σ α) (y : Effect (σ × List Answer) α) (p : α → Prop) :
    Prop :=
  ∀ m log, ∃ answers, y (m, log) = ((x m).1, (x m).2, log ++ answers)
    ∧ (∀ a ∈ answers, ∃ memory, (f a.element memory).1 = .ok a.nodes)
    ∧ ((∀ a ∈ answers, a.KeepsText) → ∀ b, (x m).1 = .ok b → p b)

/-- Doing nothing records nothing. -/
theorem Records.pure (f : Rewriter σ) {p : α → Prop} {a : α} (h : p a) :
  Records f (pure a : Effect σ α) (pure a) p
  := by
  intro m log
  refine ⟨[], ?_, nofun, ?_⟩
  · rw [List.append_nil]
    rfl
  · intro _ b hb
    cases hb
    apply h

/-- What is recorded of actions one after the other is recorded of each. -/
theorem Records.bind {f : Rewriter σ} {x : Effect σ α} {y : Effect (σ × List Answer) α}
    {p : α → Prop} {q : β → Prop} {g : α → Effect σ β} {h : α → Effect (σ × List Answer) β}
    (hx : Records f x y p) (hg : ∀ a, Records f (g a) (h a) fun b => p a → q b) :
  Records f (x >>= g) (y >>= h) q
  := by
  intro m log
  obtain ⟨answers, hy, hgiven, hp⟩ := hx m log
  rcases hm : x m with ⟨e | a, m'⟩
  · rw [hm] at hy
    rw [Effect.bind_error hm, Effect.bind_error hy]
    exact ⟨answers, rfl, hgiven, nofun⟩
  · rw [hm] at hy hp
    obtain ⟨answers', hy', hgiven', hq⟩ := hg a m' (log ++ answers)
    rw [Effect.bind_ok hm, Effect.bind_ok hy, hy', List.append_assoc]
    refine ⟨answers ++ answers', rfl, List.forall_mem_append.mpr ⟨hgiven, hgiven'⟩, ?_⟩
    intro hkeeps b hb
    obtain ⟨hkeeps, hkeeps'⟩ := List.forall_mem_append.mp hkeeps
    apply hq hkeeps' b hb (hp hkeeps a rfl)

/-- What is known of the answers may be weakened. -/
theorem Records.mono {f : Rewriter σ} {x : Effect σ α} {y : Effect (σ × List Answer) α}
    {p q : α → Prop} (h : Records f x y p) (hpq : ∀ a, p a → q a) :
  Records f x y q
  := by
  intro m log
  obtain ⟨answers, hy, hgiven, hp⟩ := h m log
  exact ⟨answers, hy, hgiven, fun hkeeps a ha => hpq a (hp hkeeps a ha)⟩

/-- A rewriter records its answer. -/
theorem Records.rewriter (f : Rewriter σ) (e : Element) :
  Records f (f e) (f.recorded e) fun nodes => Node.textContents nodes = e.textContent
  := by
  intro m log
  rcases h : f e m with ⟨err | nodes, m'⟩
  · refine ⟨[], ?_, nofun, nofun⟩
    rw [Rewriter.recorded, h, List.append_nil]
  · refine ⟨[⟨e, nodes⟩], ?_, List.forall_mem_singleton.mpr ⟨m, by rw [h]⟩, ?_⟩
    · rw [Rewriter.recorded, h]
    · intro hkeeps b hb
      cases hb
      apply List.forall_mem_singleton.mp hkeeps

/-! ### What nodes turn into -/

section

variable (accepts : Path → Bool) (f : Rewriter σ)

mutual

/-- If all answers keep the text, an element turns into nodes with its text. -/
theorem Element.records_turned (above : Path) (place : Option Nat) (e : Element) :
  Records f (e.turned accepts f above place) (e.turned accepts f.recorded above place)
    fun nodes => Node.textContents nodes = e.textContent
  := by
  match e with
  | ⟨tag, attributes, children⟩ =>
    rw [Element.turned, Element.turned]
    apply (Node.records_turnedAll _ 0 children).bind
    intro nodes
    split
    · apply (Records.rewriter f ⟨tag, attributes, nodes⟩).mono
      intro answer hanswer hnodes
      apply hanswer.trans hnodes
    · apply Records.pure
      intro hnodes
      rw [Node.textContents_singleton]
      apply hnodes

/-- Rewriting keeps the text of a node if every answer that was given does. -/
theorem Node.records_turned (above : Path) (place : Nat) (n : Node) :
  Records f (n.turned accepts f above place) (n.turned accepts f.recorded above place)
    fun nodes => Node.textContents nodes = n.textContent
  := by
  match n with
  | .element e => apply Element.records_turned above (some place) e
  | .text content =>
    apply Records.pure
    apply Node.textContents_singleton

theorem Node.records_turnedAll (above : Path) (place : Nat) (ns : List Node) :
  Records f (Node.turnedAll accepts f above place ns)
    (Node.turnedAll accepts f.recorded above place ns)
    fun nodes => Node.textContents nodes = Node.textContents ns
  := by
  match ns with
  | [] =>
    apply Records.pure
    rfl
  | n :: ns =>
    rw [Node.turnedAll, Node.turnedAll, Node.textContents]
    apply (Node.records_turned above place n).bind
    intro nodes
    apply (Node.records_turnedAll above (place + 1) ns).bind
    intro more
    apply Records.pure
    intro hmore hnodes
    rw [Node.textContents_append, hnodes, hmore]

end

end

/-! ### Whole trees -/

namespace Selection

/-- Rewriting a selection keeps the text of the root if every answer that was given does. -/
theorem records_rewrite (f : Rewriter σ) (s : Selection) :
  Records f (s.rewrite f) (s.rewrite f.recorded) (·.textContent = s.walk.root.textContent)
  := by
  intro m log
  obtain ⟨answers, hrecorded, hgiven, htext⟩ :=
    Element.records_turned s.accepts f [] none s.walk.root m log
  rw [rewrite, rewrite, Element.rewrite_apply, Element.rewrite_apply, hrecorded]
  refine ⟨answers, rfl, hgiven, ?_⟩
  intro hkeeps result hresult
  rw [← Element.rewrite_apply] at hresult
  have hsingle : Node.textContents [.element result] = s.walk.root.textContent :=
    htext hkeeps _ (Element.turned_of_rewrite hresult)
  rwa [Node.textContents_singleton] at hsingle

/-- Changing a selection keeps the text of the root if each change does. -/
theorem textContent_of_change {g : Element → List Node}
    (hg : ∀ e, Node.textContents (g e) = e.textContent) (s : Selection) {result : Element}
    (h : s.change g = .ok result) :
  result.textContent = s.walk.root.textContent
  := by
  obtain ⟨answers, -, hgiven, htext⟩ := s.records_rewrite (fun e => pure (g e)) () []
  apply htext _ result h
  intro a ha
  obtain ⟨memory, hmemory⟩ := hgiven a ha
  rw [Answer.KeepsText, ← Except.ok.inj hmemory]
  apply hg

/-- Changing the elements of a selection keeps the text of the root if each change does. -/
theorem textContent_of_change_element {g : Element → Element}
    (hg : ∀ e, (g e).textContent = e.textContent) (s : Selection) {result : Element}
    (h : s.change (fun e => [.element (g e)]) = .ok result) :
  result.textContent = s.walk.root.textContent
  := by
  apply s.textContent_of_change _ h
  intro e
  rw [Node.textContents_singleton]
  apply hg

/-- A rewriting that succeeds keeps the text of the tree if every answer of the rewriter in it has
the text of the element that it is for.  Writing the answers down does not change the rewriting, and
the rewriter may keep a state, in which it gave the answer.  So wrapping, setting an attribute,
adding to the class list and taking from it keep the text, and replacing elements by their children
does. -/
theorem textContent_of_rewrite (s : Selection) :
  let keeps (x : Except Error Element) : Prop :=
    ∀ result, x = .ok result → result.textContent = s.walk.root.textContent
  (∀ (σ : Type) (f : Rewriter σ) (memory : σ), ∃ answers,
      s.rewrite f.recorded (memory, [])
          = ((s.rewrite f memory).1, (s.rewrite f memory).2, answers)
        ∧ (∀ a ∈ answers, ∃ memory, (f a.element memory).1 = .ok a.nodes)
        ∧ ((∀ a ∈ answers, Node.textContents a.nodes = a.element.textContent) →
          keeps (s.rewrite f memory).1))
    ∧ (∀ tag attributes, keeps (s.wrap tag attributes))
    ∧ (∀ name value, keeps (s.setAttribute name value))
    ∧ (∀ names, keeps (s.addClass names))
    ∧ (∀ name, keeps (s.removeClass name))
    ∧ keeps (s.change (·.children))
  := by
  intro keeps
  refine ⟨?_, ?_, ?_, ?_, ?_, ?_⟩
  · intro σ f memory
    obtain ⟨answers, hrecorded, hgiven, htext⟩ := s.records_rewrite f memory []
    exact ⟨answers, hrecorded, hgiven, htext⟩
  · intro tag attributes result
    apply s.textContent_of_change_element
    intro e
    apply Node.textContents_singleton
  · intro name value result
    apply s.textContent_of_change_element
    intro e
    apply e.textContent_setAttributes
  · intro names result
    apply s.textContent_of_change_element
    intro e
    rw [e.addClass_eq, e.textContent_setAttributes]
  · intro name result
    apply s.textContent_of_change_element
    intro e
    rw [e.removeClass_eq, e.textContent_setAttributes]
  · intro result
    apply s.textContent_of_change
    intro e
    rw [e.textContent_eq]

/-- A rewriter that unwraps one element and turns the other into its text keeps the text, and so
does wrapping them. -/
theorem textContent_of_rewrite_alternating :
  let inner : Element := ⟨"b", .empty, [.text "y"]⟩
  let outer : Element := ⟨"b", .empty, [.text "x", .element inner]⟩
  let root : Element := ⟨"a", .empty, [.element outer, .text "z"]⟩
  let s := ofElementTest (·.tag == "b") root
  let f : Rewriter Nat := fun e n =>
    (.ok (if n = 0 then e.children else [.element (.ofTag "i"), .text e.textContent]), n + 1)
  let result : Element := ⟨"a", .empty, [.element (.ofTag "i"), .text "xy", .text "z"]⟩
  let boxed (e : Element) : Node := .element ⟨"i", .empty, [.element e]⟩
  let wrapped : Element :=
    ⟨"a", .empty, [boxed ⟨"b", .empty, [.text "x", boxed inner]⟩, .text "z"]⟩
  let answers : List Answer :=
    [⟨inner, [.text "y"]⟩,
      ⟨outer.setChildren [.text "x", .text "y"], [.element (.ofTag "i"), .text "xy"]⟩]
  s.rewrite f.recorded (0, []) = (.ok result, 2, answers)
    ∧ (∀ a ∈ answers, Node.textContents a.nodes = a.element.textContent)
    ∧ (s.rewrite f 0).1 = .ok result
    ∧ result.textContent = root.textContent
    ∧ s.wrap "i" .empty = .ok wrapped
    ∧ wrapped.textContent = root.textContent
  := by
  intro inner outer root s f result boxed wrapped answers
  have hrun : s.rewrite f.recorded (0, []) = (.ok result, 2, answers) := by
    rw [rewrite, Element.rewrite_apply]
    rfl
  have hkeeps : ∀ a ∈ answers, Node.textContents a.nodes = a.element.textContent := by
    simp only [answers, List.forall_mem_cons]
    exact ⟨rfl, rfl, nofun⟩
  obtain ⟨hrewrite, hwrap, -⟩ := textContent_of_rewrite s
  obtain ⟨recorded, hrecorded, -, htext⟩ := hrewrite Nat f 0
  rw [hrun] at hrecorded
  obtain ⟨hresult, hstate⟩ := Prod.mk.inj hrecorded
  obtain ⟨-, rfl⟩ := Prod.mk.inj hstate
  have hwrapped : s.wrap "i" .empty = .ok wrapped := by
    rw [wrap, change, rewrite, Element.rewrite_apply]
    rfl
  refine ⟨hrun, hkeeps, hresult.symm, htext hkeeps result hresult.symm, hwrapped, ?_⟩
  apply hwrap "i" .empty wrapped hwrapped

end Selection

end Hypertext
