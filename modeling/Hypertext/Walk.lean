import Hypertext.Effect
import Hypertext.Path
import Hypertext.Walk.Request

/-!
# Walks

A `Walk` goes through a tree in document order, texts included, and collects requests on its
way: the current node can be replaced, and the current element can be given to the rewriter of
the walk.  Nothing in the tree changes before the walk leaves a node.  Then `settle` finds out
what the node turns into, from the request made at it last and from what its children turned
into, and hands that on to the element above; what the root turns into is the result.

The stack of a walk has a `Frame` for the current node and one for each element above it.
`remaining_next` says that every successful step leaves one node less to visit.
-/

namespace Hypertext

/-- A node on the stack of a walk. -/
structure Frame where
  node : Node
  /-- The place of the node among the children of the element below on the stack. -/
  place : Nat
  /-- The requests for its children. -/
  requests : Requests

namespace Frame

/-- The frame of a node without requests. -/
def enter (node : Node) (place : Nat) : Frame := ⟨node, place, .empty⟩

/-- The frame with a request for a child. -/
def request (f : Frame) (place : Nat) (r : Request) : Frame :=
  { f with requests := f.requests.insert place r }

/-- The frame with the request for a child taken out. -/
def withdraw (f : Frame) (place : Nat) : Frame :=
  { f with requests := f.requests.erase place }

/-- The frame after a child was left: what the child turned into stands for it from now on. -/
def settle (f : Frame) (place : Nat) : Option (List Node) → Frame
  | some nodes => f.request place (.replace nodes)
  | none => f.withdraw place

@[simp]
theorem node_settle (f : Frame) (place : Nat) (nodes : Option (List Node)) :
  (f.settle place nodes).node = f.node
  := by
  cases nodes <;> rfl

@[simp]
theorem place_settle (f : Frame) (place : Nat) (nodes : Option (List Node)) :
  (f.settle place nodes).place = f.place
  := by
  cases nodes <;> rfl

/-- What the element of a frame is with the requests for its children carried out, if there are
any. -/
def rebuilt? (f : Frame) : Option Element :=
  match f.node with
  | .element e => if f.requests.isEmpty then none else some (rebuild f.requests e)
  | .text _ => none

end Frame

/-- Tells which nodes take the place of an element. -/
abbrev Rewriter (σ : Type) : Type := Element → Effect σ (List Node)

/-- What a node turns into when the walk leaves it with a request, or nothing if it stays. -/
def outcome {σ : Type} (rewriter : Option (Rewriter σ)) (f : Frame) :
    Option Request → Effect σ (Option (List Node))
  | some (.replace nodes) => pure (some nodes)
  | some .rewrite =>
    match f.rebuilt?.or f.node.element?, rewriter with
    | none, _ => .fail (.illegalRequest .rewriteOfSomeText)
    | some _, none => .fail (.illegalRequest .noRewriter)
    | some e, some rewriter => do return some (← rewriter e)
  | none => pure (f.rebuilt?.map fun e => [.element e])

/-- What the root turns into; it has to stay a single element. -/
def finish (root : Element) : Option (List Node) → Except Error Element
  | none => .ok root
  | some [.element e] => .ok e
  | some nodes => .error (.format (.rootNotOneElement nodes))

/-- A walk through a tree. -/
structure Walk (σ : Type) where
  root : Element
  rewriter : Option (Rewriter σ)
  /-- The state of the rewriter. -/
  memory : σ
  /-- The current node and the elements above it, nearest first. -/
  frames : List Frame
  /-- The request for the root. -/
  rootRequest : Option Request
  result : Option Element

namespace Walk

variable {σ : Type}

/-- The walk at the root of a tree. -/
def start (root : Element) (rewriter : Option (Rewriter σ)) (memory : σ) : Walk σ :=
  ⟨root, rewriter, memory, [.enter (.element root) 0], none, none⟩

/-! ### Where a walk is -/

/-- The current node; there is none when the walk has ended. -/
def current? (w : Walk σ) : Option Node := w.frames.head?.map (·.node)

/-- Whether the walk has ended. -/
def isEnd (w : Walk σ) : Bool := w.frames.isEmpty

/-- The number of nodes from the root down to the current node. -/
def depth (w : Walk σ) : Nat := w.frames.length

/-- The element above the current node. -/
def parent? (w : Walk σ) : Option Element := w.frames[1]?.bind (·.node.element?)

/-- The elements of a stack, each with its place in the next one. -/
def pathOf : List Frame → Path
  | [] => []
  | f :: below =>
    match f.node with
    | .element e => ⟨e, if below.isEmpty then none else some f.place⟩ :: pathOf below
    | .text _ => pathOf below

/-- The path of the current element, or of the element above the current text. -/
def path (w : Walk σ) : Path := pathOf w.frames

/-! ### Requests -/

/-- The walk with a request for the current node. -/
def request (r : Request) (w : Walk σ) : Except Error Unit × Walk σ :=
  match w.frames with
  | [] => (.error (.illegalRequest .walkEnded), w)
  | [_] => (.ok (), { w with rootRequest := some r })
  | f :: above :: rest => (.ok (), { w with frames := f :: above.request f.place r :: rest })

/-- Asks for nodes in place of the current one. -/
def replace (nodes : List Node) (w : Walk σ) : Except Error Unit × Walk σ :=
  w.request (.replace nodes)

/-- Asks the rewriter for nodes in place of the current element. -/
def rewriteCurrent (w : Walk σ) : Except Error Unit × Walk σ :=
  if w.rewriter.isNone then (.error (.illegalRequest .noRewriter), w)
  else
    match w.current? with
    | some (.element _) => w.request .rewrite
    | some (.text content) => (.error (.illegalRequest (.rewriteOfText content)), w)
    | none => (.error (.illegalRequest .walkEnded), w)

/-- Whether the current node is an element that a test of its path accepts. -/
def selected (accepts : Path → Bool) (w : Walk σ) : Bool :=
  match w.current? with
  | some (.element _) => accepts w.path
  | _ => false

/-! ### Steps -/

/-- Leaves the root. -/
def leaveRoot (w : Walk σ) (f : Frame) : Except Error Unit × Walk σ :=
  match outcome w.rewriter f w.rootRequest w.memory with
  | (.error e, memory) => (.error e, { w with frames := [], rootRequest := none, memory })
  | (.ok nodes, memory) =>
    match finish w.root nodes with
    | .error e => (.error e, { w with frames := [], rootRequest := none, memory })
    | .ok e => (.ok (), { w with frames := [], rootRequest := none, memory, result := some e })

/-- Leaves a node, given the frames above it, and goes on to the next node: the sibling after it,
or the one after the nearest element above it that has one. -/
def leave (w : Walk σ) (f : Frame) : List Frame → Except Error Unit × Walk σ
  | [] => w.leaveRoot f
  | above :: rest =>
    match outcome w.rewriter f (above.requests.get? f.place) w.memory with
    | (.error e, memory) =>
      (.error e, { w with frames := above.withdraw f.place :: rest, memory })
    | (.ok nodes, memory) =>
      let above := above.settle f.place nodes
      match above.node.children[f.place + 1]? with
      | some sibling =>
        (.ok (), { w with frames := .enter sibling (f.place + 1) :: above :: rest, memory })
      | none => leave { w with memory } above rest

/-- Goes on to the next node in document order; at the end nothing happens. -/
def next (w : Walk σ) : Except Error Unit × Walk σ :=
  match w.frames with
  | [] => (.ok (), w)
  | f :: rest =>
    match f.node.children with
    | child :: _ => (.ok (), { w with frames := .enter child 0 :: f :: rest })
    | [] => w.leave f rest

/-! ### Nodes to visit -/

/-- The number of nodes after a node in document order, outside of it, given its place and the
frames above it. -/
def after (place : Nat) : List Frame → Nat
  | [] => 0
  | above :: rest => Node.sizes (above.node.children.drop (place + 1)) + after above.place rest

/-- The number of nodes from the current one on, itself included, if its children are still to
come. -/
def remaining (w : Walk σ) : Nat :=
  match w.frames with
  | [] => 0
  | f :: rest => f.node.size + after f.place rest

/-- Nothing remains once the root is left. -/
theorem remaining_leaveRoot (w : Walk σ) (f : Frame) :
  (w.leaveRoot f).2.remaining = 0
  := by
  rw [leaveRoot]
  split
  · rfl
  · split <;> rfl

/-- From a place on the nodes have the size of the one at that place and of those after it. -/
theorem sizes_drop {children : List Node} {place : Nat} {sibling : Node}
    (h : children[place]? = some sibling) :
  Node.sizes (children.drop place) = sibling.size + Node.sizes (children.drop (place + 1))
  := by
  obtain ⟨hlt, rfl⟩ := List.getElem?_eq_some_iff.1 h
  rw [List.drop_eq_getElem_cons hlt]
  rfl

/-- Leaving a node leads to the nodes after it. -/
theorem remaining_leave (w : Walk σ) (f : Frame) (rest : List Frame)
    (h : (w.leave f rest).1 = .ok ()) :
  (w.leave f rest).2.remaining = after f.place rest
  := by
  induction rest generalizing w f with
  | nil => exact remaining_leaveRoot w f
  | cons above rest ih =>
    rw [leave] at h ⊢
    split at h
    · cases h
    · next nodes memory _ =>
      simp only [Frame.node_settle] at h ⊢
      split at h
      · next sibling hs =>
        simp only [remaining, after, Frame.enter, Frame.node_settle, Frame.place_settle,
          sizes_drop hs]
        omega
      · next hs =>
        rw [ih _ _ h, Frame.place_settle, after,
          List.drop_eq_nil_of_le (List.getElem?_eq_none_iff.1 hs)]
        simp [Node.sizes]

/-- A step that succeeds before the end leaves one node less to visit. -/
theorem remaining_next (w : Walk σ) (hend : w.isEnd = false) (h : w.next.1 = .ok ()) :
  w.next.2.remaining + 1 = w.remaining
  := by
  obtain ⟨root, rewriter, memory, frames, rootRequest, result⟩ := w
  match frames, hend with
  | f :: rest, _ =>
    rw [next] at h ⊢
    simp only at h ⊢
    split
    · next child children hc =>
      match hn : f.node with
      | .text content => simp [hn, Node.children] at hc
      | .element e =>
        simp only [hn, Node.children] at hc
        simp [remaining, after, Frame.enter, hn, Node.size, Element.size_eq, Node.children, hc,
          Node.sizes]
        omega
    · next hc =>
      rw [hc] at h
      simp only at h
      rw [remaining_leave _ _ _ h, remaining]
      match hn : f.node with
      | .text content => simp [hn, Node.size]; omega
      | .element e =>
        simp only [hn, Node.children] at hc
        simp [hn, Node.size, Element.size_eq, hc, Node.sizes]
        omega

/-- A request does not move the walk. -/
theorem remaining_request (r : Request) (w : Walk σ) :
  (w.request r).2.remaining = w.remaining
  := by
  obtain ⟨root, rewriter, memory, frames, rootRequest, result⟩ := w
  match frames with
  | [] => rfl
  | [_] => rfl
  | _ :: _ :: _ => rfl

/-- A request does not end the walk. -/
theorem isEnd_request (r : Request) (w : Walk σ) :
  (w.request r).2.isEnd = w.isEnd
  := by
  obtain ⟨root, rewriter, memory, frames, rootRequest, result⟩ := w
  match frames with
  | [] => rfl
  | [_] => rfl
  | _ :: _ :: _ => rfl

/-- Asking the rewriter does not move the walk. -/
theorem remaining_rewriteCurrent (w : Walk σ) :
  w.rewriteCurrent.2.remaining = w.remaining
  := by
  rw [rewriteCurrent]
  split
  · rfl
  · split
    · exact remaining_request _ w
    · rfl
    · rfl

/-- Asking the rewriter does not end the walk. -/
theorem isEnd_rewriteCurrent (w : Walk σ) :
  w.rewriteCurrent.2.isEnd = w.isEnd
  := by
  rw [rewriteCurrent]
  split
  · rfl
  · split
    · exact isEnd_request _ w
    · rfl
    · rfl

end Walk

end Hypertext
