import Hypertext.Proofs.Walk.Rebuild
import Hypertext.Tree.Order
import Hypertext.Walk

/-!
# The stack of a walk

What the frames of a walk stand for.  `Walk.here?` tells at which node of the tree a walk is, and
`Walk.ahead` lists the nodes that it has still to visit; a step goes on to the next of them, as
`ahead_next` says, whatever was asked for.

`Frame.whole` is the node of a frame with what its children turned into in their places, and
`outcome_eq` says that leaving the node carries out the request for it on that.  `Stacked` holds
of the frames of a walk: each of them is the child at its place of the next one, the request for
it is one that the walk takes, and no child after it has a request.
-/

namespace Hypertext

variable {σ : Type}

/-! ### Requests -/

/-- Whether a walk takes a request at a node, given whether it has a rewriter: the rewriter is for
elements. -/
def Request.Allowed (hasRewriter : Bool) (n : Node) : Request → Prop
  | .replace _ => True
  | .rewrite => n.isText = false ∧ hasRewriter = true

instance (hasRewriter : Bool) (n : Node) (r : Request) : Decidable (r.Allowed hasRewriter n) :=
  match r with
  | .replace _ => .isTrue trivial
  | .rewrite => inferInstanceAs (Decidable (n.isText = false ∧ hasRewriter = true))

@[simp]
theorem Frame.node_request (f : Frame) (place : Nat) (r : Request) :
  (f.request place r).node = f.node
  := rfl

@[simp]
theorem Frame.place_request (f : Frame) (place : Nat) (r : Request) :
  (f.request place r).place = f.place
  := rfl

/-- A request for a child changes none for another. -/
theorem Frame.get?_request (f : Frame) (place other : Nat) (r : Request) :
  (f.request place r).requests.get? other
    = if other = place then some r else f.requests.get? other
  := f.requests.get?_insert place other r

/-- After a child was left, what it turned into is the request for it. -/
theorem Frame.get?_settle (f : Frame) (place other : Nat) (nodes : Option (List Node)) :
  (f.settle place nodes).requests.get? other
    = if other = place then nodes.map .replace else f.requests.get? other
  := by
  cases nodes with
  | none => apply Requests.get?_erase
  | some nodes => apply Frame.get?_request

/-! ### Splicing -/

/-- After a child was left, the children up to it stand for what the ones before it turned into
and what it turned into. -/
theorem splice_take_settle (f : Frame) {place : Nat} {n : Node} (nodes : Option (List Node))
    (h : f.node.children[place]? = some n) :
  splice (f.settle place nodes).requests 0 (f.node.children.take (place + 1))
    = splice f.requests 0 (f.node.children.take place) ++ nodes.getD [n]
  := by
  obtain ⟨hlt, rfl⟩ := List.getElem?_eq_some_iff.1 h
  have hlength : (f.node.children.take place).length = place := by
    rw [List.length_take]
    omega
  rw [List.take_succ_eq_append_getElem hlt, splice_append, hlength]
  congr 1
  · apply splice_congr
    intro i _ hi
    rw [Frame.get?_settle, if_neg (by omega)]
  · rw [splice, Requests.part, Frame.get?_settle, if_pos (by omega)]
    cases nodes with
    | none => rfl
    | some nodes => apply List.append_nil

/-! ### Outcomes -/

/-- The node with other children; a text has none. -/
def Node.setChildren (children : List Node) : Node → Node
  | .element e => .element (e.setChildren children)
  | .text content => .text content

/-- The node of a frame with what its children turned into in their places. -/
def Frame.whole (f : Frame) : Node := f.node.setChildren (splice f.requests 0 f.node.children)

/-- What a node turns into when a request for it is carried out: without a request, and without a
rewriter to ask, it stays. -/
def carryOut (rewriter : Option (Rewriter σ)) (n : Node) (q : Option Request) :
    Effect σ (List Node) :=
  match q, n, rewriter with
  | some (.replace nodes), _, _ => pure nodes
  | some .rewrite, .element e, some f => f e
  | _, _, _ => pure [n]

/-- The element of a frame is rebuilt, or it stays as it is if that comes to the same. -/
theorem Frame.or_rebuilt? (f : Frame) {e : Element} (h : f.node = .element e) :
  f.rebuilt?.or (some e) = some (rebuild f.requests e)
  := by
  simp only [rebuilt?, h]
  split
  · next hempty =>
    rw [Requests.eq_empty_of_isEmpty hempty, rebuild_eq, splice_empty]
    cases e
    rfl
  · rfl

theorem Frame.whole_element (f : Frame) {e : Element} (h : f.node = .element e) :
  f.whole = .element (rebuild f.requests e)
  := by
  rw [whole, h, rebuild_eq]
  rfl

/-- Leaving a node carries out the request for it on what its children made of it. -/
theorem outcome_eq (rewriter : Option (Rewriter σ)) (fr : Frame) (q : Option Request)
    (h : ∀ r, q = some r → r.Allowed rewriter.isSome fr.node) :
  (fun nodes => nodes.getD [fr.node]) <$> outcome rewriter fr q = carryOut rewriter fr.whole q
  := by
  match q, hn : fr.node with
  | some (.replace nodes), _ => rfl
  | some .rewrite, .text content =>
    have hallowed := h _ rfl
    simp [Request.Allowed, hn, Node.isText, Node.text?] at hallowed
  | none, .text content =>
    simp [outcome, Frame.rebuilt?, Frame.whole, hn, carryOut, Node.setChildren]
  | some .rewrite, .element e =>
    obtain ⟨-, hrewriter⟩ := h _ rfl
    obtain ⟨f, rfl⟩ := Option.isSome_iff_exists.mp hrewriter
    simp [outcome, hn, Node.element?, fr.or_rebuilt? hn, fr.whole_element hn, carryOut]
  | none, .element e =>
    have hrebuilt := fr.or_rebuilt? hn
    simp only [outcome, fr.whole_element hn, carryOut, map_pure]
    cases hr : fr.rebuilt? with
    | none =>
      rw [hr] at hrebuilt
      apply congrArg (fun e => pure [Node.element e]) (Option.some.inj hrebuilt)
    | some e' =>
      rw [hr] at hrebuilt
      apply congrArg (fun e => pure [Node.element e]) (Option.some.inj hrebuilt)

/-! ### Where a walk is -/

/-- A node and those in it, in document order. -/
def Visit.below (v : Visit) : List Visit :=
  match v.node with
  | .element e => e.visitsBelow v.above v.place
  | .text _ => [v]

/-- A node and what is below it are the node, and then its children with what is below them. -/
theorem Visit.below_eq (v : Visit) :
  v.below = v :: Node.visitsFrom v.path 0 v.node.children
  := by
  obtain ⟨⟨tag, attributes, children⟩ | content, place, above⟩ := v
  · rfl
  · rfl

/-- The nodes among children are those of the first child and those of the others. -/
theorem Node.visitsFrom_cons (above : Path) (place : Nat) (n : Node) (ns : List Node) :
  Node.visitsFrom above place (n :: ns)
    = Visit.below ⟨n, some place, above⟩ ++ Node.visitsFrom above (place + 1) ns
  := by
  cases n with
  | element e => rfl
  | text content => rfl

namespace Walk

/-- The node of a frame in its tree, given the frames above it. -/
def visitOf (f : Frame) (rest : List Frame) : Visit :=
  ⟨f.node, if rest.isEmpty then none else some f.place, pathOf rest⟩

/-- The node of the tree at which a walk is. -/
def here? (w : Walk σ) : Option Visit :=
  match w.frames with
  | [] => none
  | f :: rest => some (visitOf f rest)

/-- The nodes outside of a node that come after it in document order, given its place and the
frames above it. -/
def visitsAfter (place : Nat) : List Frame → List Visit
  | [] => []
  | above :: rest =>
    Node.visitsFrom (pathOf (above :: rest)) (place + 1) (above.node.children.drop (place + 1))
      ++ visitsAfter above.place rest

/-- The nodes that a walk has still to visit, from the one where it is. -/
def ahead (w : Walk σ) : List Visit :=
  match w.frames with
  | [] => []
  | f :: rest => (visitOf f rest).below ++ visitsAfter f.place rest

/-- At the start the whole tree is ahead. -/
theorem ahead_start (root : Element) (rewriter : Option (Rewriter σ)) (memory : σ) :
  (start root rewriter memory).ahead = root.visits
  := by
  rw [ahead, start]
  apply List.append_nil

/-- The path of a stack is that of its visit. -/
theorem pathOf_cons (f : Frame) (rest : List Frame) :
  pathOf (f :: rest) = (visitOf f rest).path
  := by
  obtain ⟨node, place, requests⟩ := f
  cases node with
  | element e => rfl
  | text content => rfl

/-- Settling a frame does not change the path. -/
@[simp]
theorem pathOf_settle (f : Frame) (place : Nat) (nodes : Option (List Node)) (rest : List Frame) :
  pathOf (f.settle place nodes :: rest) = pathOf (f :: rest)
  := by
  simp [pathOf_cons, visitOf]

/-- A walk has ended if it is nowhere. -/
theorem isEnd_eq (w : Walk σ) :
  w.isEnd = w.here?.isNone
  := by
  rw [isEnd, here?]
  cases w.frames with
  | nil => rfl
  | cons f rest => rfl

/-- A walk is at the first of the nodes that are ahead of it. -/
theorem head?_ahead (w : Walk σ) :
  w.ahead.head? = w.here?
  := by
  rw [ahead, here?]
  cases w.frames with
  | nil => rfl
  | cons f rest => simp [Visit.below_eq]

/-- Leaving a node leads to the nodes after it. -/
theorem ahead_leave (w : Walk σ) (f : Frame) (rest : List Frame)
    (h : (w.leave f rest).1 = .ok ()) :
  (w.leave f rest).2.ahead = visitsAfter f.place rest
  := by
  induction rest generalizing w f with
  | nil =>
    rw [leave, leaveRoot]
    split
    · rfl
    · split
      · rfl
      · rfl
  | cons above rest ih =>
    rw [leave] at h ⊢
    split at h
    · cases h
    · next nodes memory _ =>
      simp only [Frame.node_settle] at h ⊢
      rw [visitsAfter]
      split at h
      · next sibling hs =>
        obtain ⟨hlt, rfl⟩ := List.getElem?_eq_some_iff.1 hs
        simp only [ahead, visitOf, Frame.enter, pathOf_settle, List.isEmpty_cons, visitsAfter,
          Frame.node_settle, Frame.place_settle]
        rw [List.drop_eq_getElem_cons hlt, Node.visitsFrom_cons, List.append_assoc]
        rfl
      · next hs =>
        rw [ih _ _ h, Frame.place_settle, List.drop_eq_nil_of_le (List.getElem?_eq_none_iff.1 hs)]
        rfl

/-- A step that succeeds goes on to the next node in document order. -/
theorem ahead_next (w : Walk σ) {v : Visit} (hv : w.here? = some v) (h : w.next.1 = .ok ()) :
  w.ahead = v :: w.next.2.ahead
  := by
  obtain ⟨root, rewriter, memory, frames, rootRequest, result⟩ := w
  match frames with
  | f :: rest =>
    obtain rfl := Option.some.inj hv
    rw [next] at h ⊢
    simp only at h ⊢
    split
    · next child children hc =>
      simp only [ahead, visitsAfter, Visit.below_eq (visitOf f rest)]
      simp [visitOf, hc, Node.visitsFrom_cons, Frame.enter, pathOf_cons]
    · next hc =>
      rw [hc] at h
      simp only at h
      rw [ahead_leave _ _ _ h]
      simp [ahead, Visit.below_eq, visitOf, hc, Node.visitsFrom]

/-- A request does not move the walk. -/
theorem here?_request (r : Request) (w : Walk σ) :
  (w.request r).2.here? = w.here?
  := by
  obtain ⟨root, rewriter, memory, frames, rootRequest, result⟩ := w
  match frames with
  | [] => rfl
  | [_] => rfl
  | _ :: _ :: _ => rfl

/-- A request changes nothing of what is ahead. -/
theorem ahead_request (r : Request) (w : Walk σ) :
  (w.request r).2.ahead = w.ahead
  := by
  obtain ⟨root, rewriter, memory, frames, rootRequest, result⟩ := w
  match frames with
  | [] => rfl
  | [_] => rfl
  | _ :: _ :: _ => rfl

/-- Asking for the rewriter does not move the walk. -/
theorem here?_rewriteCurrent (w : Walk σ) :
  w.rewriteCurrent.2.here? = w.here?
  := by
  rw [rewriteCurrent]
  split
  · rfl
  · split
    · apply here?_request
    · rfl
    · rfl

/-- Asking for the rewriter changes nothing of what is ahead. -/
theorem ahead_rewriteCurrent (w : Walk σ) :
  w.rewriteCurrent.2.ahead = w.ahead
  := by
  rw [rewriteCurrent]
  split
  · rfl
  · split
    · apply ahead_request
    · rfl
    · rfl

/-! ### Stacks -/

/-- Whether frames lead from a node up to the root, each the child at its place of the next one,
with no request for a child after it, and none for itself that the walk does not take. -/
def Stacked (hasRewriter : Bool) (root : Element) : List Frame → Prop
  | [] => True
  | [f] => f.node = .element root
  | f :: above :: rest =>
    above.node.children[f.place]? = some f.node
      ∧ (∀ i, f.place < i → above.requests.get? i = none)
      ∧ (∀ r, above.requests.get? f.place = some r → r.Allowed hasRewriter f.node)
      ∧ Stacked hasRewriter root (above :: rest)

/-- The request for a node, given the one for the root, its place and the frames above it. -/
def requestFor (rootRequest : Option Request) (place : Nat) : List Frame → Option Request
  | [] => rootRequest
  | above :: _ => above.requests.get? place

/-- The requests for the children of the first node do not matter. -/
theorem Stacked.congr {hasRewriter : Bool} {root : Element} {f f' : Frame} {rest : List Frame}
    (h : Stacked hasRewriter root (f :: rest)) (hnode : f'.node = f.node)
    (hplace : f'.place = f.place) :
  Stacked hasRewriter root (f' :: rest)
  := by
  match rest, h with
  | [], h => simpa [Stacked, hnode] using h
  | _ :: _, h => simpa [Stacked, hnode, hplace] using h

end Walk

end Hypertext
