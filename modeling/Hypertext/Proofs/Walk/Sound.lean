import Hypertext.Proofs.Walk.Step
import Mathlib.Data.List.Chain

/-!
# Sound walks

A walk takes `Operation`s: steps, and requests at the node where it is.  `Walk.performAll` is the
walk after operations, whatever it answered to them; an error ends nothing.

`Walk.Sound` holds in every state that operations lead to, as `Sound.performAll` says: every frame
is that of a child of the next one, and what is asked for in a frame are replacements of children,
except for the request at the child on the stack, which is one that the walk took there.
-/

namespace Hypertext

variable {σ : Type}

/-! ### Operations -/

/-- What can be done with a walk. -/
inductive Operation where
  /-- Going on to the next node. -/
  | next
  /-- Making a request at the current node. -/
  | ask (r : Request)

namespace Walk

/-- The answer to an operation and the walk after it. -/
def perform : Operation → Walk σ → Except Error Unit × Walk σ
  | .next => next
  | .ask r => ask r

/-- The walk after operations, whatever it answered to them. -/
def performAll (ops : List Operation) (w : Walk σ) : Walk σ :=
  ops.foldl (fun w op => (w.perform op).2) w

/-- Operations are performed one after the other. -/
theorem performAll_cons (op : Operation) (ops : List Operation) (w : Walk σ) :
  w.performAll (op :: ops) = (w.perform op).2.performAll ops
  := rfl

end Walk

/-! ### Sound stacks -/

/-- What has a child is not a text. -/
theorem Node.isText_of_child {n child : Node} {place : Nat} (h : n.children[place]? = some child) :
  n.isText = false
  := by
  cases n with
  | element e => rfl
  | text content => cases h

/-- Whether all requests in a frame are replacements of children of its node. -/
def Frame.Settled (f : Frame) : Prop :=
  ∀ place r, f.requests.get? place = some r →
    place < f.node.children.length ∧ ∃ nodes, r = .replace nodes

theorem Frame.get?_withdraw (f : Frame) (place other : Nat) :
  (f.withdraw place).requests.get? other
    = if other = place then none else f.requests.get? other
  := f.requests.get?_erase place other

/-- A frame that was just entered is settled. -/
theorem Frame.settled_enter (n : Node) (place : Nat) :
  (enter n place).Settled
  := by
  intro place r h
  cases h

/-- What a child turned into is a replacement of it. -/
theorem Frame.Settled.settle {f : Frame} {place : Nat} (h : (f.withdraw place).Settled)
    (hplace : place < f.node.children.length) (nodes : Option (List Node)) :
  (f.settle place nodes).Settled
  := by
  intro other r hr
  rw [get?_settle] at hr
  rw [node_settle]
  split at hr
  · next heq =>
    obtain ⟨replacement, -, rfl⟩ := Option.map_eq_some_iff.mp hr
    exact ⟨heq ▸ hplace, replacement, rfl⟩
  · next hne =>
    apply h other r
    rwa [get?_withdraw, if_neg hne]

/-- Whether a frame is that of a child of the next one, in which nothing but replacements was
asked for besides a request for that child. -/
structure Frame.Under (hasRewriter : Bool) (f above : Frame) : Prop where
  child : above.node.children[f.place]? = some f.node
  settled : (above.withdraw f.place).Settled
  allowed : ∀ r, above.requests.get? f.place = some r → r.Allowed hasRewriter f.node

namespace Frame.Under

variable {hasRewriter : Bool} {f above : Frame}

/-- The node of a frame is a child of the element above. -/
theorem place_lt (h : f.Under hasRewriter above) :
  f.place < above.node.children.length
  := (List.getElem?_eq_some_iff.mp h.child).choose

/-- The element above is settled once the child is left. -/
theorem settle (h : f.Under hasRewriter above) (nodes : Option (List Node)) :
  (above.settle f.place nodes).Settled
  := h.settled.settle h.place_lt nodes

theorem lt_of_get? (h : f.Under hasRewriter above) {place : Nat} {r : Request}
    (hr : above.requests.get? place = some r) :
  place < above.node.children.length
  := by
  by_cases hplace : place = f.place
  · rw [hplace]
    apply h.place_lt
  · apply (h.settled place r _).1
    rw [get?_withdraw, if_neg hplace, hr]

/-- A request to rewrite is for the current child, which is an element, and there is a rewriter. -/
theorem of_rewrite (h : f.Under hasRewriter above) {place : Nat}
    (hr : above.requests.get? place = some .rewrite) :
  f.place = place ∧ f.node.isText = false ∧ hasRewriter = true
  := by
  by_cases hplace : place = f.place
  · subst hplace
    exact ⟨rfl, h.allowed _ hr⟩
  · have hwithdrawn : (above.withdraw f.place).requests.get? place = some .rewrite := by
      rw [get?_withdraw, if_neg hplace, hr]
    obtain ⟨-, nodes, hnodes⟩ := h.settled place _ hwithdrawn
    cases hnodes

/-- The requests in the frame of the child do not matter. -/
theorem congr {f' : Frame} (h : f.Under hasRewriter above) (hnode : f'.node = f.node)
    (hplace : f'.place = f.place) :
  f'.Under hasRewriter above
  := by
  obtain ⟨node, place, requests⟩ := f'
  obtain rfl : node = f.node := hnode
  obtain rfl : place = f.place := hplace
  exact ⟨h.child, h.settled, h.allowed⟩

/-- The frame of a child under one in which only replacements were asked for. -/
theorem enter {child : Node} {place : Nat} (h : above.Settled)
    (hchild : above.node.children[place]? = some child) :
  (Frame.enter child place).Under hasRewriter above
  where
  child := hchild
  settled := by
    intro other r hr
    rw [get?_withdraw] at hr
    split at hr
    · cases hr
    · apply h other r hr
  allowed := by
    intro r hr
    obtain ⟨-, nodes, rfl⟩ := h place r hr
    trivial

/-- A request for the child, instead of an earlier one. -/
theorem request (h : f.Under hasRewriter above) {r : Request}
    (hr : r.Allowed hasRewriter f.node) :
  f.Under hasRewriter (above.request f.place r)
  where
  child := h.child
  settled := by
    intro other r' hr'
    apply h.settled other r'
    rw [get?_withdraw] at hr' ⊢
    split at hr'
    · cases hr'
    · next hne =>
      rw [get?_request, if_neg hne] at hr'
      rwa [if_neg hne]
  allowed := by
    intro r' hr'
    rw [get?_request, if_pos rfl] at hr'
    obtain rfl := Option.some.inj hr'
    apply hr

end Frame.Under

namespace Walk

/-- Whether frames lead from a node up to the root, with nothing but replacements asked for in the
first one. -/
structure SoundStack (hasRewriter : Bool) (root : Element) (frames : List Frame) : Prop where
  top : ∀ f ∈ frames.head?, f.Settled
  under : frames.IsChain (Frame.Under hasRewriter)
  bottom : ∀ f ∈ frames.getLast?, f.node = .element root

/-- The requests in the first frame of a stack do not matter for how the frames lead to each other.
-/
theorem isChain_congr {hasRewriter : Bool} {f f' : Frame} {rest : List Frame}
    (hnode : f'.node = f.node) (hplace : f'.place = f.place)
    (h : (f :: rest).IsChain (Frame.Under hasRewriter)) :
  (f' :: rest).IsChain (Frame.Under hasRewriter)
  := by
  match rest, h with
  | [], _ => apply List.isChain_singleton
  | above :: rest, h =>
    obtain ⟨hunder, hchain⟩ := List.isChain_cons_cons.mp h
    exact .cons_cons (hunder.congr hnode hplace) hchain

theorem bottom_congr {f f' : Frame} {rest : List Frame} {n : Node} (hnode : f'.node = f.node)
    (h : ∀ g ∈ (f :: rest).getLast?, g.node = n) :
  ∀ g ∈ (f' :: rest).getLast?, g.node = n
  := by
  cases rest with
  | nil => simpa [hnode] using h
  | cons above rest => simpa using h

namespace SoundStack

variable {hasRewriter : Bool} {root : Element} {f above : Frame} {rest : List Frame}

/-- The empty stack is sound. -/
theorem nil :
  SoundStack hasRewriter root []
  where
  top := by simp
  under := .nil
  bottom := by simp

/-- The first frame of a sound stack is under the next one. -/
theorem head_under (h : SoundStack hasRewriter root (f :: above :: rest)) :
  f.Under hasRewriter above
  := (List.isChain_cons_cons.mp h.under).1

/-- The last frame of a sound stack is the root. -/
theorem node_eq (h : SoundStack hasRewriter root [f]) :
  f.node = .element root
  := h.bottom f rfl

/-- What a walk does when it leaves a node: the next frame learns what the node turned into. -/
theorem settle (h : SoundStack hasRewriter root (f :: above :: rest))
    (nodes : Option (List Node)) :
  SoundStack hasRewriter root (above.settle f.place nodes :: rest)
  := by
  obtain ⟨hunder, hchain⟩ := List.isChain_cons_cons.mp h.under
  constructor
  · intro g hg
    obtain rfl := Option.some.inj hg
    apply hunder.settle
  · apply isChain_congr (by simp) (by simp) hchain
  · exact bottom_congr (f := above) (by simp) h.bottom

/-- What a walk does when it goes on to a child. -/
theorem enter (h : SoundStack hasRewriter root (f :: rest)) {child : Node} {place : Nat}
    (hchild : f.node.children[place]? = some child) :
  SoundStack hasRewriter root (.enter child place :: f :: rest)
  where
  top := by
    intro g hg
    obtain rfl := Option.some.inj hg
    apply Frame.settled_enter
  under := .cons_cons (.enter (h.top f rfl) hchild) h.under
  bottom := by simpa using h.bottom

/-- What a walk does at a request. -/
theorem request (h : SoundStack hasRewriter root (f :: above :: rest)) {r : Request}
    (hr : r.Allowed hasRewriter f.node) :
  SoundStack hasRewriter root (f :: above.request f.place r :: rest)
  := by
  obtain ⟨hunder, hchain⟩ := List.isChain_cons_cons.mp h.under
  constructor
  · apply h.top
  · apply List.IsChain.cons_cons (hunder.request hr)
    exact isChain_congr (f := above) rfl rfl hchain
  · change ∀ g ∈ (above.request f.place r :: rest).getLast?, g.node = .element root
    exact bottom_congr (f := above) rfl h.bottom

/-- Each frame of a sound stack is under the next one. -/
theorem under_of_getElem? {frames : List Frame} (h : SoundStack hasRewriter root frames) {i : Nat}
    (hf : frames[i]? = some f) (habove : frames[i + 1]? = some above) :
  f.Under hasRewriter above
  := by
  obtain ⟨hi, rfl⟩ := List.getElem?_eq_some_iff.mp hf
  obtain ⟨hi', rfl⟩ := List.getElem?_eq_some_iff.mp habove
  apply List.isChain_iff_getElem.mp h.under

/-- A frame of the stack is the first one or stands below another one. -/
theorem settled_or_under {frames : List Frame} (h : SoundStack hasRewriter root frames) {i : Nat}
    (hi : frames[i]? = some above) :
  above.Settled ∨ ∃ j f, i = j + 1 ∧ frames[j]? = some f ∧ f.Under hasRewriter above
  := by
  match i with
  | 0 =>
    apply Or.inl
    apply h.top
    rwa [List.head?_eq_getElem?]
  | j + 1 =>
    have hj : j < frames.length := Nat.lt_of_succ_lt (List.getElem?_eq_some_iff.mp hi).choose
    have hf := List.getElem?_eq_getElem hj
    exact .inr ⟨j, frames[j], rfl, hf, h.under_of_getElem? hf hi⟩

/-- Only the first frame can be that of a text. -/
theorem isText_of_mem_tail {frames : List Frame} (h : SoundStack hasRewriter root frames) :
  ∀ f ∈ frames.tail, f.node.isText = false
  := by
  intro g hg
  obtain ⟨i, hi⟩ := List.mem_iff_getElem?.mp hg
  rw [List.getElem?_tail] at hi
  have hlt := (List.getElem?_eq_some_iff.mp hi).choose
  have hunder := h.under_of_getElem? (List.getElem?_eq_getElem (Nat.lt_of_succ_lt hlt)) hi
  apply Node.isText_of_child hunder.child

/-- All requests are for children. -/
theorem place_lt {frames : List Frame} (h : SoundStack hasRewriter root frames) :
  ∀ f ∈ frames, ∀ place r, f.requests.get? place = some r → place < f.node.children.length
  := by
  intro g hg place r hr
  obtain ⟨i, hi⟩ := List.mem_iff_getElem?.mp hg
  rcases h.settled_or_under hi with hsettled | ⟨j, f, -, -, hunder⟩
  · apply (hsettled place r hr).1
  · apply hunder.lt_of_get? hr

/-- A request for the rewriter is for the element of the frame above. -/
theorem of_rewrite {frames : List Frame} (h : SoundStack hasRewriter root frames) {i place : Nat}
    (habove : frames[i]? = some above) (hr : above.requests.get? place = some .rewrite) :
  hasRewriter = true
    ∧ ∃ j f, i = j + 1 ∧ frames[j]? = some f ∧ f.place = place ∧ f.node.isText = false
  := by
  rcases h.settled_or_under habove with hsettled | ⟨j, f, hj, hf, hunder⟩
  · obtain ⟨-, nodes, hnodes⟩ := hsettled place _ hr
    cases hnodes
  · obtain ⟨hplace, htext, hrewriter⟩ := hunder.of_rewrite hr
    exact ⟨hrewriter, j, f, hj, hf, hplace, htext⟩

end SoundStack

/-! ### Sound walks -/

/-- What holds of a walk in every state, also after errors: its stack is sound, a request for the
root is one that the walk takes, no request for the root is open at the end, and there is no result
before the end. -/
structure Sound (w : Walk σ) : Prop where
  stack : SoundStack w.rewriter.isSome w.root w.frames
  allowed : ∀ r, w.rootRequest = some r → r.Allowed w.rewriter.isSome (.element w.root)
  ended : w.frames = [] → w.rootRequest = none
  result : w.frames ≠ [] → w.result = none

theorem Sound.of_ne_nil {w : Walk σ} (hne : w.frames ≠ [])
    (hstack : SoundStack w.rewriter.isSome w.root w.frames)
    (hallowed : ∀ r, w.rootRequest = some r → r.Allowed w.rewriter.isSome (.element w.root))
    (hresult : w.result = none) :
  w.Sound
  := ⟨hstack, hallowed, fun hnil => absurd hnil hne, fun _ => hresult⟩

/-- A walk is sound when it starts. -/
theorem sound_start (root : Element) (rewriter : Option (Rewriter σ)) (memory : σ) :
  (start root rewriter memory).Sound
  := by
  apply Sound.of_ne_nil (List.cons_ne_nil _ _) _ _ rfl
  · constructor
    · intro f hf
      obtain rfl := Option.some.inj hf
      apply Frame.settled_enter
    · apply List.isChain_singleton
    · intro f hf
      obtain rfl := Option.some.inj hf
      rfl
  · intro r hr
    cases hr

/-- A request that the walk takes at the current node keeps the walk sound. -/
theorem Sound.request {w : Walk σ} (h : w.Sound) {r : Request}
    (hr : ∀ n ∈ w.current?, r.Allowed w.rewriter.isSome n) :
  (w.request r).2.Sound
  := by
  obtain ⟨root, rewriter, memory, frames, rootRequest, result⟩ := w
  match frames with
  | [] => exact h
  | [f] =>
    have hne := List.cons_ne_nil f []
    refine .of_ne_nil hne h.stack ?_ (h.result hne)
    intro r' hr'
    obtain rfl := Option.some.inj hr'
    have hroot : f.node = .element root := h.stack.node_eq
    apply hroot ▸ hr f.node rfl
  | f :: above :: rest =>
    have hstack := h.stack.request (hr f.node rfl)
    have hresult := h.result (List.cons_ne_nil f _)
    exact .of_ne_nil (List.cons_ne_nil _ _) hstack h.allowed hresult

/-- A walk makes a request if it takes it at the current node, and else refuses it. -/
theorem ask_cases (r : Request) (w : Walk σ) :
  w.ask r = w.request r ∧ (∀ n ∈ w.current?, r.Allowed w.rewriter.isSome n)
    ∨ ∃ e, w.ask r = (.error e, w)
  := by
  cases r with
  | replace nodes => exact .inl ⟨rfl, fun _ _ => trivial⟩
  | rewrite =>
    rw [ask, rewriteCurrent]
    cases hrewriter : w.rewriter with
    | none => exact .inr ⟨_, rfl⟩
    | some f =>
      rcases w.current? with _ | e | content
      · exact .inr ⟨_, rfl⟩
      · apply Or.inl
        constructor
        · rfl
        · intro n hn
          obtain rfl := Option.some.inj hn
          exact ⟨rfl, rfl⟩
      · exact .inr ⟨_, rfl⟩

/-- A request keeps a walk sound, also when it is refused. -/
theorem Sound.ask {w : Walk σ} (h : w.Sound) (r : Request) :
  (w.ask r).2.Sound
  := by
  rcases ask_cases r w with ⟨hask, hallowed⟩ | ⟨e, hask⟩
  · rw [hask]
    apply h.request hallowed
  · rw [hask]
    apply h

/-- A walk that leaves a node stays sound, whether it succeeds or not. -/
theorem Leaves.sound {w : Walk σ} {f : Frame} {rest fs : List Frame}
    {step : Except Error Unit × Walk σ} (h : Leaves w f rest fs step)
    (hstack : SoundStack w.rewriter.isSome w.root (f :: rest))
    (hallowed : ∀ r, w.rootRequest = some r → r.Allowed w.rewriter.isSome (.element w.root))
    (hresult : w.result = none) :
  step.2.Sound
  := by
  induction h with
  | rootFails hout => exact ⟨.nil, by simp, fun _ => rfl, fun _ => hresult⟩
  | rootRefused hout hfinish => exact ⟨.nil, by simp, fun _ => rfl, fun _ => hresult⟩
  | ends hout hfinish => exact ⟨.nil, by simp, fun _ => rfl, fun hne => absurd rfl hne⟩
  | fails hout => exact .of_ne_nil (List.cons_ne_nil _ _) (hstack.settle none) hallowed hresult
  | @goesOn w f above rest nodes sibling memory hout hsibling =>
    have hchild : (above.settle f.place nodes).node.children[f.place + 1]? = some sibling := by
      rw [Frame.node_settle, hsibling]
    have hstack' := (hstack.settle nodes).enter hchild
    exact .of_ne_nil (List.cons_ne_nil _ _) hstack' hallowed hresult
  | climbs hout hsibling habove ih => apply ih (hstack.settle _) hallowed hresult

/-- In the frames that a walk leaves, nothing but replacements of children was asked for. -/
theorem Leaves.settled {w : Walk σ} {f : Frame} {rest fs : List Frame}
    {step : Except Error Unit × Walk σ} (h : Leaves w f rest fs step)
    (hstack : SoundStack w.rewriter.isSome w.root (f :: rest)) :
  ∀ g ∈ fs, g.Settled
  := by
  induction h with
  | climbs hout hsibling habove ih =>
    exact List.forall_mem_cons.mpr ⟨hstack.top _ rfl, ih (hstack.settle _)⟩
  | _ => exact List.forall_mem_singleton.mpr (hstack.top _ rfl)

/-- A step keeps a walk sound, also when it fails. -/
theorem Steps.sound {w : Walk σ} {fs : List Frame} {step : Except Error Unit × Walk σ}
    (h : Steps w fs step) (hw : w.Sound) :
  step.2.Sound
  := by
  have hstack := hw.stack
  cases h with
  | stays hframes => exact hw
  | @enters f _ child _ hframes hchildren =>
    rw [hframes] at hstack
    have hchild : f.node.children[0]? = some child := by
      rw [hchildren]
      rfl
    have hstack' := hstack.enter hchild
    have hresult := hw.result (by simp [hframes])
    exact .of_ne_nil (List.cons_ne_nil _ _) hstack' hw.allowed hresult
  | leaves hframes hchildren hleaves =>
    rw [hframes] at hstack
    apply hleaves.sound hstack hw.allowed (hw.result (by simp [hframes]))

/-- The frames that a step leaves are settled. -/
theorem Steps.settled {w : Walk σ} {fs : List Frame} {step : Except Error Unit × Walk σ}
    (h : Steps w fs step) (hw : w.Sound) :
  ∀ g ∈ fs, g.Settled
  := by
  have hstack := hw.stack
  cases h with
  | stays hframes => apply List.forall_mem_nil
  | enters hframes hchildren => apply List.forall_mem_nil
  | leaves hframes hchildren hleaves =>
    rw [hframes] at hstack
    apply hleaves.settled hstack

theorem Leaves.same {w : Walk σ} {f : Frame} {rest fs : List Frame}
    {step : Except Error Unit × Walk σ} (h : Leaves w f rest fs step) :
  step.2.root = w.root ∧ step.2.rewriter = w.rewriter
  := by
  induction h with
  | climbs hout hsibling habove ih => exact ih
  | _ => exact ⟨rfl, rfl⟩

theorem Steps.same {w : Walk σ} {fs : List Frame} {step : Except Error Unit × Walk σ}
    (h : Steps w fs step) :
  step.2.root = w.root ∧ step.2.rewriter = w.rewriter
  := by
  cases h with
  | stays hframes => exact ⟨rfl, rfl⟩
  | enters hframes hchildren => exact ⟨rfl, rfl⟩
  | leaves hframes hchildren hleaves => apply hleaves.same

theorem root_request (r : Request) (w : Walk σ) :
  (w.request r).2.root = w.root
  := by
  obtain ⟨root, rewriter, memory, frames, rootRequest, result⟩ := w
  match frames with
  | [] => rfl
  | [_] => rfl
  | _ :: _ :: _ => rfl

/-- No operation changes the root or the rewriter of a walk. -/
theorem perform_same (op : Operation) (w : Walk σ) :
  (w.perform op).2.root = w.root ∧ (w.perform op).2.rewriter = w.rewriter
  := by
  cases op with
  | next => apply w.steps_next.same
  | ask r =>
    rw [perform]
    rcases ask_cases r w with ⟨hask, -⟩ | ⟨e, hask⟩
    · rw [hask]
      exact ⟨root_request r w, rewriter_request r w⟩
    · rw [hask]
      exact ⟨rfl, rfl⟩

/-- Every operation keeps a walk sound. -/
theorem Sound.perform {w : Walk σ} (h : w.Sound) (op : Operation) :
  (w.perform op).2.Sound
  := by
  cases op with
  | next => apply w.steps_next.sound h
  | ask r => apply h.ask r

/-- No operation changes the tree or the rewriter of a walk. -/
theorem performAll_same (ops : List Operation) (w : Walk σ) :
  (w.performAll ops).root = w.root ∧ (w.performAll ops).rewriter = w.rewriter
  := by
  induction ops generalizing w with
  | nil => exact ⟨rfl, rfl⟩
  | cons op ops ih =>
    obtain ⟨hroot, hrewriter⟩ := ih (w.perform op).2
    obtain ⟨hroot', hrewriter'⟩ := perform_same op w
    exact ⟨hroot.trans hroot', hrewriter.trans hrewriter'⟩

/-- Operations keep a walk sound, whatever the walk answers to them. -/
theorem Sound.performAll {w : Walk σ} (h : w.Sound) (ops : List Operation) :
  (w.performAll ops).Sound
  := by
  induction ops generalizing w with
  | nil => exact h
  | cons op ops ih => apply ih (h.perform op)

end Walk

end Hypertext
