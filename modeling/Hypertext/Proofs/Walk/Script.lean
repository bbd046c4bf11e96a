import Hypertext.Proofs.Walk.Stack

/-!
# Scripts

A `Script` tells what is asked for at each node of a tree.  `Walk.follow` walks through a tree and
makes the requests of a script on its way; `Element.scripted` says by recursion what comes of
them: the children first, from left to right, and then the node itself, by the last request for
it and with what the children turned into in their places.  `follow_start` says that the walk
comes to that.

Half-way, the stack of the walk stands for the part of the recursion that is still to be done:
`Walk.prospect` is what the walk will come to.  A step of the walk leaves it as it is, as
`prospect_next` says.
-/

namespace Hypertext

variable {σ : Type}

/-- What is asked for at each node of a tree, one request after the other. -/
abbrev Script : Type := Visit → List Request

namespace Script

/-- The request that counts at a node: the last one of those that the walk takes there, given
whether it has a rewriter. -/
def last? (s : Script) (hasRewriter : Bool) (v : Visit) : Option Request :=
  ((s v).filter (·.Allowed hasRewriter v.node)).getLast?

/-- The request that counts at a node is one that the walk takes there. -/
theorem allowed_of_last? {s : Script} {hasRewriter : Bool} {v : Visit} {r : Request}
    (h : s.last? hasRewriter v = some r) :
  r.Allowed hasRewriter v.node
  := by
  apply of_decide_eq_true (List.mem_filter.1 (List.mem_of_getLast? h)).2

end Script

/-! ### The recursion -/

mutual

/-- What a node turns into, given its place and the path above it. -/
def Node.scripted (s : Script) (rewriter : Option (Rewriter σ)) (above : Path)
    (place : Option Nat) : Node → Effect σ (List Node)
  | .element ⟨tag, attributes, children⟩ => do
    let path := ⟨⟨tag, attributes, children⟩, place⟩ :: above
    let nodes ← Node.scriptedAll s rewriter path 0 children
    carryOut rewriter (.element ⟨tag, attributes, nodes⟩)
      (s.last? rewriter.isSome ⟨.element ⟨tag, attributes, children⟩, place, above⟩)
  | .text content =>
    carryOut rewriter (.text content) (s.last? rewriter.isSome ⟨.text content, place, above⟩)

/-- What children turn into, given the place of the first and the path above them. -/
def Node.scriptedAll (s : Script) (rewriter : Option (Rewriter σ)) (above : Path) (place : Nat) :
    List Node → Effect σ (List Node)
  | [] => return []
  | n :: ns => do
    let nodes ← n.scripted s rewriter above (some place)
    let more ← Node.scriptedAll s rewriter above (place + 1) ns
    return nodes ++ more

end

/-- The tree with the requests of a script carried out, for the nodes inside an element before
the one for the element; the root has to stay a single element. -/
def Element.scripted (s : Script) (rewriter : Option (Rewriter σ)) (root : Element) :
    Effect σ Element := do
  match ← (Node.element root).scripted s rewriter [] none with
  | [.element e] => return e
  | nodes => .fail (.format (.rootNotOneElement nodes))

/-- A node turns into what its request makes of it with what its children turned into. -/
theorem Node.scripted_eq (s : Script) (rewriter : Option (Rewriter σ)) (v : Visit) :
  v.node.scripted s rewriter v.above v.place
    = (do
      let nodes ← Node.scriptedAll s rewriter v.path 0 v.node.children
      carryOut rewriter (v.node.setChildren nodes) (s.last? rewriter.isSome v))
  := by
  obtain ⟨⟨tag, attributes, children⟩ | content, place, above⟩ := v
  · rw [Node.scripted]
    rfl
  · rw [Node.scripted, Node.children, Node.scriptedAll, pure_bind]
    rfl

/-! ### Following a script -/

namespace Walk

/-- Makes a request at the current node. -/
def ask : Request → Walk σ → Except Error Unit × Walk σ
  | .replace nodes => replace nodes
  | .rewrite => rewriteCurrent

/-- The walk after requests at the current node, whatever it answered to them. -/
def askAll (rs : List Request) (w : Walk σ) : Walk σ := rs.foldl (fun w r => (w.ask r).2) w

theorem remaining_ask (r : Request) (w : Walk σ) :
  (w.ask r).2.remaining = w.remaining
  := by
  cases r with
  | replace nodes => apply remaining_request
  | rewrite => apply remaining_rewriteCurrent

theorem remaining_askAll (rs : List Request) (w : Walk σ) :
  (w.askAll rs).remaining = w.remaining
  := by
  induction rs generalizing w with
  | nil => rfl
  | cons r rs ih => exact (ih _).trans (remaining_ask r w)

/-- A request does not end the walk. -/
theorem isEnd_ask (r : Request) (w : Walk σ) :
  (w.ask r).2.isEnd = w.isEnd
  := by
  cases r with
  | replace nodes => apply isEnd_request
  | rewrite => apply isEnd_rewriteCurrent

theorem isEnd_askAll (rs : List Request) (w : Walk σ) :
  (w.askAll rs).isEnd = w.isEnd
  := by
  induction rs generalizing w with
  | nil => rfl
  | cons r rs ih => exact (ih _).trans (isEnd_ask r w)

/-- A request does not move the walk. -/
theorem here?_ask (r : Request) (w : Walk σ) :
  (w.ask r).2.here? = w.here?
  := by
  cases r with
  | replace nodes => apply here?_request
  | rewrite => apply here?_rewriteCurrent

/-- A request changes nothing of what is ahead. -/
theorem ahead_ask (r : Request) (w : Walk σ) :
  (w.ask r).2.ahead = w.ahead
  := by
  cases r with
  | replace nodes => apply ahead_request
  | rewrite => apply ahead_rewriteCurrent

end Walk

/-- What became of a walk: the nodes at which it was, the answer to its last step, and the walk
after that. -/
structure Run (σ : Type) where
  visited : List Visit
  answer : Except Error Unit
  last : Walk σ

namespace Walk

/-- Goes on to the end, or to the first step that fails, making the requests of a script at every
node. -/
def follow (s : Script) (w : Walk σ) : Run σ :=
  match _hhere : w.here? with
  | none => ⟨[], .ok (), w⟩
  | some v =>
    match _hnext : (w.askAll (s v)).next with
    | (.error e, w') => ⟨[v], .error e, w'⟩
    | (.ok (), w') =>
      let run := w'.follow s
      { run with visited := v :: run.visited }
termination_by w.remaining
decreasing_by
  have h₁ := isEnd_eq w
  have h₂ := remaining_askAll (s v) w
  have h₃ := isEnd_askAll (s v) w
  have h₄ := remaining_next (w.askAll (s v))
  simp_all
  omega

/-! ### Requests -/

/-- Of two requests at one node only the later one counts. -/
theorem request_request (r r' : Request) (w : Walk σ) :
  ((w.request r).2.request r').2 = (w.request r').2
  := by
  obtain ⟨root, rewriter, memory, frames, rootRequest, result⟩ := w
  match frames with
  | [] => rfl
  | [_] => rfl
  | _ :: _ :: _ => simp [request, Frame.request, Requests.insert_insert]

/-- A walk takes the requests that it allows at the current node and no others. -/
theorem ask_eq {w : Walk σ} {v : Visit} (hv : w.here? = some v) (r : Request) :
  (w.ask r).2 = if r.Allowed w.rewriter.isSome v.node then (w.request r).2 else w
  := by
  obtain ⟨root, rewriter, memory, frames, rootRequest, result⟩ := w
  match frames, r with
  | _, .replace nodes => rfl
  | ⟨n, place, requests⟩ :: rest, .rewrite =>
    obtain rfl := Option.some.inj hv
    cases rewriter with
    | none =>
      rw [if_neg]
      · rfl
      · rintro ⟨-, hrewriter⟩
        cases hrewriter
    | some f =>
      cases n with
      | element e => rfl
      | text content => rfl

/-- A request leaves the rewriter of the walk as it is. -/
theorem rewriter_request (r : Request) (w : Walk σ) :
  (w.request r).2.rewriter = w.rewriter
  := by
  obtain ⟨root, rewriter, memory, frames, rootRequest, result⟩ := w
  match frames with
  | [] => rfl
  | [_] => rfl
  | _ :: _ :: _ => rfl

/-- Of any requests at a node the last one that the walk takes counts. -/
theorem askAll_eq {w : Walk σ} {v : Visit} (hv : w.here? = some v) (rs : List Request) :
  w.askAll rs
    = match (rs.filter (·.Allowed w.rewriter.isSome v.node)).getLast? with
      | none => w
      | some r => (w.request r).2
  := by
  induction rs generalizing w with
  | nil => rfl
  | cons r rs ih =>
    have hask := ask_eq hv r
    rw [askAll, List.foldl_cons, ← askAll, hask]
    by_cases hr : r.Allowed w.rewriter.isSome v.node
    · rw [if_pos hr, ih ((here?_request r w).trans hv), rewriter_request, List.filter_cons,
        if_pos (decide_eq_true hr), List.getLast?_cons]
      cases (rs.filter (·.Allowed w.rewriter.isSome v.node)).getLast? with
      | none => rfl
      | some r' => apply request_request
    · rw [if_neg hr, ih hv, List.filter_cons, if_neg fun h => hr (of_decide_eq_true h)]

/-! ### What a walk will come to -/

/-- What a tree comes to, given what a node turned into, its place and the frames above it: the
children after the node are next, and then the element above it. -/
def ascend (s : Script) (rewriter : Option (Rewriter σ)) (root : Element)
    (rootRequest : Option Request) (place : Nat) (nodes : List Node) :
    List Frame → Effect σ Element
  | [] => .ofExcept (finish root (some nodes))
  | above :: rest => do
    let after := above.node.children.drop (place + 1)
    let more ← Node.scriptedAll s rewriter (pathOf (above :: rest)) (place + 1) after
    let before := splice above.requests 0 (above.node.children.take place)
    let turned ← carryOut rewriter (above.node.setChildren (before ++ nodes ++ more))
      (requestFor rootRequest above.place rest)
    ascend s rewriter root rootRequest above.place turned rest

/-- What a walk will come to if it follows a script from its current node on. -/
def prospect (s : Script) (rewriter : Option (Rewriter σ)) (w : Walk σ) : Effect σ Element :=
  match w.frames with
  | [] => .ofExcept (w.result.elim (.error (.illegalRequest .walkStopped)) .ok)
  | fr :: rest => do
    let v := visitOf fr rest
    let nodes ← v.node.scripted s rewriter v.above v.place
    ascend s rewriter w.root w.rootRequest fr.place nodes rest

/-- What a walk will come to if the given request is the one for its current node, and if it
follows a script from the next node on. -/
def prospectWith (s : Script) (rewriter : Option (Rewriter σ)) (q : Option Request)
    (w : Walk σ) : Effect σ Element :=
  match w.frames with
  | [] => .ofExcept (w.result.elim (.error (.illegalRequest .walkStopped)) .ok)
  | fr :: rest => do
    let nodes ← Node.scriptedAll s rewriter (pathOf (fr :: rest)) 0 fr.node.children
    let turned ← carryOut rewriter (fr.node.setChildren nodes) q
    ascend s rewriter w.root w.rootRequest fr.place turned rest

/-- What a walk will come to is decided by the last request of the script for its current node. -/
theorem prospect_eq (s : Script) (rewriter : Option (Rewriter σ)) {w : Walk σ} {v : Visit}
    (hv : w.here? = some v) :
  w.prospect s rewriter = w.prospectWith s rewriter (s.last? rewriter.isSome v)
  := by
  obtain ⟨root, rewriter, memory, frames, rootRequest, result⟩ := w
  match frames with
  | fr :: rest =>
    obtain rfl := Option.some.inj hv
    simp only [prospect, prospectWith, Node.scripted_eq, pathOf_cons, bind_assoc]
    rfl

/-- The request for the current node does not matter to what is above. -/
theorem prospectWith_request (s : Script) (rewriter : Option (Rewriter σ)) (q : Option Request)
    (r : Request) (w : Walk σ) :
  (w.request r).2.prospectWith s rewriter q = w.prospectWith s rewriter q
  := by
  obtain ⟨root, rewriter, memory, frames, rootRequest, result⟩ := w
  match frames with
  | [] => rfl
  | [_] => rfl
  | fr :: above :: rest =>
    have hsplice : splice (above.request fr.place r).requests 0 (above.node.children.take fr.place)
        = splice above.requests 0 (above.node.children.take fr.place) := by
      apply splice_congr
      intro i _ hi
      have hlength := List.length_take_le fr.place above.node.children
      rw [Frame.get?_request, if_neg (by omega)]
    simp only [request, prospectWith, ascend, pathOf_cons, visitOf, List.isEmpty_cons,
      Frame.node_request, Frame.place_request, hsplice]

/-! ### Steps -/

/-- The request for the current node. -/
def pending? (w : Walk σ) : Option Request :=
  match w.frames with
  | [] => none
  | fr :: rest => requestFor w.rootRequest fr.place rest

/-- A request leaves the state of the rewriter as it is. -/
theorem memory_request (r : Request) (w : Walk σ) :
  (w.request r).2.memory = w.memory
  := by
  obtain ⟨root, rewriter, memory, frames, rootRequest, result⟩ := w
  match frames with
  | [] => rfl
  | [_] => rfl
  | _ :: _ :: _ => rfl

/-- What holds of a walk with a given rewriter, or none, before each step, up to the first that
fails: its frames are stacked, nothing was asked for below the current node, a request for the root
is one that the walk takes, and there is a result at the end only. -/
structure Ready (rewriter : Option (Rewriter σ)) (w : Walk σ) : Prop where
  rewriter_eq : w.rewriter = rewriter
  stacked : Stacked rewriter.isSome w.root w.frames
  unasked : ∀ fr ∈ w.frames.head?, fr.requests = .empty
  allowed : ∀ r, w.rootRequest = some r → r.Allowed rewriter.isSome (.element w.root)
  result : w.result.isSome = w.isEnd

/-- A walk is ready at the start. -/
theorem ready_start (root : Element) (rewriter : Option (Rewriter σ)) (memory : σ) :
  (start root rewriter memory).Ready rewriter
  where
  rewriter_eq := rfl
  stacked := rfl
  unasked := by simp [start, Frame.enter]
  allowed := by simp [start]
  result := rfl

/-- A request that the walk takes at the current node is then the one for it, and all else holds
on. -/
theorem Ready.request {rewriter : Option (Rewriter σ)} {w : Walk σ} (h : w.Ready rewriter)
    {v : Visit} (hv : w.here? = some v) {r : Request} (hr : r.Allowed rewriter.isSome v.node) :
  (w.request r).2.Ready rewriter ∧ (w.request r).2.pending? = some r
  := by
  obtain ⟨root, _, memory, frames, rootRequest, result⟩ := w
  obtain ⟨hrewriter, hstacked, hunasked, hallowed, hresult⟩ := h
  match frames with
  | [fr] =>
    obtain rfl := Option.some.inj hv
    have hroot : fr.node = .element root := hstacked
    constructor
    · refine ⟨hrewriter, hstacked, hunasked, ?_, hresult⟩
      intro r' hr'
      obtain rfl := Option.some.inj hr'
      show r.Allowed rewriter.isSome (.element root)
      rw [← hroot]
      apply hr
    · rfl
  | fr :: above :: rest =>
    obtain rfl := Option.some.inj hv
    obtain ⟨hchild, hafter, -, habove⟩ := hstacked
    have hpending : (above.request fr.place r).requests.get? fr.place = some r := by
      rw [Frame.get?_request, if_pos rfl]
    constructor
    · refine ⟨hrewriter, ⟨hchild, ?_, ?_, ?_⟩, hunasked, hallowed, hresult⟩
      · intro i hi
        rw [Frame.get?_request, if_neg (by omega)]
        apply hafter i hi
      · intro r' hr'
        obtain rfl := Option.some.inj (hpending.symm.trans hr')
        apply hr
      · exact habove.congr rfl rfl
    · apply hpending

/-- What comes after a child when there is another one: that one, and then what comes after it. -/
theorem ascend_sibling (s : Script) (rewriter : Option (Rewriter σ)) (root : Element)
    (q : Option Request) {above : Frame} {rest : List Frame} {place : Nat} {n sibling : Node}
    (nodes : Option (List Node)) (hn : above.node.children[place]? = some n)
    (hs : above.node.children[place + 1]? = some sibling) :
  ascend s rewriter root q place (nodes.getD [n]) (above :: rest)
    = (do
      let turned ← sibling.scripted s rewriter (pathOf (above :: rest)) (some (place + 1))
      ascend s rewriter root q (place + 1) turned (above.settle place nodes :: rest))
  := by
  obtain ⟨hlt, rfl⟩ := List.getElem?_eq_some_iff.1 hs
  rw [ascend, List.drop_eq_getElem_cons hlt]
  simp only [Node.scriptedAll, ascend, pathOf_settle, Frame.node_settle, Frame.place_settle,
    splice_take_settle above nodes hn, bind_assoc, pure_bind, List.append_assoc]

/-- What comes after the last child: the element above, with what its children turned into. -/
theorem ascend_last (s : Script) (rewriter : Option (Rewriter σ)) (root : Element)
    (q : Option Request) {above : Frame} {rest : List Frame} {place : Nat} {n : Node}
    (nodes : Option (List Node)) (hn : above.node.children[place]? = some n)
    (hs : above.node.children[place + 1]? = none) :
  ascend s rewriter root q place (nodes.getD [n]) (above :: rest)
    = (do
      let turned ← carryOut rewriter (above.settle place nodes).whole
        (requestFor q above.place rest)
      ascend s rewriter root q above.place turned rest)
  := by
  have hlength := List.getElem?_eq_none_iff.1 hs
  have hsplice := splice_take_settle above nodes hn
  rw [List.take_of_length_le hlength] at hsplice
  simp only [ascend, List.drop_eq_nil_of_le hlength, Node.scriptedAll, pure_bind, Frame.whole,
    Frame.node_settle, hsplice, List.append_nil]

/-- Whether a step keeps what was to come: it fails as that does, or it leads to a walk without a
request for its current node that will come to the same. -/
def Keeps (s : Script) (rewriter : Option (Rewriter σ)) (x : Effect σ Element) (memory : σ) :
    Except Error Unit × Walk σ → Prop
  | (.error e, w) => x memory = (.error e, w.memory) ∧ w.result = none
  | (.ok (), w) =>
    x memory = w.prospect s rewriter w.memory ∧ w.Ready rewriter ∧ w.pending? = none

/-- A step keeps what comes to the same as what it keeps. -/
theorem Keeps.of_eq {s : Script} {rewriter : Option (Rewriter σ)} {x y : Effect σ Element}
    {m m' : σ} {step : Except Error Unit × Walk σ} (h : x m = y m')
    (hy : Keeps s rewriter y m' step) :
  Keeps s rewriter x m step
  := by
  obtain ⟨e | _, w⟩ := step
  · exact ⟨h.trans hy.1, hy.2⟩
  · exact ⟨h.trans hy.1, hy.2⟩

/-- Leaving the root keeps what comes of carrying out the request for it. -/
theorem keeps_leaveRoot (s : Script) (rewriter : Option (Rewriter σ)) (w : Walk σ) (fr : Frame)
    (hrewriter : w.rewriter = rewriter) (hstacked : Stacked rewriter.isSome w.root [fr])
    (hallowed : ∀ r, w.rootRequest = some r → r.Allowed rewriter.isSome (.element w.root))
    (hresult : w.result = none) :
  Keeps s rewriter
    (carryOut rewriter fr.whole w.rootRequest >>= fun nodes =>
      .ofExcept (finish w.root (some nodes)))
    w.memory (w.leaveRoot fr)
  := by
  have hroot : fr.node = .element w.root := hstacked
  have hcarry := outcome_eq rewriter fr w.rootRequest fun r hr => hroot ▸ hallowed r hr
  rw [leaveRoot, hrewriter]
  rcases hout : outcome rewriter fr w.rootRequest w.memory with ⟨e | nodes, memory⟩
  · constructor
    · rw [← hcarry, Effect.bind_error (Effect.map_error _ hout)]
    · apply hresult
  · have hfinish : finish w.root (some (nodes.getD [fr.node])) = finish w.root nodes := by
      cases nodes with
      | none => rw [hroot]; rfl
      | some nodes => rfl
    have hdone : (carryOut rewriter fr.whole w.rootRequest >>= fun nodes =>
        .ofExcept (finish w.root (some nodes))) w.memory = (finish w.root nodes, memory) := by
      rw [← hcarry, Effect.bind_ok (Effect.map_ok _ hout), hfinish]
      rfl
    simp only
    cases he : finish w.root nodes with
    | error e =>
      constructor
      · rw [hdone, he]
      · apply hresult
    | ok e =>
      constructor
      · rw [hdone, he]
        rfl
      · constructor
        · exact ⟨rfl, trivial, by simp, by simp, rfl⟩
        · rfl

/-- Going on to the sibling after a node keeps what comes of settling the node. -/
theorem keeps_sibling (s : Script) (rewriter : Option (Rewriter σ)) (w : Walk σ) {fr above : Frame}
    {rest : List Frame} {sibling : Node} (memory : σ) (nodes : Option (List Node))
    (hrewriter : w.rewriter = rewriter)
    (hstacked : Stacked rewriter.isSome w.root (fr :: above :: rest))
    (hallowed : ∀ r, w.rootRequest = some r → r.Allowed rewriter.isSome (.element w.root))
    (hs : above.node.children[fr.place + 1]? = some sibling) (hresult : w.result = none) :
  Keeps s rewriter
    (ascend s rewriter w.root w.rootRequest fr.place (nodes.getD [fr.node]) (above :: rest)) memory
    (.ok (), { w with
      frames := .enter sibling (fr.place + 1) :: above.settle fr.place nodes :: rest
      memory })
  := by
  obtain ⟨hchild, hafter, -, habove⟩ := hstacked
  have hnone : ∀ i, fr.place < i → (above.settle fr.place nodes).requests.get? i = none := by
    intro i hi
    rw [Frame.get?_settle, if_neg (by omega), hafter i hi]
  have hpending := hnone (fr.place + 1) (by omega)
  constructor
  · rw [ascend_sibling s rewriter w.root w.rootRequest nodes hchild hs]
    simp [prospect, visitOf, Frame.enter]
  · constructor
    · refine ⟨hrewriter, ⟨?_, ?_, ?_, ?_⟩, ?_, hallowed, ?_⟩
      · simpa [Frame.enter] using hs
      · intro i hi
        apply hnone i (Nat.lt_of_succ_lt hi)
      · intro r hr
        cases hpending.symm.trans hr
      · apply habove.congr (by simp) (by simp)
      · simp [Frame.enter]
      · simp [hresult, isEnd]
    · apply hpending

/-- Leaving a node keeps what comes of carrying out the request for it. -/
theorem keeps_leave (s : Script) (rewriter : Option (Rewriter σ)) (w : Walk σ) (fr : Frame)
    (rest : List Frame) (hrewriter : w.rewriter = rewriter)
    (hstacked : Stacked rewriter.isSome w.root (fr :: rest))
    (hallowed : ∀ r, w.rootRequest = some r → r.Allowed rewriter.isSome (.element w.root))
    (hresult : w.result = none) :
  Keeps s rewriter
    (do
      let turned ← carryOut rewriter fr.whole (requestFor w.rootRequest fr.place rest)
      ascend s rewriter w.root w.rootRequest fr.place turned rest)
    w.memory (w.leave fr rest)
  := by
  induction rest generalizing w fr with
  | nil => apply keeps_leaveRoot s rewriter w fr hrewriter hstacked hallowed hresult
  | cons above rest ih =>
    obtain ⟨hchild, hafter, htakes, habove⟩ := hstacked
    have hcarry := outcome_eq rewriter fr (above.requests.get? fr.place) htakes
    rw [leave, requestFor]
    rcases hout : outcome w.rewriter fr (above.requests.get? fr.place) w.memory with
      ⟨e | nodes, memory⟩ <;> rw [hrewriter] at hout
    · constructor
      · rw [← hcarry, Effect.bind_error (Effect.map_error _ hout)]
      · apply hresult
    · apply Keeps.of_eq (Effect.bind_ok (hcarry ▸ Effect.map_ok _ hout))
      simp only [Frame.node_settle]
      cases hs : above.node.children[fr.place + 1]? with
      | some sibling =>
        apply keeps_sibling s rewriter w memory nodes hrewriter ⟨hchild, hafter, htakes, habove⟩
          hallowed hs hresult
      | none =>
        have hup := ih { w with memory } (above.settle fr.place nodes) hrewriter
          (habove.congr (Frame.node_settle ..) (Frame.place_settle ..)) hallowed hresult
        apply Keeps.of_eq
          (congrFun (ascend_last s rewriter w.root w.rootRequest nodes hchild hs) memory)
        rw [Frame.place_settle] at hup
        apply hup

/-- A step keeps what was to come with the request for the current node. -/
theorem keeps_next (s : Script) {rewriter : Option (Rewriter σ)} {w : Walk σ}
    (h : w.Ready rewriter) (hend : w.isEnd = false) :
  Keeps s rewriter (w.prospectWith s rewriter w.pending?) w.memory w.next
  := by
  obtain ⟨root, rewriter', memory, frames, rootRequest, result⟩ := w
  obtain ⟨hrewriter, hstacked, hunasked, hallowed, hresult⟩ := h
  match frames with
  | fr :: rest =>
    have hempty : fr.requests = .empty := hunasked fr rfl
    have hnone : result = none := by simpa [isEnd] using hresult
    rw [next]
    simp only
    split
    · next child children hc =>
      constructor
      · simp only [prospectWith, prospect, pending?, hc, Node.scriptedAll, ascend, visitOf,
          Frame.enter, hempty, List.take_zero, splice, List.drop_succ_cons, List.drop_zero,
          bind_assoc, pure_bind, List.nil_append]
        rfl
      · have hopen : ∀ i, fr.requests.get? i = none := by
          intro i
          rw [hempty, Requests.get?_empty]
        constructor
        · refine ⟨hrewriter, ⟨?_, fun i _ => hopen i, ?_, hstacked⟩, ?_, hallowed, ?_⟩
          · simp [Frame.enter, hc]
          · intro r hr
            cases (hopen _).symm.trans hr
          · simp [Frame.enter]
          · simp [hnone, isEnd]
        · apply hopen
    · next hc =>
      have hwhole : fr.whole = fr.node.setChildren [] := by
        rw [Frame.whole, hc]
        rfl
      have hleave := keeps_leave s rewriter
        ⟨root, rewriter', memory, fr :: rest, rootRequest, result⟩ fr rest hrewriter hstacked
        hallowed hnone
      apply Keeps.of_eq _ hleave
      simp only [prospectWith, pending?, hc, Node.scriptedAll, pure_bind, hwhole]

/-- The requests of a script do not change what it will come to. -/
theorem ready_askAll {s : Script} {rewriter : Option (Rewriter σ)} {w : Walk σ} {v : Visit}
    (h : w.Ready rewriter) (hnone : w.pending? = none) (hv : w.here? = some v) :
  (w.askAll (s v)).Ready rewriter
    ∧ (w.askAll (s v)).prospectWith s rewriter (w.askAll (s v)).pending? = w.prospect s rewriter
    ∧ (w.askAll (s v)).memory = w.memory
  := by
  have hask := askAll_eq hv (s v)
  rw [h.rewriter_eq, ← Script.last?] at hask
  rw [prospect_eq s rewriter hv]
  cases hlast : s.last? rewriter.isSome v with
  | none =>
    rw [hask, hlast, hnone]
    exact ⟨h, rfl, rfl⟩
  | some r =>
    obtain ⟨hready, hpending⟩ := h.request hv (Script.allowed_of_last? hlast)
    rw [hask, hlast]
    refine ⟨hready, ?_, memory_request r w⟩
    simp only [hpending, prospectWith_request]

/-- A step after the requests of a script keeps what was to come. -/
theorem keeps_askAll_next (s : Script) {rewriter : Option (Rewriter σ)} {w : Walk σ} {v : Visit}
    (h : w.Ready rewriter) (hnone : w.pending? = none) (hv : w.here? = some v) :
  Keeps s rewriter (w.prospect s rewriter) w.memory (w.askAll (s v)).next
  := by
  obtain ⟨hready, hprospect, hmemory⟩ := ready_askAll (s := s) h hnone hv
  rw [← hprospect, ← hmemory]
  apply keeps_next s hready
  rw [isEnd_askAll, isEnd_eq, hv]
  rfl

/-! ### Runs -/

theorem here?_askAll (rs : List Request) (w : Walk σ) :
  (w.askAll rs).here? = w.here?
  := by
  induction rs generalizing w with
  | nil => rfl
  | cons r rs ih => exact (ih _).trans (here?_ask r w)

theorem ahead_askAll (rs : List Request) (w : Walk σ) :
  (w.askAll rs).ahead = w.ahead
  := by
  induction rs generalizing w with
  | nil => rfl
  | cons r rs ih => exact (ih _).trans (ahead_ask r w)

/-- A walk comes to what it was to come to. -/
theorem follow_eq_prospect (s : Script) {rewriter : Option (Rewriter σ)} {w : Walk σ}
    (h : w.Ready rewriter) (hnone : w.pending? = none) :
  (w.follow s).answer = (w.prospect s rewriter w.memory).1.map (fun _ => ())
    ∧ (w.follow s).last.result = (w.prospect s rewriter w.memory).1.toOption
    ∧ (w.follow s).last.memory = (w.prospect s rewriter w.memory).2
  := by
  fun_induction follow s w with
  | case1 w hhere =>
    have hresult := h.result
    rw [prospect]
    cases hf : w.frames with
    | nil =>
      rw [isEnd, hf] at hresult
      obtain ⟨e, he⟩ := Option.isSome_iff_exists.1 hresult
      simp [he, Effect.ofExcept, Except.map, Except.toOption]
    | cons fr rest => simp [here?, hf] at hhere
  | case2 w v hhere e w' hnext =>
    have hkeeps := keeps_askAll_next s h hnone hhere
    rw [hnext] at hkeeps
    obtain ⟨hprospect, hresult⟩ := hkeeps
    rw [hprospect]
    exact ⟨rfl, hresult, rfl⟩
  | case3 w v hhere w' hnext run ih =>
    have hkeeps := keeps_askAll_next s h hnone hhere
    rw [hnext] at hkeeps
    obtain ⟨hprospect, hready, hpending⟩ := hkeeps
    rw [hprospect]
    apply ih hready hpending

/-- A walk visits the nodes that were ahead of it, up to a step that fails. -/
theorem visited_follow (s : Script) (w : Walk σ) :
  (w.follow s).visited <+: w.ahead
    ∧ ((w.follow s).answer = .ok () →
      (w.follow s).visited = w.ahead ∧ (w.follow s).last.isEnd)
  := by
  fun_induction follow s w with
  | case1 w hhere =>
    have hahead := head?_ahead w
    rw [hhere, List.head?_eq_none_iff] at hahead
    rw [hahead]
    refine ⟨List.prefix_rfl, fun _ => ⟨rfl, ?_⟩⟩
    rw [isEnd_eq, hhere]
    rfl
  | case2 w v hhere e w' hnext =>
    constructor
    · have hhead := head?_ahead w
      rw [hhere] at hhead
      obtain ⟨vs, hvs⟩ := List.head?_eq_some_iff.1 hhead
      simp [hvs]
    · intro h
      cases h
  | case3 w v hhere w' hnext run ih =>
    have hstep := ahead_next (w.askAll (s v)) ((here?_askAll (s v) w).trans hhere) (by rw [hnext])
    rw [ahead_askAll, hnext] at hstep
    rw [hstep]
    constructor
    · apply List.cons_prefix_cons.2 ⟨rfl, ih.1⟩
    · intro h
      obtain ⟨hvisited, hend⟩ := ih.2 h
      exact ⟨congrArg (v :: ·) hvisited, hend⟩

end Walk

end Hypertext
