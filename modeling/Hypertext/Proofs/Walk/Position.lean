import Hypertext.Proofs.Walk.Calls
import Hypertext.Proofs.Walk.Sound

/-!
# Where a walk is

A walk goes through the nodes of its tree in document order, whatever was asked for on its way:
`ahead_performAll` says that every step that succeeds takes one node off those that are ahead.  What
a walk says about its place, the current node, the path, the parent and the depth, is what holds
of that node in the tree, because its stack is sound.
-/

namespace Hypertext

variable {σ : Type}

/-- Whether an operation goes on to the next node. -/
def Operation.isStep : Operation → Bool
  | .next => true
  | .ask _ => false

namespace Walk

/-- Whether no step among operations fails. -/
def Proceeds : List Operation → Walk σ → Prop
  | [], _ => True
  | op :: ops, w => (op.isStep → (w.perform op).1 = .ok ()) ∧ Proceeds ops (w.perform op).2

/-! ### The node -/

/-- A step that succeeds leaves the current node behind; at the end there is none to leave. -/
theorem ahead_next_eq_tail {w : Walk σ} (h : w.next.1 = .ok ()) :
  w.next.2.ahead = w.ahead.tail
  := by
  cases hhere : w.here? with
  | some v => rw [ahead_next w hhere h, List.tail_cons]
  | none =>
    obtain ⟨root, rewriter, memory, frames, rootRequest, result⟩ := w
    match frames with
    | [] => rfl
    | f :: rest => cases hhere

/-- After operations those nodes are ahead that come after as many nodes as there were steps. -/
theorem ahead_performAll {w : Walk σ} {ops : List Operation} (h : w.Proceeds ops) :
  (w.performAll ops).ahead = w.ahead.drop (ops.countP (·.isStep))
  := by
  induction ops generalizing w with
  | nil => rfl
  | cons op ops ih =>
    obtain ⟨hop, hops⟩ := h
    rw [performAll_cons, ih hops, List.countP_cons]
    cases op with
    | next =>
      rw [perform, ahead_next_eq_tail (hop rfl), List.drop_tail]
      rfl
    | ask r =>
      rw [perform, ahead_ask]
      rfl

/-- If no step fails, the walk is at the visit whose number is that of the steps. -/
theorem here?_performAll {root : Element} {rewriter : Option (Rewriter σ)} {memory : σ}
    {ops : List Operation} (h : (start root rewriter memory).Proceeds ops) :
  ((start root rewriter memory).performAll ops).here? = root.visits[ops.countP (·.isStep)]?
  := by
  rw [← head?_ahead, ahead_performAll h, ahead_start, List.head?_drop]

/-! ### What is around it -/

/-- Below the top of a sound stack there are elements only. -/
theorem length_pathOf {hasRewriter : Bool} {f : Frame} {rest : List Frame}
    (h : (f :: rest).IsChain (Frame.Under hasRewriter)) :
  (pathOf rest).length = rest.length
  := by
  induction rest generalizing f with
  | nil => rfl
  | cons above rest ih =>
    obtain ⟨hunder, hchain⟩ := List.isChain_cons_cons.mp h
    have hchild := hunder.child
    rw [pathOf]
    split
    · rw [List.length_cons, List.length_cons, ih hchain]
    · next content hn =>
      rw [hn] at hchild
      cases hchild

/-- The current node is that of the visit. -/
theorem current?_eq (w : Walk σ) :
  w.current? = w.here?.map (·.node)
  := by
  rw [current?, here?]
  cases w.frames with
  | nil => rfl
  | cons f rest => rfl

/-- The path of the walk is that of the visit. -/
theorem path_eq (w : Walk σ) :
  w.path = w.here?.elim [] (·.path)
  := by
  rw [path, here?]
  cases w.frames with
  | nil => rfl
  | cons f rest => apply pathOf_cons

/-- The depth of a sound walk is that of its visit. -/
theorem Sound.depth_eq {w : Walk σ} (h : w.Sound) :
  w.depth = w.here?.elim 0 (·.depth)
  := by
  have hchain := h.stack.under
  rw [depth, here?]
  cases hf : w.frames with
  | nil => rfl
  | cons f rest =>
    rw [hf] at hchain
    simp only [Option.elim, Visit.depth, visitOf, length_pathOf hchain, List.length_cons]

/-- The parent in a sound walk is that of its visit. -/
theorem Sound.parent?_eq {w : Walk σ} (h : w.Sound) :
  w.parent? = w.here?.bind (·.parent?)
  := by
  have hchain := h.stack.under
  rw [parent?, here?]
  rcases hf : w.frames with _ | ⟨f, _ | ⟨above, rest⟩⟩
  · rfl
  · rfl
  · rw [hf] at hchain
    have hchild := (List.isChain_cons_cons.mp hchain).1.child
    cases hn : above.node with
    | element e => simp [Visit.parent?, visitOf, pathOf, hn, Node.element?]
    | text content =>
      rw [hn] at hchild
      cases hchild

/-! ### The end -/

theorem result_request (r : Request) (w : Walk σ) :
  (w.request r).2.result = w.result
  := by
  obtain ⟨root, rewriter, memory, frames, rootRequest, result⟩ := w
  match frames with
  | [] => rfl
  | [_] => rfl
  | _ :: _ :: _ => rfl

theorem result_ask (r : Request) (w : Walk σ) :
  (w.ask r).2.result = w.result
  := by
  rcases ask_cases r w with ⟨hask, -⟩ | ⟨e, hask⟩
  · rw [hask, result_request]
  · rw [hask]

/-- A walk that leaves a node ends with a result, or goes on without one. -/
theorem Leaves.result {w : Walk σ} {f : Frame} {rest fs : List Frame}
    {step : Except Error Unit × Walk σ} (h : Leaves w f rest fs step) (hok : step.1 = .ok ())
    (hresult : w.result = none) :
  step.2.result.isSome = step.2.isEnd
  := by
  induction h with
  | rootFails hout => cases hok
  | rootRefused hout hfinish => cases hok
  | ends hout hfinish => rfl
  | fails hout => cases hok
  | goesOn hout hsibling =>
    rw [hresult]
    rfl
  | climbs hout hsibling habove ih => apply ih hok hresult

/-- A step that succeeds keeps there being a result at the end and only there. -/
theorem Steps.result {w : Walk σ} {fs : List Frame} {step : Except Error Unit × Walk σ}
    (h : Steps w fs step) (hok : step.1 = .ok ()) (hw : w.Sound)
    (hresult : w.result.isSome = w.isEnd) :
  step.2.result.isSome = step.2.isEnd
  := by
  cases h with
  | stays hframes => exact hresult
  | enters hframes hchildren =>
    rw [hw.result (by simp [hframes])]
    rfl
  | leaves hframes hchildren hleaves => apply hleaves.result hok (hw.result (by simp [hframes]))

/-- A walk that has a result when it ends, and not before, goes on to do so if no step fails. -/
theorem Sound.result_performAll {w : Walk σ} (h : w.Sound) {ops : List Operation}
    (hops : w.Proceeds ops) (hresult : w.result.isSome = w.isEnd) :
  (w.performAll ops).result.isSome = (w.performAll ops).isEnd
  := by
  induction ops generalizing w with
  | nil => exact hresult
  | cons op ops ih =>
    obtain ⟨hop, hops⟩ := hops
    apply ih (h.perform op) hops
    cases op with
    | next => apply w.steps_next.result (hop rfl) h hresult
    | ask r => rw [Walk.perform, result_ask, isEnd_ask, hresult]

/-! ### Runs from the start -/

/-- As long as no step fails, a walk is after as many steps at the node that comes after as many
nodes in document order, and it has ended, with a result, when it has made a step from every node
of the tree.  Requests make no difference to that.  At the end steps change nothing. -/
theorem position_of_proceeds (root : Element) (rewriter : Option (Rewriter σ)) (memory : σ)
    (ops : List Operation) (h : (start root rewriter memory).Proceeds ops) :
  let w := (start root rewriter memory).performAll ops
  let here := root.visits[ops.countP (·.isStep)]?
  root.visits.Nodup
    ∧ root.visits.length = root.size
    ∧ w.current? = here.map (·.node)
    ∧ w.depth = here.elim 0 (·.depth)
    ∧ w.parent? = here.bind (·.parent?)
    ∧ w.path = here.elim [] (·.path)
    ∧ (w.isEnd ↔ root.size ≤ ops.countP (·.isStep))
    ∧ (w.result.isSome ↔ root.size ≤ ops.countP (·.isStep))
    ∧ (w.isEnd → w.next = (.ok (), w))
  := by
  intro w here
  have hhere : w.here? = here := here?_performAll h
  have hsound : w.Sound := (sound_start root rewriter memory).performAll ops
  have hlength : root.visits.length = root.size := root.length_visitsBelow [] none
  have hend : w.isEnd ↔ root.size ≤ ops.countP (·.isStep) := by
    rw [isEnd_eq, hhere, Option.isNone_iff_eq_none, List.getElem?_eq_none_iff, hlength]
  have hresult : w.result.isSome = w.isEnd :=
    (sound_start root rewriter memory).result_performAll h rfl
  refine ⟨root.nodup_visits, hlength, ?_, ?_, ?_, ?_, hend, ?_, ?_⟩
  · rw [current?_eq, hhere]
  · rw [hsound.depth_eq, hhere]
  · rw [hsound.parent?_eq, hhere]
  · rw [path_eq, hhere]
  · rw [hresult]
    apply hend
  · intro hw
    have hnil : w.frames = [] := List.isEmpty_iff.mp hw
    rw [next, hnil]

/-- In a list with an item and a text, with requests at every node, one of them refused: at the text
of the item after two steps, and at the end after four. -/
theorem position_of_proceeds_list :
  let item : Element := ⟨"li", .empty, [.text "a"]⟩
  let root : Element := ⟨"ul", .empty, [.element item, .text "b"]⟩
  let rewriter : Rewriter Unit := fun e => pure [.element e]
  let toText : List Operation := [.ask .rewrite, .next, .ask (.replace []), .next]
  let toEnd := toText ++ [.ask .rewrite, .next, .ask (.replace [.text "c", .text "d"]), .next]
  let atText := (start root (some rewriter) ()).performAll toText
  let atEnd := (start root (some rewriter) ()).performAll toEnd
  (start root (some rewriter) ()).Proceeds toText
    ∧ atText.current? = some (.text "a") ∧ atText.depth = 3 ∧ atText.parent? = some item
    ∧ atText.path = [⟨item, some 0⟩, ⟨root, none⟩]
    ∧ (start root (some rewriter) ()).Proceeds toEnd
    ∧ atEnd.isEnd ∧ atEnd.result.isSome ∧ atEnd.next = (.ok (), atEnd)
  := by
  intro item root rewriter toText toEnd atText atEnd
  have htoText : (start root (some rewriter) ()).Proceeds toText :=
    ⟨nofun, fun _ => rfl, nofun, fun _ => rfl, trivial⟩
  have htoEnd : (start root (some rewriter) ()).Proceeds toEnd :=
    ⟨nofun, fun _ => rfl, nofun, fun _ => rfl, nofun, fun _ => rfl, nofun, fun _ => rfl, trivial⟩
  obtain ⟨-, -, hcurrent, hdepth, hparent, hpath, -, -, -⟩ :=
    position_of_proceeds root (some rewriter) () toText htoText
  obtain ⟨-, -, -, -, -, -, hend, hresult, hstays⟩ :=
    position_of_proceeds root (some rewriter) () toEnd htoEnd
  have hended := hend.mpr (Nat.le_refl 4)
  exact ⟨htoText, hcurrent, hdepth, hparent, hpath, htoEnd, hended,
    hresult.mpr (Nat.le_refl 4), hstays hended⟩

end Walk

end Hypertext
