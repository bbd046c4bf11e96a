import Hypertext.Proofs.Rewrite
import Hypertext.Proofs.Walk.Sound

/-!
# What can go wrong on a walk

A step of a walk fails for two reasons only, as `Steps.error` says: the rewriter fails, or the root
does not stay a single element.  With `Sound.performAll` this is all that can go wrong on a walk
that takes operations, as `reachable_sound` says.

An operation that fails need not leave the walk as it was.  A request that is refused does, but the
nodes left in a step that fails stay left, and the request for the last of them is gone, as
`Leaves.of_error` says.
-/

namespace Hypertext

variable {σ : Type}

/-! ### Errors -/

/-- Carrying out a request that the walk took fails only if the rewriter does, for the element of
the frame with its children in place. -/
theorem error_of_outcome {rewriter : Option (Rewriter σ)} {f : Frame} {q : Option Request}
    (hq : ∀ r, q = some r → r.Allowed rewriter.isSome f.node) {m m' : σ} {e : Error}
    (h : outcome rewriter f q m = (.error e, m')) :
  ∃ g el m'', rewriter = some g ∧ f.node = .element el
    ∧ g (rebuild f.requests el) m'' = (.error e, m')
  := by
  match q with
  | none => cases h
  | some (.replace nodes) => cases h
  | some .rewrite =>
    obtain ⟨htext, hrewriter⟩ := hq .rewrite rfl
    obtain ⟨g, rfl⟩ := Option.isSome_iff_exists.mp hrewriter
    match hn : f.node with
    | .text content =>
      rw [hn] at htext
      cases htext
    | .element el =>
      simp only [outcome, hn, Node.element?, f.or_rebuilt? hn] at h
      use g, el, m, rfl, rfl
      rcases hg : g (rebuild f.requests el) m with ⟨e' | nodes, m''⟩
      · rw [Effect.bind_error hg] at h
        cases h
        rfl
      · rw [Effect.bind_ok hg] at h
        cases h

/-- The only error of the root rule is about the nodes that the root turned into. -/
theorem error_of_finish {root : Element} {nodes : Option (List Node)} {e : Error}
    (h : finish root nodes = .error e) :
  ∃ ns, e = .format (.rootNotOneElement ns) ∧ ∀ el, ns ≠ [.element el]
  := by
  cases nodes with
  | none => cases h
  | some ns =>
    by_cases hone : ∃ el, ns = [.element el]
    · obtain ⟨el, rfl⟩ := hone
      cases h
    · have hne := not_exists.mp hone
      rw [finish_of_ne root hne] at h
      obtain rfl := Except.error.inj h
      exact ⟨ns, rfl, hne⟩

namespace Walk

/-- A step of a sound walk fails because the rewriter does, for the last element that the walk
leaves in it, or because the root does not stay a single element. -/
theorem Leaves.error {w : Walk σ} {f : Frame} {rest fs : List Frame}
    {step : Except Error Unit × Walk σ} (h : Leaves w f rest fs step)
    (hstack : SoundStack w.rewriter.isSome w.root (f :: rest))
    (hallowed : ∀ r, w.rootRequest = some r → r.Allowed w.rewriter.isSome (.element w.root))
    {e : Error} (he : step.1 = .error e) :
  (∃ g, w.rewriter = some g ∧ ∃ last ∈ fs.getLast?, ∃ el m, last.node = .element el
      ∧ g (rebuild last.requests el) m = (.error e, step.2.memory))
    ∨ ∃ ns, e = .format (.rootNotOneElement ns) ∧ ∀ el, ns ≠ [.element el]
  := by
  induction h with
  | @rootFails w f _ _ hout =>
    obtain rfl := Except.error.inj he
    have htakes : ∀ r, w.rootRequest = some r → r.Allowed w.rewriter.isSome f.node := by
      rw [hstack.node_eq]
      apply hallowed
    obtain ⟨g, el, m, hrewriter, hnode, hcall⟩ := error_of_outcome htakes hout
    exact .inl ⟨g, hrewriter, f, rfl, el, m, hnode, hcall⟩
  | rootRefused hout hfinish =>
    obtain rfl := Except.error.inj he
    apply Or.inr
    apply error_of_finish hfinish
  | ends hout hfinish => cases he
  | @fails w f _ _ _ _ hout =>
    obtain rfl := Except.error.inj he
    obtain ⟨g, el, m, hrewriter, hnode, hcall⟩ := error_of_outcome hstack.head_under.allowed hout
    exact .inl ⟨g, hrewriter, f, rfl, el, m, hnode, hcall⟩
  | goesOn hout hsibling => cases he
  | climbs hout hsibling habove ih =>
    rcases ih (hstack.settle _) hallowed he with ⟨g, hrewriter, last, hlast, hcall⟩ | hroot
    · exact .inl ⟨g, hrewriter, last, List.mem_getLast?_cons hlast, hcall⟩
    · exact .inr hroot

/-- A step fails with an error of the rewriter, called with the element that is left last, or of the
root rule. -/
theorem Steps.error {w : Walk σ} {fs : List Frame} {step : Except Error Unit × Walk σ}
    (h : Steps w fs step) (hw : w.Sound) {e : Error} (he : step.1 = .error e) :
  (∃ g, w.rewriter = some g ∧ ∃ last ∈ fs.getLast?, ∃ el m, last.node = .element el
      ∧ g (rebuild last.requests el) m = (.error e, step.2.memory))
    ∨ ∃ ns, e = .format (.rootNotOneElement ns) ∧ ∀ el, ns ≠ [.element el]
  := by
  have hstack := hw.stack
  cases h with
  | stays hframes => cases he
  | enters hframes hchildren => cases he
  | leaves hframes hchildren hleaves =>
    rw [hframes] at hstack
    apply hleaves.error hstack hw.allowed he

end Walk

/-- Rewriting fails because the rewriter does, or because the root does not stay a single element:
the walk always comes to the end of the tree. -/
theorem Element.error_of_rewrite (accepts : Path → Bool) (f : Rewriter σ) (root : Element)
    (memory : σ) {e : Error} (h : (root.rewrite accepts f memory).1 = .error e) :
  (∃ el m, f el m = (.error e, (root.rewrite accepts f memory).2))
    ∨ ∃ ns, e = .format (.rootNotOneElement ns) ∧ ∀ el, ns ≠ [.element el]
  := by
  obtain ⟨calls, -, hserved⟩ := root.calls_scripted (.selecting accepts) (some f) memory
  rw [Element.rewrite_eq_scripted, Element.scripted_apply] at h ⊢
  rcases hturned : (Node.element root).scripted (.selecting accepts) (some f) [] none memory with
    ⟨e' | nodes, m⟩
  · rw [hturned] at h hserved
    obtain rfl := Except.error.inj h
    obtain ⟨g, hg, call, m', -, hcall⟩ := hserved.failed e' rfl
    obtain rfl := Option.some.inj hg
    exact .inl ⟨call, m', hcall⟩
  · rw [hturned] at h
    exact .inr (error_of_finish h)

namespace Walk

/-! ### All states -/

/-- A walk never goes wrong by itself, whatever operations were made, also after errors.  Every
frame but the lowest, which is that of the root, is the child of the next one at its place, so that
only the top one can be a text.  All requests are for children, and a request for the rewriter is
for an element on the stack, on a walk with a rewriter.  So only an error of the rewriter, for the
last element that is left, or a root that does not stay a single element makes a step fail; in the
frames that are left nothing but replacements of children was asked for; and rewriting always comes
to the end of the tree. -/
theorem reachable_sound (root : Element) (rewriter : Option (Rewriter σ)) (memory : σ)
    (ops : List Operation) :
  let w := (start root rewriter memory).performAll ops
  (∀ f ∈ w.frames.getLast?, f.node = .element root)
    ∧ (∀ i f above, w.frames[i]? = some f → w.frames[i + 1]? = some above →
      above.node.children[f.place]? = some f.node)
    ∧ (∀ f ∈ w.frames.tail, f.node.isText = false)
    ∧ (∀ f ∈ w.frames, ∀ place r, f.requests.get? place = some r →
      place < f.node.children.length)
    ∧ (∀ i above place, w.frames[i]? = some above →
      above.requests.get? place = some .rewrite →
        rewriter.isSome ∧ ∃ j f, i = j + 1 ∧ w.frames[j]? = some f ∧ f.place = place
          ∧ f.node.isText = false)
    ∧ (w.rootRequest = some .rewrite →
      rewriter.isSome ∧ ∃ f ∈ w.frames.getLast?, f.node = .element root)
    ∧ (∀ e, w.next.1 = .error e →
      (∃ g, rewriter = some g ∧ ∃ last ∈ w.left.getLast?, ∃ el m, last.node = .element el
          ∧ g (rebuild last.requests el) m = (.error e, w.next.2.memory))
        ∨ ∃ ns, e = .format (.rootNotOneElement ns) ∧ ∀ el, ns ≠ [.element el])
    ∧ (∀ f ∈ w.left, ∀ place r, f.requests.get? place = some r →
      place < f.node.children.length ∧ ∃ nodes, r = .replace nodes)
    ∧ ∀ accepts (f : Rewriter σ) e, (root.rewrite accepts f memory).1 = .error e →
      (∃ el m, f el m = (.error e, (root.rewrite accepts f memory).2))
        ∨ ∃ ns, e = .format (.rootNotOneElement ns) ∧ ∀ el, ns ≠ [.element el]
  := by
  intro w
  have hsound : w.Sound := (sound_start root rewriter memory).performAll ops
  obtain ⟨hroot, hrewriter⟩ : w.root = root ∧ w.rewriter = rewriter := performAll_same ops _
  have hstack := hsound.stack
  rw [hroot, hrewriter] at hstack
  refine ⟨hstack.bottom, ?_, ?_, ?_, ?_, ?_, ?_, w.steps_next.settled hsound, ?_⟩
  · intro i f above hf habove
    apply (hstack.under_of_getElem? hf habove).child
  · apply hstack.isText_of_mem_tail
  · apply hstack.place_lt
  · intro i above place habove hr
    apply hstack.of_rewrite habove hr
  · intro hr
    have hallowed := hsound.allowed .rewrite hr
    rw [hrewriter] at hallowed
    have hne : w.frames ≠ [] := by
      intro hnil
      rw [hsound.ended hnil] at hr
      cases hr
    have hlast := List.getLast?_eq_some_getLast hne
    exact ⟨hallowed.2, _, hlast, hstack.bottom _ hlast⟩
  · intro e he
    rw [← hrewriter]
    apply w.steps_next.error hsound he
  · intro accepts f e he
    apply root.error_of_rewrite accepts f memory he

/-! ### Where a failure leads -/

/-- Frames without the request for a child of the first. -/
def withdrawn (place : Nat) : List Frame → List Frame
  | [] => []
  | above :: rest => above.withdraw place :: rest

theorem length_withdrawn (place : Nat) (frames : List Frame) :
  (withdrawn place frames).length = frames.length
  := by
  cases frames with
  | nil => rfl
  | cons above rest => rfl

/-- When a walk fails to leave a node, the frames that it left by then are gone, and so is the
request for the last of them. -/
theorem Leaves.of_error {w : Walk σ} {f : Frame} {rest fs : List Frame}
    {step : Except Error Unit × Walk σ} (h : Leaves w f rest fs step) {e : Error}
    (he : step.1 = .error e) :
  ∃ last ∈ fs.getLast?, step.2 = { w with
    frames := withdrawn last.place ((f :: rest).drop fs.length)
    rootRequest := if ((f :: rest).drop fs.length).isEmpty then none else w.rootRequest
    memory := step.2.memory }
  := by
  induction h with
  | @rootFails w f => exact ⟨f, rfl, rfl⟩
  | @rootRefused w f => exact ⟨f, rfl, rfl⟩
  | ends hout hfinish => cases he
  | @fails w f => exact ⟨f, rfl, rfl⟩
  | goesOn hout hsibling => cases he
  | @climbs w f above rest fs nodes memory step hout hsibling habove ih =>
    obtain ⟨last, hlast, hstep⟩ := ih he
    match fs, hlast with
    | g :: fs, hlast => exact ⟨last, List.mem_getLast?_cons hlast, hstep⟩

/-- After a failure to leave a node the current node has children again. -/
theorem Leaves.children_of_error {w : Walk σ} {f : Frame} {rest fs : List Frame}
    {step : Except Error Unit × Walk σ} (h : Leaves w f rest fs step)
    (hstack : SoundStack w.rewriter.isSome w.root (f :: rest)) {e : Error}
    (he : step.1 = .error e) :
  ∀ above ∈ step.2.frames.head?, above.node.children ≠ []
  := by
  induction h with
  | rootFails hout => simp
  | rootRefused hout hfinish => simp
  | ends hout hfinish => cases he
  | fails hout =>
    intro g hg
    obtain rfl := Option.some.inj hg
    apply List.ne_nil_of_length_pos
    apply Nat.zero_lt_of_lt hstack.head_under.place_lt
  | goesOn hout hsibling => cases he
  | climbs hout hsibling habove ih => apply ih (hstack.settle _) he

/-- A request that is refused leaves a walk as it is. -/
theorem ask_of_error {w : Walk σ} {r : Request} {e : Error} (h : (w.ask r).1 = .error e) :
  (w.ask r).2 = w
  := by
  rcases ask_cases r w with ⟨hask, -⟩ | ⟨e', hask⟩
  · rw [hask] at h ⊢
    obtain ⟨root, rewriter, memory, frames, rootRequest, result⟩ := w
    match frames with
    | [] => rfl
    | [_] => cases h
    | _ :: _ :: _ => cases h
  · rw [hask]

/-- After an error the walk is where it left last, without the request for what it left. -/
theorem Steps.of_error {w : Walk σ} {fs : List Frame} {step : Except Error Unit × Walk σ}
    (h : Steps w fs step) {e : Error} (he : step.1 = .error e) :
  ∃ last ∈ fs.getLast?, step.2 = { w with
    frames := withdrawn last.place (w.frames.drop fs.length)
    rootRequest := if (w.frames.drop fs.length).isEmpty then none else w.rootRequest
    memory := step.2.memory }
  := by
  cases h with
  | stays hframes => cases he
  | enters hframes hchildren => cases he
  | leaves hframes hchildren hleaves =>
    rw [hframes]
    apply hleaves.of_error he

/-- After a failure the next step goes back to the first child of the current node. -/
theorem Steps.next_of_error {w : Walk σ} {fs : List Frame} {step : Except Error Unit × Walk σ}
    (h : Steps w fs step) (hw : w.Sound) {e : Error} (he : step.1 = .error e) :
  ∀ n ∈ step.2.current?, ∃ child ∈ n.children.head?,
    step.2.next = (.ok (), { step.2 with frames := .enter child 0 :: step.2.frames })
  := by
  have hstack := hw.stack
  intro n hn
  obtain ⟨f, hf, rfl⟩ := Option.map_eq_some_iff.mp hn
  obtain ⟨rest, hframes⟩ := List.head?_eq_some_iff.mp hf
  cases h with
  | stays hframes => cases he
  | enters hframes hchildren => cases he
  | leaves hframes' hchildren hleaves =>
    rw [hframes'] at hstack
    have hne := hleaves.children_of_error hstack he f hf
    obtain ⟨child, children, hcons⟩ := List.exists_cons_of_ne_nil hne
    use child
    constructor
    · rw [hcons]
      rfl
    · rw [next, hframes]
      simp only [hcons]

/-- What a failure does to a walk in any state.  A request that is refused changes nothing.  A step
that fails loses the current node, and with it those that ended with it up to the last one that it
tried to leave; all else stays as it was, without the request for that last node.  There is no
result.  If the walk has not ended with that, then it goes on with the first child of the node above
the last one, where it has been before. -/
theorem perform_of_error (root : Element) (rewriter : Option (Rewriter σ)) (memory : σ)
    (ops : List Operation) :
  let w := (start root rewriter memory).performAll ops
  (∀ r e, (w.ask r).1 = .error e → (w.ask r).2 = w)
    ∧ ∀ e, w.next.1 = .error e →
      (∃ last ∈ w.left.getLast?, w.next.2 = { w with
        frames := withdrawn last.place (w.frames.drop w.left.length)
        rootRequest := if (w.frames.drop w.left.length).isEmpty then none else w.rootRequest
        memory := w.next.2.memory })
      ∧ w.next.2.depth < w.depth
      ∧ w.next.2.result = none
      ∧ ∀ n ∈ w.next.2.current?, ∃ child ∈ n.children.head?,
        w.next.2.next = (.ok (), { w.next.2 with frames := .enter child 0 :: w.next.2.frames })
  := by
  intro w
  have hsound : w.Sound := (sound_start root rewriter memory).performAll ops
  constructor
  · intro r e he
    apply ask_of_error he
  · intro e he
    have hne : w.frames ≠ [] := by
      intro hnil
      rw [next, hnil] at he
      cases he
    obtain ⟨last, hlast, hnext⟩ := w.steps_next.of_error he
    refine ⟨⟨last, hlast, hnext⟩, ?_, ?_, w.steps_next.next_of_error hsound he⟩
    · have hpos := List.length_pos_of_mem (List.mem_of_getLast? hlast)
      have hdepth := List.length_pos_of_ne_nil hne
      rw [hnext]
      simp only [depth, length_withdrawn, List.length_drop]
      omega
    · rw [hnext]
      apply hsound.result hne

/-- Whether two walks are at the same place, with the same requests and the same result. -/
structure Same (w w' : Walk σ) : Prop where
  current : w'.current? = w.current?
  path : w'.path = w.path
  depth : w'.depth = w.depth
  parent : w'.parent? = w.parent?
  ended : w'.isEnd = w.isEnd
  result : w'.result = w.result
  frames : w'.frames = w.frames
  rootRequest : w'.rootRequest = w.rootRequest

/-- When the rewriter fails at the child of a root, the walk is at the root afterwards, and then at
the child again, without the request for it. -/
theorem not_same_of_error :
  (¬∀ (root : Element) (rewriter : Option (Rewriter Unit)) (ops : List Operation)
      (op : Operation) (e : Error),
      let w := (start root rewriter ()).performAll ops
      (w.perform op).1 = .error e → Same w (w.perform op).2)
    ∧ ∃ (root : Element) (rewriter : Option (Rewriter Unit)) (ops : List Operation) (e : Error),
      let w := (start root rewriter ()).performAll ops
      w.next.1 = .error e ∧ w.next.2.next.1 = .ok ()
        ∧ w.here?.isSome ∧ w.next.2.next.2.here? = w.here?
        ∧ w.pending?.isSome ∧ w.next.2.next.2.pending?.isNone
  := by
  let root : Element := ⟨"p", .empty, [.element (.ofTag "b")]⟩
  let rewriter : Rewriter Unit := fun _ => .fail (.illegalRequest (.other "no"))
  let ops : List Operation := [.next, .ask .rewrite]
  constructor
  · intro h
    have hsame := h root (some rewriter) ops .next (.illegalRequest (.other "no")) rfl
    have hdepth : 1 = 2 := hsame.depth
    cases hdepth
  · exact ⟨root, some rewriter, ops, _, rfl, rfl, rfl, rfl, rfl, rfl⟩

end Walk

end Hypertext
