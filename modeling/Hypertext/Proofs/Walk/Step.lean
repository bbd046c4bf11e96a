import Hypertext.Proofs.Walk.Script
import Mathlib.Data.List.Chain

/-!
# Steps of a walk

All that a step of a walk can do: `Leaves` has a constructor for each way in which leaving a node
goes on or ends, and `Steps` one for each kind of step.  `steps_next` says that a step does one of
these, so that what holds of every step is shown by cases on them.

The second part of `Steps` are the frames that are left in the step, `Walk.left`: the one of the
current node, if it has no children, and those of the elements that end with it.
-/

namespace Hypertext

variable {σ : Type}

namespace Walk

/-! ### Leaving a node -/

/-- What becomes of a walk that leaves a node, given the frame of the node and the frames above it:
the frames that it leaves, its answer and the walk after that. -/
inductive Leaves : Walk σ → Frame → List Frame → List Frame → Except Error Unit × Walk σ → Prop
  /-- The rewriter fails at the root. -/
  | rootFails {w : Walk σ} {f : Frame} {e : Error} {memory : σ}
      (hout : outcome w.rewriter f w.rootRequest w.memory = (.error e, memory)) :
    Leaves w f [] [f] (.error e, { w with frames := [], rootRequest := none, memory })
  /-- The root does not stay a single element. -/
  | rootRefused {w : Walk σ} {f : Frame} {nodes : Option (List Node)} {e : Error} {memory : σ}
      (hout : outcome w.rewriter f w.rootRequest w.memory = (.ok nodes, memory))
      (hfinish : finish w.root nodes = .error e) :
    Leaves w f [] [f] (.error e, { w with frames := [], rootRequest := none, memory })
  /-- The walk ends with a result. -/
  | ends {w : Walk σ} {f : Frame} {nodes : Option (List Node)} {e : Element} {memory : σ}
      (hout : outcome w.rewriter f w.rootRequest w.memory = (.ok nodes, memory))
      (hfinish : finish w.root nodes = .ok e) :
    Leaves w f []
      [f] (.ok (), { w with frames := [], rootRequest := none, memory, result := some e })
  /-- The rewriter fails below the root. -/
  | fails {w : Walk σ} {f above : Frame} {rest : List Frame} {e : Error} {memory : σ}
      (hout : outcome w.rewriter f (above.requests.get? f.place) w.memory = (.error e, memory)) :
    Leaves w f (above :: rest)
      [f] (.error e, { w with frames := above.withdraw f.place :: rest, memory })
  /-- The walk goes on to the next sibling. -/
  | goesOn {w : Walk σ} {f above : Frame} {rest : List Frame} {nodes : Option (List Node)}
      {sibling : Node} {memory : σ}
      (hout : outcome w.rewriter f (above.requests.get? f.place) w.memory = (.ok nodes, memory))
      (hsibling : above.node.children[f.place + 1]? = some sibling) :
    Leaves w f (above :: rest)
      [f] (.ok (), { w with
        frames := .enter sibling (f.place + 1) :: above.settle f.place nodes :: rest
        memory })
  /-- There is no sibling, and the walk leaves the element above too. -/
  | climbs {w : Walk σ} {f above : Frame} {rest fs : List Frame} {nodes : Option (List Node)}
      {memory : σ} {step : Except Error Unit × Walk σ}
      (hout : outcome w.rewriter f (above.requests.get? f.place) w.memory = (.ok nodes, memory))
      (hsibling : above.node.children[f.place + 1]? = none)
      (habove : Leaves { w with memory } (above.settle f.place nodes) rest fs step) :
    Leaves w f (above :: rest) (f :: fs) step

/-- The frames that a walk leaves together with a node, given its frame and the frames above it.
They hold what was asked for in them by then. -/
def leaving (w : Walk σ) (f : Frame) : List Frame → List Frame
  | [] => [f]
  | above :: rest =>
    match outcome w.rewriter f (above.requests.get? f.place) w.memory with
    | (.error _, _) => [f]
    | (.ok nodes, memory) =>
      match above.node.children[f.place + 1]? with
      | some _ => [f]
      | none => f :: leaving { w with memory } (above.settle f.place nodes) rest

/-- Leaving a node is one of the ways in which one can be left. -/
theorem leaves_leave (w : Walk σ) (f : Frame) (rest : List Frame) :
  Leaves w f rest (w.leaving f rest) (w.leave f rest)
  := by
  induction rest generalizing w f with
  | nil =>
    rw [leave, leaving, leaveRoot]
    split
    · next e memory hout => exact .rootFails hout
    · next nodes memory hout =>
      split
      · next e hfinish => exact .rootRefused hout hfinish
      · next e hfinish => exact .ends hout hfinish
  | cons above rest ih =>
    rw [leave, leaving]
    rcases hout : outcome w.rewriter f (above.requests.get? f.place) w.memory with
      ⟨e | nodes, memory⟩
    · exact .fails hout
    · simp only [Frame.node_settle]
      cases hsibling : above.node.children[f.place + 1]? with
      | some sibling => exact .goesOn hout hsibling
      | none => exact .climbs hout hsibling (ih _ _)

/-! ### Steps -/

/-- What becomes of a walk in a step: the frames that it leaves, its answer and the walk after
that. -/
inductive Steps : Walk σ → List Frame → Except Error Unit × Walk σ → Prop
  /-- At the end nothing happens. -/
  | stays {w : Walk σ} (hframes : w.frames = []) :
    Steps w [] (.ok (), w)
  /-- The walk goes on to the first child. -/
  | enters {w : Walk σ} {f : Frame} {rest : List Frame} {child : Node} {children : List Node}
      (hframes : w.frames = f :: rest) (hchildren : f.node.children = child :: children) :
    Steps w [] (.ok (), { w with frames := .enter child 0 :: f :: rest })
  /-- The walk leaves the current node, which has no children. -/
  | leaves {w : Walk σ} {f : Frame} {rest fs : List Frame} {step : Except Error Unit × Walk σ}
      (hframes : w.frames = f :: rest) (hchildren : f.node.children = [])
      (hleaves : Leaves w f rest fs step) :
    Steps w fs step

/-- The frames that a walk leaves in its next step. -/
def left (w : Walk σ) : List Frame :=
  match w.frames with
  | [] => []
  | f :: rest => if f.node.children.isEmpty then w.leaving f rest else []

/-- Every step of a walk is one of the ways in which it can go on. -/
theorem steps_next (w : Walk σ) :
  Steps w w.left w.next
  := by
  rw [next, left]
  cases hframes : w.frames with
  | nil => exact .stays hframes
  | cons f rest =>
    simp only
    cases hchildren : f.node.children with
    | nil => exact .leaves hframes hchildren (leaves_leave w f rest)
    | cons child children => exact .enters hframes hchildren

end Walk

end Hypertext
