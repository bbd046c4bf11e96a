import Hypertext.Proofs.Walk.Calls
import Hypertext.Rewrite
import Hypertext.Rewrite.Plain

/-!
# Rewriting on a walk

`Element.rewrite` walks through a tree, and `Element.rewritePlainly` rewrites it by recursion.
Rewriting is following the script `Script.selecting`, which asks the rewriter for the selected
elements, so that the two come to the same, as `rewrite_eq_rewritePlainly` says.
-/

namespace Hypertext

variable {σ : Type}

/-- The script that asks the rewriter for every element whose path passes a test. -/
def Script.selecting (accepts : Path → Bool) : Script :=
  fun v => if v.selected accepts then [.rewrite] else []

namespace Script

/-- With a rewriter, the request that counts is the one for a selected element. -/
theorem last?_selecting (accepts : Path → Bool) (v : Visit) :
  (selecting accepts).last? true v = if v.selected accepts then some .rewrite else none
  := by
  rw [last?, selecting]
  split
  · next h =>
    obtain ⟨e | content, place, above⟩ := v
    · rfl
    · cases h
  · rfl

/-- The rewriter is asked for the selected elements. -/
theorem asked_selecting (accepts : Path → Bool) (v : Visit) :
  (selecting accepts).asked true v = if v.selected accepts then v.node.element? else none
  := by
  rw [asked, last?_selecting]
  split
  · next h =>
    split at h
    · next hs => rw [if_pos hs]
    · cases h
  · next h =>
    split
    · next hs => exact absurd (if_pos hs) h
    · rfl

end Script

/-! ### The recursion -/

mutual

theorem Element.turned_eq_scripted (accepts : Path → Bool) (f : Rewriter σ) (above : Path)
    (place : Option Nat) (e : Element) :
  e.turned accepts f above place
    = (Node.element e).scripted (.selecting accepts) (some f) above place
  := by
  match e with
  | ⟨tag, attributes, children⟩ =>
    rw [Element.turned, Node.scripted]
    simp only [Node.turnedAll_eq_scriptedAll _ _ _ _ children, Option.isSome_some,
      Script.last?_selecting]
    congr 1
    funext nodes
    rw [Visit.selected, Visit.path]
    split
    · rfl
    · rfl

theorem Node.turned_eq_scripted (accepts : Path → Bool) (f : Rewriter σ) (above : Path)
    (place : Nat) (n : Node) :
  n.turned accepts f above place = n.scripted (.selecting accepts) (some f) above (some place)
  := by
  match n with
  | .element e => apply Element.turned_eq_scripted accepts f above (some place) e
  | .text content => rfl

theorem Node.turnedAll_eq_scriptedAll (accepts : Path → Bool) (f : Rewriter σ) (above : Path)
    (place : Nat) (ns : List Node) :
  Node.turnedAll accepts f above place ns
    = Node.scriptedAll (.selecting accepts) (some f) above place ns
  := by
  match ns with
  | [] => rfl
  | n :: ns =>
    rw [Node.turnedAll, Node.scriptedAll, Node.turned_eq_scripted _ _ _ _ n]
    simp only [Node.turnedAll_eq_scriptedAll _ _ _ _ ns]

end

/-- Rewriting as described is carrying out a script that asks for the elements selected. -/
theorem Element.rewritePlainly_eq_scripted (accepts : Path → Bool) (f : Rewriter σ)
    (root : Element) :
  root.rewritePlainly accepts f = root.scripted (.selecting accepts) (some f)
  := by
  have hturned := Element.turned_eq_scripted accepts f [] none root
  unfold Element.rewritePlainly Element.scripted
  apply congrArg (· >>= _) hturned

/-! ### The walk -/

namespace Walk

/-- The walk finds selected what is selected at its visit. -/
theorem selected_eq (accepts : Path → Bool) {w : Walk σ} {v : Visit} (hv : w.here? = some v) :
  w.selected accepts = v.selected accepts
  := by
  obtain ⟨root, rewriter, memory, frames, rootRequest, result⟩ := w
  match frames with
  | ⟨.element e, place, requests⟩ :: rest =>
    obtain rfl := Option.some.inj hv
    rfl
  | ⟨.text content, place, requests⟩ :: rest =>
    obtain rfl := Option.some.inj hv
    rfl

/-- With a rewriter, asking for a selected element does not fail. -/
theorem visit_eq (accepts : Path → Bool) {w : Walk σ} {v : Visit} (hv : w.here? = some v)
    (hw : w.rewriter.isSome) :
  w.visit accepts = (.ok (), w.askAll (Script.selecting accepts v))
  := by
  rw [visit, selected_eq accepts hv, Script.selecting]
  split
  · next hselected =>
    obtain ⟨root, rewriter, memory, frames, rootRequest, result⟩ := w
    obtain ⟨f, rfl⟩ := Option.isSome_iff_exists.1 hw
    rcases frames with _ | ⟨⟨e | content, place, requests⟩, rest⟩
    · cases hv
    · cases rest with
      | nil => rfl
      | cons above rest => rfl
    · obtain rfl := Option.some.inj hv
      cases hselected
  · rfl

/-- One round of rewriting is asking for what the script says and going on. -/
theorem rewriteSelected_of_here? (accepts : Path → Bool) {w : Walk σ} {v : Visit}
    (hv : w.here? = some v) (hw : w.rewriter.isSome) :
  w.rewriteSelected accepts
    = match (w.askAll (Script.selecting accepts v)).next with
      | (.error e, w') => (.error e, w')
      | (.ok (), w') => w'.rewriteSelected accepts
  := by
  have hend : w.isEnd = false := by
    rw [isEnd_eq, hv]
    rfl
  have hvisit := visit_eq accepts hv hw
  rw [rewriteSelected]
  simp only [hend, Bool.false_eq_true, dite_false]
  split
  · next e w' h =>
    rw [hvisit] at h
    cases h
  · next w' h =>
    rw [hvisit] at h
    cases h
    split
    · next e w'' hnext => rw [hnext]
    · next w'' hnext => rw [hnext]

/-- Rewriting the selected elements is following the script that asks for them. -/
theorem rewriteSelected_eq_follow (accepts : Path → Bool) {f : Rewriter σ} {w : Walk σ}
    (h : w.Ready (some f)) (hnone : w.pending? = none) :
  w.rewriteSelected accepts
    = ((w.follow (.selecting accepts)).answer, (w.follow (.selecting accepts)).last)
  := by
  fun_induction follow (.selecting accepts) w with
  | case1 w hhere =>
    rw [rewriteSelected, dif_pos]
    rw [isEnd_eq, hhere]
    rfl
  | case2 w v hhere e w' hnext =>
    rw [rewriteSelected_of_here? accepts hhere (h.rewriter_eq ▸ rfl), hnext]
  | case3 w v hhere w' hnext run ih =>
    have hkeeps := keeps_askAll_next (.selecting accepts) h hnone hhere
    rw [hnext] at hkeeps
    rw [rewriteSelected_of_here? accepts hhere (h.rewriter_eq ▸ rfl), hnext]
    apply ih hkeeps.2.1 hkeeps.2.2

end Walk

/-- Rewriting is carrying out a script that asks for the elements selected. -/
theorem Element.rewrite_eq_scripted (accepts : Path → Bool) (f : Rewriter σ) (root : Element) :
  root.rewrite accepts f = root.scripted (.selecting accepts) (some f)
  := by
  funext memory
  obtain ⟨hanswer, hresult, hmemory⟩ :=
    Walk.follow_eq_scripted (.selecting accepts) (some f) root memory
  have hfollow :=
    Walk.rewriteSelected_eq_follow accepts (Walk.ready_start root (some f) memory) rfl
  rw [Element.rewrite, hfollow, hanswer]
  rcases hm : root.scripted (.selecting accepts) (some f) memory with ⟨e | e, m⟩
  · rw [hm] at hmemory
    simp only [Except.map, hmemory]
  · rw [hm] at hmemory hresult
    simp only [Except.map, hmemory, hresult, Except.toOption]

/-- Rewriting turns the tree from below, and then the root has to be a single element. -/
theorem Element.rewrite_apply (accepts : Path → Bool) (f : Rewriter σ) (root : Element)
    (memory : σ) :
  root.rewrite accepts f memory
    = ((root.turned accepts f [] none memory).1.bind fun nodes => finish root (some nodes),
      (root.turned accepts f [] none memory).2)
  := by
  rw [Element.rewrite_eq_scripted, Element.scripted_apply, ← Element.turned_eq_scripted]

/-- The root is what it is turned into if that is a single element. -/
theorem eq_of_finish {root e : Element} {nodes : List Node} (h : finish root (some nodes) = .ok e) :
  nodes = [.element e]
  := by
  by_cases hnodes : ∃ e', nodes = [.element e']
  · obtain ⟨e', rfl⟩ := hnodes
    cases h
    rfl
  · rw [finish_of_ne root (not_exists.mp hnodes)] at h
    cases h

/-- A rewriting succeeds only if the root turns into the single element that is its result. -/
theorem Element.turned_of_rewrite {accepts : Path → Bool} {f : Rewriter σ} {root e : Element}
    {memory : σ} (h : (root.rewrite accepts f memory).1 = .ok e) :
  (root.turned accepts f [] none memory).1 = .ok [.element e]
  := by
  rw [Element.rewrite_apply] at h
  cases hturned : (root.turned accepts f [] none memory).1 with
  | error err =>
    rw [hturned] at h
    cases h
  | ok nodes =>
    rw [hturned] at h
    rw [eq_of_finish h]

/-- The rewriter is called for the selected elements, also if the root does not stay a single
element in the end. -/
theorem Element.calls_rewrite (accepts : Path → Bool) (f : Rewriter σ) (root : Element)
    (memory : σ) :
  ∃ calls, root.rewrite accepts f.logged (memory, [])
      = ((root.rewrite accepts f memory).1, (root.rewrite accepts f memory).2, calls)
    ∧ Served (some f) ((root.departures.filter (·.selected accepts)).filterMap (·.node.element?))
      calls
      (root.turned accepts f [] none memory)
  := by
  obtain ⟨calls, hcalls, hserved⟩ := root.calls_scripted (.selecting accepts) (some f) memory
  rw [Option.isSome_some, funext (Script.asked_selecting accepts), ← List.filterMap_filter,
    ← Element.turned_eq_scripted] at hserved
  rw [Element.rewrite_eq_scripted, Element.rewrite_eq_scripted]
  exact ⟨calls, hcalls, hserved⟩

/-- Rewriting on a walk is plain rewriting, for every rewriter, also for one that keeps a log of
its calls.  It is called for the selected elements in the order of leaving, in which every node
of the tree stands once, up to an error; what the root turns into has to be a single element, which
is found out after all calls. -/
theorem rewrite_eq_rewritePlainly (accepts : Path → Bool) (f : Rewriter σ) (root : Element)
    (memory : σ) :
  let turned := root.turned accepts f [] none memory
  let selected := (root.departures.filter (·.selected accepts)).filterMap (·.node.element?)
  root.rewrite accepts f memory = root.rewritePlainly accepts f memory
    ∧ (∀ e m, turned = (.error e, m) → root.rewrite accepts f memory = (.error e, m))
    ∧ (∀ e m, turned = (.ok [.element e], m) → root.rewrite accepts f memory = (.ok e, m))
    ∧ (∀ nodes m, turned = (.ok nodes, m) → (∀ e, nodes ≠ [.element e]) →
      root.rewrite accepts f memory = (.error (.format (.rootNotOneElement nodes)), m))
    ∧ ∃ calls, root.rewrite accepts f.logged (memory, [])
        = ((root.rewrite accepts f memory).1, (root.rewrite accepts f memory).2, calls)
      ∧ root.rewritePlainly accepts f.logged (memory, [])
        = ((root.rewrite accepts f memory).1, (root.rewrite accepts f memory).2, calls)
      ∧ Served (some f) selected calls turned
      ∧ root.departures.Nodup
      ∧ root.departures.Perm root.visits
  := by
  intro turned selected
  have hasked : root.departures.filterMap ((Script.selecting accepts).asked true) = selected := by
    rw [funext (Script.asked_selecting accepts)]
    simp only [selected, List.filterMap_filter]
  have hturned :
      turned = (Node.element root).scripted (.selecting accepts) (some f) [] none memory := by
    rw [← Element.turned_eq_scripted]
  obtain ⟨calls, hcalls, hserved⟩ := root.calls_scripted (.selecting accepts) (some f) memory
  have happly := root.scripted_apply (.selecting accepts) (some f) memory
  rw [Option.isSome_some, hasked, ← hturned] at hserved
  rw [← hturned] at happly
  rw [Element.rewrite_eq_scripted, Element.rewritePlainly_eq_scripted,
    Element.rewrite_eq_scripted, Element.rewritePlainly_eq_scripted]
  refine ⟨rfl, ?_, ?_, ?_, calls, hcalls, hcalls, hserved, root.nodup_departures,
    root.perm_departures⟩
  · intro e m h
    rw [happly, h]
    rfl
  · intro e m h
    rw [happly, h]
    rfl
  · intro nodes m h hnodes
    rw [happly, h]
    simp only [Except.bind, finish_of_ne root hnodes]

end Hypertext
