import Hypertext.Proofs.Rewrite
import Hypertext.Selection

/-!
# Selections find what is in the tree

`Selection.ahead` lists the elements that a selection has still to find: those among the nodes
ahead of its walk whose paths pass the test.  Nothing is asked for on the walk of a selection, which
is what `Walk.Idle` says, and so no step of it fails.  A call of `next?` takes the first element of
the list, as `next?_eq` says, and from the start the list is that of the whole tree.
-/

namespace Hypertext

variable {σ : Type}

/-! ### Walks on which nothing is asked for -/

namespace Walk

/-- Whether no request is open on a walk. -/
structure Idle (w : Walk σ) : Prop where
  root : w.rootRequest = none
  frames : ∀ f ∈ w.frames, f.requests = .empty

theorem idle_start (root : Element) (rewriter : Option (Rewriter σ)) (memory : σ) :
  (start root rewriter memory).Idle
  where
  root := rfl
  frames := List.forall_mem_singleton.mpr rfl

/-- A node without requests in it and for it stays. -/
theorem outcome_of_idle (rewriter : Option (Rewriter σ)) {f : Frame} (h : f.requests = .empty)
    (memory : σ) :
  outcome rewriter f none memory = (.ok none, memory)
  := by
  have hrebuilt : f.rebuilt? = none := by
    rw [Frame.rebuilt?]
    split
    · rw [h]
      rfl
    · rfl
  rw [outcome, hrebuilt]
  rfl

/-- Leaving a node succeeds where nothing was asked for, and asks for nothing. -/
theorem idle_leave {w : Walk σ} {f : Frame} {rest : List Frame} (hroot : w.rootRequest = none)
    (h : ∀ g ∈ f :: rest, g.requests = .empty) :
  (w.leave f rest).1 = .ok () ∧ (w.leave f rest).2.Idle
  := by
  induction rest generalizing w f with
  | nil =>
    rw [leave, leaveRoot, hroot, outcome_of_idle _ (h f (.head _))]
    refine ⟨rfl, rfl, ?_⟩
    intro g hg
    exact absurd hg List.not_mem_nil
  | cons above rest ih =>
    obtain ⟨hf, hrest⟩ := List.forall_mem_cons.mp h
    obtain ⟨habove, htail⟩ := List.forall_mem_cons.mp hrest
    have hnone : above.requests.get? f.place = none := by
      rw [habove]
      rfl
    have hsettled : ∀ g ∈ above.settle f.place none :: rest, g.requests = .empty := by
      apply List.forall_mem_cons.mpr ⟨_, htail⟩
      rw [Frame.settle, Frame.withdraw, habove]
      rfl
    rw [leave, hnone, outcome_of_idle _ hf]
    simp only
    split
    · exact ⟨rfl, hroot, List.forall_mem_cons.mpr ⟨rfl, hsettled⟩⟩
    · exact ih hroot hsettled

/-- A step succeeds where nothing was asked for, and asks for nothing. -/
theorem Idle.next {w : Walk σ} (h : w.Idle) :
  w.next.1 = .ok () ∧ w.next.2.Idle
  := by
  obtain ⟨root, rewriter, memory, frames, rootRequest, result⟩ := w
  match frames with
  | [] => exact ⟨rfl, h⟩
  | f :: rest =>
    rw [Walk.next]
    simp only
    split
    · exact ⟨rfl, h.root, List.forall_mem_cons.mpr ⟨rfl, h.frames⟩⟩
    · apply idle_leave h.root h.frames

end Walk

/-! ### What is found -/

/-- The elements among visited nodes whose paths pass a test. -/
def Visit.elements (accepts : Path → Bool) (vs : List Visit) : List Element :=
  (vs.filter (·.selected accepts)).filterMap (·.node.element?)

/-- The elements selected among visits are those of the first one and those of the others. -/
theorem Visit.elements_cons (accepts : Path → Bool) (v : Visit) (vs : List Visit) :
  elements accepts (v :: vs)
    = (if v.selected accepts then v.node.element?.toList else []) ++ elements accepts vs
  := by
  rw [elements, List.filter_cons]
  split
  · rw [List.filterMap_cons]
    cases v.node.element? with
    | none => rfl
    | some e => rfl
  · rfl

namespace Selection

/-- The elements that a selection has still to find. -/
def ahead (s : Selection) : List Element := Visit.elements s.accepts s.walk.ahead

/-- All elements selected are ahead of a selection that has just begun. -/
theorem ahead_ofTest (accepts : Path → Bool) (root : Element) :
  (ofTest accepts root).ahead = Visit.elements accepts root.visits
  := by
  rw [ahead, ofTest, Walk.ahead_start]

/-- A selection finds the current element if it is selected. -/
theorem found?_eq (s : Selection) {v : Visit} (hv : s.walk.here? = some v) :
  s.found? = if v.selected s.accepts then v.node.element? else none
  := by
  have hcurrent : s.walk.current? = some v.node := by
    rw [Walk.here?] at hv
    rw [Walk.current?]
    split at hv
    · cases hv
    · next f rest hframes =>
      obtain rfl := Option.some.inj hv
      rw [hframes]
      rfl
  rw [found?, Walk.selected_eq s.accepts hv, hcurrent]
  rfl

/-- A step of the walk passes over its current node. -/
theorem ahead_next {s : Selection} (h : s.walk.Idle) (hend : s.walk.isEnd = false) :
  s.ahead = s.found?.toList ++ { s with walk := s.walk.next.2 }.ahead
  := by
  rw [Walk.isEnd_eq] at hend
  obtain ⟨v, hv⟩ := Option.isSome_iff_exists.mp (Option.isNone_eq_false_iff.mp hend)
  rw [ahead, Walk.ahead_next s.walk hv h.next.1, Visit.elements_cons, found?_eq s hv]
  split
  · rfl
  · rfl

/-- A call finds the first of the elements to be found and leaves the others. -/
theorem next?_eq {s : Selection} (h : s.walk.Idle) :
  s.next?.1 = s.ahead.head? ∧ s.next?.2.ahead = s.ahead.tail ∧ s.next?.2.walk.Idle
  := by
  fun_induction next? s with
  | case1 s hend =>
    have hnil : s.walk.ahead = [] := by
      rw [← List.head?_eq_none_iff, Walk.head?_ahead, ← Option.isNone_iff_eq_none,
        ← Walk.isEnd_eq, hend]
    rw [ahead, hnil]
    exact ⟨rfl, rfl, h⟩
  | case2 s hend e w hnext =>
    have hok := h.next.1
    rw [hnext] at hok
    cases hok
  | case3 s hend w hnext e hfound =>
    have hstep := ahead_next h (Bool.eq_false_iff.mpr hend)
    have hidle := h.next.2
    rw [hnext] at hstep hidle
    rw [hstep, hfound]
    exact ⟨rfl, rfl, hidle⟩
  | case4 s hend w hnext hfound ih =>
    have hstep := ahead_next h (Bool.eq_false_iff.mpr hend)
    have hidle := h.next.2
    rw [hnext] at hstep hidle
    rw [hstep, hfound]
    apply ih hidle

/-! ### Many calls -/

/-- The selection after a number of calls. -/
def after : Nat → Selection → Selection
  | 0, s => s
  | n + 1, s => after n s.next?.2

/-- After some steps the next element is the one of that number. -/
theorem next?_after {s : Selection} (h : s.walk.Idle) (n : Nat) :
  (s.after n).next?.1 = s.ahead[n]?
  := by
  induction n generalizing s with
  | zero => rw [after, (next?_eq h).1, List.head?_eq_getElem?]
  | succ n ih =>
    obtain ⟨-, htail, hidle⟩ := next?_eq h
    rw [after, ih hidle, htail, List.getElem?_tail]

/-- The list of a selection is what is ahead of it. -/
theorem toList_eq {s : Selection} (h : s.walk.Idle) :
  s.toList = s.ahead
  := by
  fun_induction toList s with
  | case1 s rest hnext =>
    have hhead := (next?_eq h).1
    rw [hnext] at hhead
    rw [List.head?_eq_none_iff.mp hhead.symm]
  | case2 s e rest hnext ih =>
    obtain ⟨hhead, htail, hidle⟩ := next?_eq h
    rw [hnext] at hhead htail hidle
    rw [ih hidle, htail]
    apply List.cons_head?_tail hhead.symm

/-- The list of a selection that has just begun has all elements selected, in document order. -/
theorem toList_ofTest (accepts : Path → Bool) (root : Element) :
  (ofTest accepts root).toList = Visit.elements accepts root.visits
  := by
  rw [toList_eq (Walk.idle_start root none ()), ahead_ofTest]

/-- Taking some elements leaves the others ahead. -/
theorem take_eq {s : Selection} (h : s.walk.Idle) (n : Nat) :
  (s.take n).1 = s.ahead.take n ∧ (s.take n).2.ahead = s.ahead.drop n
    ∧ (s.take n).2.walk.Idle
  := by
  induction n generalizing s with
  | zero => exact ⟨rfl, rfl, h⟩
  | succ n ih =>
    obtain ⟨hhead, htail, hidle⟩ := next?_eq h
    rw [take]
    split
    · next rest hnext =>
      rw [hnext] at hhead htail hidle
      have hnil := List.head?_eq_none_iff.mp hhead.symm
      rw [hnil] at htail ⊢
      exact ⟨rfl, htail, hidle⟩
    · next e rest hnext =>
      rw [hnext] at hhead htail hidle
      obtain ⟨htake, hdrop, hidle'⟩ := ih hidle
      have hcons := List.cons_head?_tail hhead.symm
      rw [← hcons]
      rw [htail] at htake hdrop
      exact ⟨congrArg (e :: ·) htake, hdrop, hidle'⟩

/-- The calls of `next?` find the elements whose paths pass a test in document order, each node
of the tree being visited once, and nothing after them, however often one asks.  Taking some of
them and then the rest leaves out none. -/
theorem next?_ofTest (accepts : Path → Bool) (root : Element) :
  let found := (root.visits.filter (·.selected accepts)).filterMap (·.node.element?)
  let s := ofTest accepts root
  root.visits.Nodup
    ∧ s.toList = found
    ∧ (∀ n, (s.after n).next?.1 = found[n]?)
    ∧ ∀ n, (s.take n).1 = found.take n
      ∧ (s.take n).2.toList = found.drop n
      ∧ (s.take n).1.length + (s.take n).2.toList.length = found.length
  := by
  intro found s
  have hidle : s.walk.Idle := Walk.idle_start root none ()
  have hahead : s.ahead = found := ahead_ofTest accepts root
  refine ⟨root.nodup_visits, ?_, ?_, ?_⟩
  · rw [toList_eq hidle, hahead]
  · intro n
    rw [next?_after hidle, hahead]
  · intro n
    obtain ⟨htake, hdrop, hidle'⟩ := take_eq hidle n
    rw [toList_eq hidle', htake, hdrop, hahead, ← List.length_append, List.take_append_drop]
    exact ⟨rfl, rfl, rfl⟩

end Selection

end Hypertext
