import Hypertext.Proofs.Walk.Script
import Mathlib.Data.List.Nodup
import Mathlib.Tactic.Use

/-!
# Calls of the rewriter

`Rewriter.logged` is a rewriter that also writes down the elements it is given, and
`Element.departures` lists the nodes of a tree in the order in which a walk leaves them: what is
in an element before the element.  `Logs` relates an effect with a rewriter to the one with the
logged rewriter, which does the same and is called for given elements in their order, for all of
them unless it fails.  Without a rewriter there are no calls, and nothing fails.

`follow_start` says that a walk which follows a script, with a rewriter or without, comes to what
`Element.scripted` says by recursion: the same result, error and calls.
-/

namespace Hypertext

variable {σ α β : Type}

/-! ### The order of leaving -/

mutual

/-- The nodes of a tree, those in an element before it, given the place of the root and the path
above it. -/
def Node.departures (above : Path) (place : Option Nat) : Node → List Visit
  | .element ⟨tag, attributes, children⟩ =>
    Node.departuresAll (⟨⟨tag, attributes, children⟩, place⟩ :: above) 0 children
      ++ [⟨.element ⟨tag, attributes, children⟩, place, above⟩]
  | .text content => [⟨.text content, place, above⟩]

/-- The nodes of several trees, those in an element before it, given the place of the first root
and the path above them. -/
def Node.departuresAll (above : Path) (place : Nat) : List Node → List Visit
  | [] => []
  | n :: ns => n.departures above (some place) ++ Node.departuresAll above (place + 1) ns

end

/-- The nodes of a tree in the order in which a walk leaves them. -/
def Element.departures (e : Element) : List Visit := (Node.element e).departures [] none

mutual

/-- A walk leaves every node once. -/
theorem Node.perm_departures (above : Path) (place : Option Nat) (n : Node) :
  (n.departures above place).Perm (Visit.below ⟨n, place, above⟩)
  := by
  match n with
  | .element ⟨tag, attributes, children⟩ =>
    rw [Node.departures, Visit.below_eq]
    apply List.perm_append_comm.trans
    apply List.Perm.cons
    apply Node.perm_departuresAll _ _ children
  | .text content => rfl

/-- A walk leaves every node once. -/
theorem Node.perm_departuresAll (above : Path) (place : Nat) (ns : List Node) :
  (Node.departuresAll above place ns).Perm (Node.visitsFrom above place ns)
  := by
  match ns with
  | [] => rfl
  | n :: ns =>
    rw [Node.departuresAll, Node.visitsFrom_cons]
    apply List.Perm.append
    · apply Node.perm_departures _ _ n
    · apply Node.perm_departuresAll _ _ ns

end

/-- The places of a node and of the elements above it, nearest first. -/
def Visit.places (v : Visit) : List (Option Nat) := v.place :: v.above.map (·.place)

mutual

/-- A node in another one is at the end of a way through the place of that one. -/
theorem Node.places_of_mem_departures {above : Path} {place : Option Nat} {n : Node} {v : Visit}
    (h : v ∈ n.departures above place) :
  place :: above.map (·.place) <:+ v.places
  := by
  match n with
  | .element ⟨tag, attributes, children⟩ =>
    rw [Node.departures] at h
    rcases List.mem_append.mp h with h | h
    · obtain ⟨p, -, hsuffix⟩ := Node.places_of_mem_departuresAll h
      apply List.IsSuffix.trans _ hsuffix
      apply List.suffix_cons
    · obtain rfl := List.mem_singleton.mp h
      apply List.suffix_rfl
  | .text content =>
    obtain rfl := List.mem_singleton.mp h
    apply List.suffix_rfl

/-- The places of a node among children end in that of a child at or behind the first. -/
theorem Node.places_of_mem_departuresAll {above : Path} {place : Nat} {ns : List Node} {v : Visit}
    (h : v ∈ Node.departuresAll above place ns) :
  ∃ p, place ≤ p ∧ some p :: above.map (·.place) <:+ v.places
  := by
  match ns with
  | [] => cases h
  | n :: ns =>
    rw [Node.departuresAll] at h
    rcases List.mem_append.mp h with h | h
    · use place
      constructor
      · apply Nat.le_refl
      · apply Node.places_of_mem_departures h
    · obtain ⟨p, hle, hsuffix⟩ := Node.places_of_mem_departuresAll h
      use p
      constructor
      · apply Nat.le_of_succ_le hle
      · apply hsuffix

end

/-- Two suffixes of a list that differ at most in their first items have the same first item. -/
theorem eq_of_cons_suffix {a b : α} {as bs : List α} (ha : a :: as <:+ bs) (hb : b :: as <:+ bs) :
  a = b
  := by
  have heq := (List.suffix_of_suffix_length_le ha hb (Nat.le_refl _)).eq_of_length rfl
  apply (List.cons.inj heq).1

mutual

/-- No two nodes of a tree are at the same place of it. -/
theorem Node.nodup_departures (above : Path) (place : Option Nat) (n : Node) :
  (n.departures above place).Nodup
  := by
  match n with
  | .element ⟨tag, attributes, children⟩ =>
    rw [Node.departures, List.nodup_append]
    use Node.nodup_departuresAll _ _ children, List.nodup_singleton _
    intro v hv w hw heq
    obtain rfl := List.mem_singleton.mp hw
    obtain ⟨p, -, hsuffix⟩ := Node.places_of_mem_departuresAll hv
    have hlength := hsuffix.length_le
    simp only [heq, Visit.places, List.map_cons, List.length_cons] at hlength
    omega
  | .text content => apply List.nodup_singleton

theorem Node.nodup_departuresAll (above : Path) (place : Nat) (ns : List Node) :
  (Node.departuresAll above place ns).Nodup
  := by
  match ns with
  | [] => apply List.nodup_nil
  | n :: ns =>
    rw [Node.departuresAll, List.nodup_append]
    use Node.nodup_departures _ _ n, Node.nodup_departuresAll _ _ ns
    rintro v hv w hw rfl
    have hfirst := Node.places_of_mem_departures hv
    obtain ⟨p, hle, hlater⟩ := Node.places_of_mem_departuresAll hw
    obtain rfl := Option.some.inj (eq_of_cons_suffix hfirst hlater)
    apply absurd hle (Nat.not_succ_le_self place)

end

/-- The walk leaves each node that it visits, and no other. -/
theorem Element.perm_departures (e : Element) :
  e.departures.Perm e.visits
  := Node.perm_departures [] none (.element e)

/-- The walk leaves each node once. -/
theorem Element.nodup_departures (e : Element) :
  e.departures.Nodup
  := Node.nodup_departures [] none (.element e)

/-- The walk visits each node once. -/
theorem Element.nodup_visits (e : Element) :
  e.visits.Nodup
  := e.perm_departures.nodup_iff.mp e.nodup_departures

/-! ### Logs -/

/-- The rewriter that writes down the elements that it is given. -/
def Rewriter.logged (f : Rewriter σ) : Rewriter (σ × List Element) :=
  fun e m => ((f e m.1).1, (f e m.1).2, m.2 ++ [e])

/-- An element without its children. -/
def Element.bare (e : Element) : Element := e.setChildren []

/-- Whether a rewriter was called for the given elements, apart from their children, in their
order: for all of them, or for the first ones up to a call that failed. -/
structure Served (rewriter : Option (Rewriter σ)) (es calls : List Element)
    (r : Except Error α × σ) : Prop where
  initial : calls.map Element.bare <+: es.map Element.bare
  complete : ∀ a, r.1 = .ok a → calls.map Element.bare = es.map Element.bare
  failed : ∀ e, r.1 = .error e →
    ∃ f ∈ rewriter, ∃ call m, calls.getLast? = some call ∧ f call m = (.error e, r.2)

/-- Whether one effect does the same as another and writes down the calls that serve elements. -/
def Logs (rewriter : Option (Rewriter σ)) (x : Effect σ α) (y : Effect (σ × List Element) α)
    (es : List Element) : Prop :=
  ∀ m log, ∃ calls, y (m, log) = ((x m).1, (x m).2, log ++ calls) ∧ Served rewriter es calls (x m)

/-- Without an effect there is no call. -/
theorem Logs.pure (rewriter : Option (Rewriter σ)) (a : α) :
  Logs rewriter (pure a : Effect σ α) (pure a) []
  := by
  intro m log
  refine ⟨[], ?_, List.prefix_rfl, fun _ _ => rfl, fun e he => ?_⟩
  · rw [List.append_nil]
    rfl
  · cases he

/-- The calls of a second effect come after those of a first one that does not fail. -/
theorem Logs.bind {rewriter : Option (Rewriter σ)} {x : Effect σ α}
    {y : Effect (σ × List Element) α} {es : List Element} {g : α → Effect σ β}
    {h : α → Effect (σ × List Element) β} {es' : List Element} (hx : Logs rewriter x y es)
    (hg : ∀ a, Logs rewriter (g a) (h a) es') :
  Logs rewriter (x >>= g) (y >>= h) (es ++ es')
  := by
  intro m log
  obtain ⟨calls, hy, hserved⟩ := hx m log
  rcases hm : x m with ⟨e | a, m'⟩
  · rw [hm] at hy hserved
    rw [Effect.bind_error hm, Effect.bind_error hy]
    refine ⟨calls, rfl, ?_, ?_, ?_⟩
    · rw [List.map_append]
      apply hserved.initial.trans (List.prefix_append _ _)
    · intro b hb
      cases hb
    · intro e' he'
      cases he'
      apply hserved.failed e rfl
  · rw [hm] at hy hserved
    obtain ⟨calls', hy', hserved'⟩ := hg a m' (log ++ calls)
    rw [Effect.bind_ok hm, Effect.bind_ok hy, hy', List.append_assoc]
    refine ⟨calls ++ calls', rfl, ?_, ?_, ?_⟩
    · rw [List.map_append, List.map_append, hserved.complete a rfl]
      apply (List.prefix_append_right_inj _).2 hserved'.initial
    · intro b hb
      rw [List.map_append, List.map_append, hserved.complete a rfl, hserved'.complete b hb]
    · intro e he
      obtain ⟨f, hf, call, m'', hlast, hcall⟩ := hserved'.failed e he
      exact ⟨f, hf, call, m'', by rw [List.getLast?_append, hlast]; rfl, hcall⟩

/-- A rewriter is called for the element that it is given. -/
theorem Logs.rewriter (f : Rewriter σ) {e e' : Element} (h : e.bare = e'.bare) :
  Logs (some f) (f e) (f.logged e) [e']
  := by
  intro m log
  have hmap : [e].map Element.bare = [e'].map Element.bare := congrArg (fun b => [b]) h
  refine ⟨[e], rfl, ?_, fun _ _ => hmap, fun err herr => ⟨f, rfl, e, m, rfl, ?_⟩⟩
  · exact hmap ▸ List.prefix_rfl
  · rw [← herr]

/-! ### Calls for a script -/

/-- The element for which a script asks the rewriter at a node, given whether there is one. -/
def Script.asked (s : Script) (hasRewriter : Bool) (v : Visit) : Option Element :=
  match s.last? hasRewriter v with
  | some .rewrite => v.node.element?
  | _ => none

/-- Carrying out the request of a script for a node calls the rewriter if the script asks it. -/
theorem Script.logs_carryOut (s : Script) (rewriter : Option (Rewriter σ)) (v : Visit)
    (nodes : List Node) :
  Logs rewriter (carryOut rewriter (v.node.setChildren nodes) (s.last? rewriter.isSome v))
    (carryOut (rewriter.map Rewriter.logged) (v.node.setChildren nodes)
      (s.last? rewriter.isSome v))
    ([v].filterMap (s.asked rewriter.isSome))
  := by
  rw [List.filterMap_cons, List.filterMap_nil, Script.asked]
  match hlast : s.last? rewriter.isSome v, hnode : v.node with
  | none, .element e => apply Logs.pure
  | none, .text content => apply Logs.pure
  | some (.replace _), _ => apply Logs.pure
  | some .rewrite, .element e =>
    obtain ⟨-, hrewriter⟩ := Script.allowed_of_last? hlast
    obtain ⟨f, rfl⟩ := Option.isSome_iff_exists.mp hrewriter
    exact Logs.rewriter f (rfl : (e.setChildren nodes).bare = e.bare)
  | some .rewrite, .text content => apply Logs.pure

mutual

/-- The rewriter is called for the elements for which a script asks it, in the order of leaving. -/
theorem Node.logs_scripted (s : Script) (rewriter : Option (Rewriter σ)) (above : Path)
    (place : Option Nat) (n : Node) :
  Logs rewriter (n.scripted s rewriter above place)
    (n.scripted s (rewriter.map Rewriter.logged) above place)
    ((n.departures above place).filterMap (s.asked rewriter.isSome))
  := by
  match n with
  | .element ⟨tag, attributes, children⟩ =>
    rw [Node.scripted, Node.scripted, Node.departures, List.filterMap_append, Option.isSome_map]
    apply Logs.bind
    · apply Node.logs_scriptedAll _ _ _ _ children
    · intro nodes
      apply s.logs_carryOut rewriter ⟨.element ⟨tag, attributes, children⟩, place, above⟩ nodes
  | .text content =>
    rw [Node.scripted, Node.scripted, Node.departures, Option.isSome_map]
    apply s.logs_carryOut rewriter ⟨.text content, place, above⟩ []

/-- The rewriter is called for the elements for which a script asks it, in the order of leaving. -/
theorem Node.logs_scriptedAll (s : Script) (rewriter : Option (Rewriter σ)) (above : Path)
    (place : Nat) (ns : List Node) :
  Logs rewriter (Node.scriptedAll s rewriter above place ns)
    (Node.scriptedAll s (rewriter.map Rewriter.logged) above place ns)
    ((Node.departuresAll above place ns).filterMap (s.asked rewriter.isSome))
  := by
  match ns with
  | [] => apply Logs.pure
  | n :: ns =>
    rw [Node.scriptedAll, Node.scriptedAll, Node.departuresAll, List.filterMap_append]
    apply Logs.bind
    · apply Node.logs_scripted _ _ _ _ n
    · intro nodes
      have hmore := (Node.logs_scriptedAll s rewriter above (place + 1) ns).bind
        fun more => Logs.pure rewriter (nodes ++ more)
      rwa [List.append_nil] at hmore

end

/-! ### Runs from the start -/

/-- The tree with the requests of a script carried out is what its root turns into. -/
theorem Element.scripted_eq (s : Script) (rewriter : Option (Rewriter σ)) (root : Element) :
  root.scripted s rewriter
    = (Node.element root).scripted s rewriter [] none >>= fun nodes =>
      Effect.ofExcept (finish root (some nodes))
  := by
  rw [Element.scripted]
  congr 1
  funext nodes
  match nodes with
  | [] => rfl
  | [.element e] => rfl
  | [.text content] => rfl
  | .element _ :: _ :: _ => rfl
  | .text _ :: _ :: _ => rfl

/-- The root rule fails with the nodes that the root turned into. -/
theorem finish_of_ne (root : Element) {nodes : List Node} (h : ∀ e, nodes ≠ [.element e]) :
  finish root (some nodes) = .error (.format (.rootNotOneElement nodes))
  := by
  match nodes with
  | [] => rfl
  | [.element e] => exact absurd rfl (h e)
  | [.text content] => rfl
  | .element _ :: _ :: _ => rfl
  | .text _ :: _ :: _ => rfl

/-- Rewriting succeeds exactly if the root turns into a single element. -/
theorem isSome_toOption_bind_finish (root : Element) (x : Except Error (List Node)) :
  (x.bind fun nodes => finish root (some nodes)).toOption.isSome ↔ ∃ e, x = .ok [.element e]
  := by
  cases x with
  | error e => simp [Except.bind, Except.toOption]
  | ok nodes =>
    by_cases h : ∃ e, nodes = [.element e]
    · obtain ⟨e, rfl⟩ := h
      simp [Except.bind, finish, Except.toOption]
    · simp [Except.bind, finish_of_ne root (not_exists.1 h), Except.toOption, h]

/-- What is done for a script comes before it is found out whether the root is a single element. -/
theorem Element.scripted_apply (s : Script) (rewriter : Option (Rewriter σ)) (root : Element)
    (memory : σ) :
  root.scripted s rewriter memory
    = (((Node.element root).scripted s rewriter [] none memory).1.bind fun nodes =>
        finish root (some nodes),
      ((Node.element root).scripted s rewriter [] none memory).2)
  := by
  rw [Element.scripted_eq, Effect.bind_ofExcept]

/-- The rewriter is called for the elements for which a script asks it, also if the root does not
stay a single element in the end. -/
theorem Element.calls_scripted (s : Script) (rewriter : Option (Rewriter σ)) (root : Element)
    (memory : σ) :
  ∃ calls, root.scripted s (rewriter.map Rewriter.logged) (memory, [])
      = ((root.scripted s rewriter memory).1, (root.scripted s rewriter memory).2, calls)
    ∧ Served rewriter (root.departures.filterMap (s.asked rewriter.isSome)) calls
      ((Node.element root).scripted s rewriter [] none memory)
  := by
  obtain ⟨calls, hlogged, hserved⟩ :=
    Node.logs_scripted s rewriter [] none (.element root) memory []
  refine ⟨calls, ?_, hserved⟩
  rw [Element.scripted_apply, Element.scripted_apply, hlogged]
  rfl

/-- At the start a walk will come to what the recursion says. -/
theorem Walk.prospect_start (s : Script) (rewriter : Option (Rewriter σ)) (root : Element)
    (memory : σ) :
  (start root rewriter memory).prospect s rewriter = root.scripted s rewriter
  := by
  rw [Element.scripted_eq]
  rfl

/-- A walk from the start comes to what the recursion says. -/
theorem Walk.follow_eq_scripted (s : Script) (rewriter : Option (Rewriter σ)) (root : Element)
    (memory : σ) :
  ((start root rewriter memory).follow s).answer
      = (root.scripted s rewriter memory).1.map (fun _ => ())
    ∧ ((start root rewriter memory).follow s).last.result
      = (root.scripted s rewriter memory).1.toOption
    ∧ ((start root rewriter memory).follow s).last.memory = (root.scripted s rewriter memory).2
  := by
  have h := follow_eq_prospect s (ready_start root rewriter memory) rfl
  rw [prospect_start] at h
  apply h

/-- A walk that follows a script from the start comes to what the recursion says: to its error or
to its tree, which there is if and only if the root turned into a single element, and with the
same calls of the rewriter.  It visits the nodes of the tree, each of them once, and nothing else.
Without a rewriter, requests for it are refused and only replacements count. -/
theorem follow_start (s : Script) (rewriter : Option (Rewriter σ)) (root : Element) (memory : σ) :
  let run := (Walk.start root rewriter memory).follow s
  let logged := (Walk.start root (rewriter.map Rewriter.logged) (memory, [])).follow s
  let turned := (Node.element root).scripted s rewriter [] none memory
  run.answer = (root.scripted s rewriter memory).1.map (fun _ => ())
    ∧ run.last.result = (root.scripted s rewriter memory).1.toOption
    ∧ run.last.memory = (root.scripted s rewriter memory).2
    ∧ (run.last.result.isSome ↔ ∃ e, turned.1 = .ok [.element e])
    ∧ (∀ e, turned.1 = .error e → run.answer = .error e)
    ∧ root.visits.Nodup
    ∧ run.visited <+: root.visits
    ∧ (run.answer = .ok () → run.last.isEnd ∧ run.visited = root.visits)
    ∧ (logged.answer, logged.last.result) = (run.answer, run.last.result)
    ∧ ∃ calls, logged.last.memory = (run.last.memory, calls)
      ∧ Served rewriter (root.departures.filterMap (s.asked rewriter.isSome)) calls turned
  := by
  intro run logged turned
  obtain ⟨hanswer, hresult, hmemory⟩ := Walk.follow_eq_scripted s rewriter root memory
  obtain ⟨hanswer', hresult', hmemory'⟩ :=
    Walk.follow_eq_scripted s (rewriter.map Rewriter.logged) root (memory, [])
  obtain ⟨hinitial, hall⟩ := Walk.visited_follow s (Walk.start root rewriter memory)
  obtain ⟨calls, hsame, hserved⟩ := root.calls_scripted s rewriter memory
  have hahead := Walk.ahead_start root rewriter memory
  refine ⟨hanswer, hresult, hmemory, ?_, ?_, root.nodup_visits, ?_, ?_, ?_, calls, ?_, hserved⟩
  · rw [hresult, Element.scripted_apply]
    apply isSome_toOption_bind_finish
  · intro e he
    rw [hanswer, Element.scripted_apply]
    simp only [turned] at he
    rw [he]
    rfl
  · rwa [hahead] at hinitial
  · intro hok
    obtain ⟨hvisited, hend⟩ := hall hok
    exact ⟨hend, hvisited.trans hahead⟩
  · rw [hanswer', hresult', hsame, hanswer, hresult]
  · rw [hmemory', hsame, hmemory]

/-- The last request that is allowed counts, in a walk without a rewriter and in one with a
rewriter. -/
theorem follow_start_replacements :
  let x : Node := .element (.ofTag "x")
  let y : Node := .element (.ofTag "y")
  let root : Element := ⟨"div", .empty, [.element (.ofTag "a"), .element (.ofTag "b"), .text "c"]⟩
  let s : Script := fun v =>
    if v.place = some 0 then [.rewrite, .replace []]
    else if v.place = some 1 then [.replace [x], .replace [x, y], .rewrite]
    else if v.place = some 2 then [.replace [.text "C"], .rewrite]
    else []
  let f : Rewriter Unit := fun e => pure [.text e.tag]
  let without := (Walk.start root none ()).follow s
  let asking := (Walk.start root (some f) ()).follow s
  without.answer = .ok ()
    ∧ without.last.result = some ⟨"div", .empty, [x, y, .text "C"]⟩
    ∧ without.visited = root.visits
    ∧ asking.answer = .ok ()
    ∧ asking.last.result = some ⟨"div", .empty, [.text "b", .text "C"]⟩
  := by
  intro x y root s f without asking
  obtain ⟨hanswer, hresult, -, -, -, -, -, hvisited, -⟩ := follow_start s none root ()
  obtain ⟨hanswer', hresult', -⟩ := follow_start s (some f) root ()
  have hok : without.answer = .ok () := hanswer
  exact ⟨hok, hresult, (hvisited hok).2, hanswer', hresult'⟩

end Hypertext
