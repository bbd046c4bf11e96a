import Hypertext.Proofs.Rewrite

/-!
# Rewriting below the root

`Element.rewriteChildren` goes through the nodes below the root of a tree by recursion, and
`Element.rewrite` walks through the tree.  With a function that gives elements to a rewriter and
leaves texts alone the first does what the second does for the elements that have another one above
them, as `rewriteChildren_onElements` says.

The two meet in what the elements turn into: below an element, that is the same for both.
-/

namespace Hypertext

variable {σ α β : Type}

/-- The function that gives a child to a rewriter if it is an element, and leaves a text alone. -/
def Rewriter.onElements (f : Rewriter σ) : ChildRewriter σ := fun child _ =>
  match child with
  | .element e => some <$> f e
  | .text _ => return none

/-- Whether there is an element above the first one of a path. -/
def Path.isNested (p : Path) : Bool := 2 ≤ p.length

theorem Path.isNested_cons (step : Step) {above : Path} (h : above ≠ []) :
  Path.isNested (step :: above) = true
  := by
  have hpos := List.length_pos_iff.mpr h
  apply decide_eq_true
  rw [List.length_cons]
  omega

/-! ### Below an element -/

section

variable {f : Rewriter σ}

mutual

/-- Below the root an element is rewritten as its children are, and is then given to the rewriter
itself. -/
theorem Element.turned_isNested {above : Path} (h : above ≠ []) (place : Option Nat) (e : Element) :
  e.turned Path.isNested f above place = e.rewriteChildren f.onElements >>= f
  := by
  match e with
  | ⟨tag, attributes, children⟩ =>
    rw [Element.turned, Element.rewriteChildren,
      Node.turnedAll_isNested (List.cons_ne_nil _ above) ⟨tag, attributes, children⟩ 0 children,
      bind_assoc]
    simp only [Path.isNested_cons _ h, if_true, pure_bind]

/-- A node below an element turns into what the rewriter gives for it, and into itself if it is a
text. -/
theorem Node.turned_isNested {above : Path} (h : above ≠ []) (parent : Element) (place : Nat)
    (n : Node) :
  n.turned Path.isNested f above place
    = (do
      let child ← n.rewriteBelow f.onElements
      let nodes ← f.onElements child parent
      return nodes.getD [child])
  := by
  match n with
  | .element e =>
    rw [Node.turned, Element.turned_isNested h (some place) e, Node.rewriteBelow]
    simp only [Rewriter.onElements, bind_assoc, pure_bind, map_eq_pure_bind, Option.getD_some,
      bind_pure]
  | .text content => rfl

/-- The children of an element are rewritten one by one. -/
theorem Node.turnedAll_isNested {above : Path} (h : above ≠ []) (parent : Element) (place : Nat)
    (ns : List Node) :
  Node.turnedAll Path.isNested f above place ns = Node.rewriteEach f.onElements parent ns
  := by
  match ns with
  | [] => rfl
  | n :: ns =>
    rw [Node.turnedAll, Node.rewriteEach, Node.turned_isNested h parent place n,
      Node.turnedAll_isNested h parent (place + 1) ns]
    simp only [bind_assoc, pure_bind]

end

end

/-! ### From the root -/

/-- The root turns into itself with the nodes below it rewritten. -/
theorem Element.turned_isNested_root (f : Rewriter σ) (root : Element) :
  root.turned Path.isNested f [] none
    = (fun e => [.element e]) <$> root.rewriteChildren f.onElements
  := by
  obtain ⟨tag, attributes, children⟩ := root
  rw [Element.turned, Element.rewriteChildren,
    Node.turnedAll_isNested (List.cons_ne_nil _ []) ⟨tag, attributes, children⟩]
  simp only [map_bind, map_pure]
  rfl

/-- Rewriting the children is rewriting what has an element above it. -/
theorem Element.rewriteChildren_eq_rewrite (f : Rewriter σ) (root : Element) :
  root.rewriteChildren f.onElements = root.rewrite Path.isNested f
  := by
  funext memory
  rw [Element.rewrite_apply, Element.turned_isNested_root]
  rcases h : root.rewriteChildren f.onElements memory with ⟨e | result, m⟩
  · rw [Effect.map_error _ h]
    rfl
  · rw [Effect.map_ok _ h]
    rfl

/-- What serves for the effect of a function on a value serves for the value. -/
theorem Served.of_map {f : Rewriter σ} {es calls : List Element} {g : α → β} {x : Effect σ α}
    {memory : σ} (h : Served (some f) es calls ((g <$> x) memory)) :
  Served (some f) es calls (x memory)
  := by
  obtain ⟨hinitial, hcomplete, hfailed⟩ := h
  rcases hx : x memory with ⟨e | a, m⟩
  · rw [Effect.map_error g hx] at hfailed
    refine ⟨hinitial, nofun, ?_⟩
    intro e' he'
    cases he'
    apply hfailed e rfl
  · rw [Effect.map_ok g hx] at hcomplete
    exact ⟨hinitial, fun _ _ => hcomplete (g a) rfl, nofun⟩

/-- Giving the elements below the root of a tree to a rewriter by recursion, the inner ones first
and texts left alone, is rewriting on a walk the elements whose paths have at least two steps: the
same tree or the same error, and the same calls.  These are for the elements below the root in the
order of leaving, for all of them, or for the first ones up to the call that failed with the
error. -/
theorem rewriteChildren_onElements (f : Rewriter σ) (root : Element) (memory : σ) :
  let below := (root.departures.filter (·.selected Path.isNested)).filterMap (·.node.element?)
  let rewriting := root.rewrite Path.isNested f memory
  root.rewriteChildren f.onElements memory = rewriting
    ∧ ∃ calls, root.rewriteChildren f.logged.onElements (memory, [])
        = (rewriting.1, rewriting.2, calls)
      ∧ root.rewrite Path.isNested f.logged (memory, []) = (rewriting.1, rewriting.2, calls)
      ∧ Served (some f) below calls rewriting
  := by
  intro below rewriting
  have hsame : root.rewriteChildren f.onElements memory = rewriting :=
    congrFun (root.rewriteChildren_eq_rewrite f) memory
  obtain ⟨calls, hcalls, hserved⟩ := root.calls_rewrite Path.isNested f memory
  have hlogged := congrFun (root.rewriteChildren_eq_rewrite f.logged) (memory, [])
  rw [Element.turned_isNested_root] at hserved
  refine ⟨hsame, calls, hlogged.trans hcalls, hcalls, ?_⟩
  rw [← hsame]
  apply hserved.of_map

end Hypertext
