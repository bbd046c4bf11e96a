import Hypertext.Rewrite
import Hypertext.Selector.Match
import Hypertext.Selector.Parser

/-!
# Selections

A `Selection` finds the elements of a tree whose paths pass a test, one by one and in document
order, and the functions after `Selection.rewrite` change all of them at once.  Finding does
not depend on changing: a change always starts from the whole tree.
-/

namespace Hypertext

/-- The elements of a tree that pass a test, found on a walk. -/
structure Selection where
  walk : Walk Unit
  accepts : Path → Bool

namespace Selection

/-- The elements of a tree whose paths pass a test. -/
def ofTest (accepts : Path → Bool) (root : Element) : Selection :=
  ⟨.start root none (), accepts⟩

/-- The elements of a tree that pass a test whatever surrounds them. -/
def ofElementTest (accepts : Element → Bool) (root : Element) : Selection :=
  ofTest (fun path => path.head?.any fun step => accepts step.element) root

/-- The elements of a tree that match a selector. -/
def ofSelector (s : Selector) (root : Element) : Selection := ofTest s.accepts root

/-- The elements of a tree that match the selector that a text reads as. -/
def ofText (selector : String) (root : Element) : Except ParseError Selection :=
  (Selector.parse selector).map (ofSelector · root)

/-! ### Finding -/

/-- The element at which a walk is if it passes the test. -/
def found? (s : Selection) : Option Element :=
  if s.walk.selected s.accepts then s.walk.current?.bind (·.element?) else none

/-- The next element that passes the test, and the selection of those after it. -/
def next? (s : Selection) : Option Element × Selection :=
  if _hend : s.walk.isEnd then (none, s)
  else
    match _hnext : s.walk.next with
    | (.error _, w) => (none, { s with walk := w })
    | (.ok (), w) =>
      match s.found? with
      | some e => (some e, { s with walk := w })
      | none => next? { s with walk := w }
termination_by s.walk.remaining
decreasing_by
  have h := s.walk.remaining_next
  simp_all
  omega

/-- Finding an element leaves less to visit. -/
theorem remaining_next? (s : Selection) (e : Element) (h : s.next?.1 = some e) :
  s.next?.2.walk.remaining < s.walk.remaining
  := by
  fun_induction next? s with
  | case1 => cases h
  | case2 => cases h
  | case3 s hend w hnext e hfound =>
    have hr := s.walk.remaining_next
    simp_all
    omega
  | case4 s hend w hnext hfound ih =>
    have hr := s.walk.remaining_next
    have := ih h
    simp_all
    omega

/-- All elements that pass the test and are still to be found. -/
def toList (s : Selection) : List Element :=
  match _h : s.next? with
  | (none, _) => []
  | (some e, rest) => e :: toList rest
termination_by s.walk.remaining
decreasing_by
  have := remaining_next? s e (by rw [_h])
  simp_all

/-- The first elements that pass the test, at most a number of them, and the selection of those
after them. -/
def take : Nat → Selection → List Element × Selection
  | 0, s => ([], s)
  | n + 1, s =>
    match s.next? with
    | (none, rest) => ([], rest)
    | (some e, rest) =>
      let (es, rest) := take n rest
      (e :: es, rest)

/-! ### Changing -/

/-- The tree with every selected element rewritten. -/
def rewrite {σ : Type} (f : Rewriter σ) (s : Selection) : Effect σ Element :=
  s.walk.root.rewrite s.accepts f

/-- The tree with every selected element changed by a function that cannot fail. -/
def change (f : Element → List Node) (s : Selection) : Except Error Element :=
  (s.rewrite (fun e => pure (f e)) ()).1

/-- The tree with every selected element put into a new one. -/
def wrap (tag : String) (attributes : Attributes) (s : Selection) : Except Error Element :=
  s.change fun e => [.element ⟨tag, attributes, [.element e]⟩]

/-- The tree with an attribute of every selected element set. -/
def setAttribute (name value : String) (s : Selection) : Except Error Element :=
  s.change fun e => [.element (e.setAttribute name value)]

/-- The tree with words added to the class list of every selected element. -/
def addClass (names : String) (s : Selection) : Except Error Element :=
  s.change fun e => [.element (e.addClass names)]

/-- The tree with a word taken out of the class list of every selected element. -/
def removeClass (name : String) (s : Selection) : Except Error Element :=
  s.change fun e => [.element (e.removeClass name)]

/-- The tree without the selected elements and all that is in them. -/
def remove (s : Selection) : Except Error Element := s.change fun _ => []

end Selection

end Hypertext
