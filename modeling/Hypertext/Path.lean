import Hypertext.Tree

/-!
# Paths

A `Path` lists an element and the elements above it up to a root, nearest first.  Each step
knows the place of its element among the children of the next one, if it has such a place; a
root has none, and neither has a copy that was taken out of its tree.

`Path.follow?` goes down from a root along places.
-/

namespace Hypertext

/-- An element on a path, with its place among the children of the element above it. -/
structure Step where
  element : Element
  place : Option Nat

/-- An element and the elements above it, nearest first. -/
abbrev Path : Type := List Step

namespace Path

/-- The path of an element on its own. -/
def single (e : Element) : Path := [⟨e, none⟩]

/-- The elements of a path from the root down. -/
def fromRoot (p : Path) : List Element := (p.map (·.element)).reverse

/-- The path with one more step, to the child of its first element at a place, if that child is
an element. -/
def down? (p : Path) (place : Nat) : Option Path :=
  match p with
  | [] => none
  | step :: _ =>
    match step.element.children[place]? with
    | some (.element e) => some (⟨e, some place⟩ :: p)
    | _ => none

/-- The path from a root down along places. -/
def follow? (root : Element) (places : List Nat) : Option Path :=
  places.foldlM (fun p place => p.down? place) (single root)

/-- The path with a copy of its first element instead, which has no place. -/
def detach : Path → Path
  | [] => []
  | step :: above => ⟨step.element, none⟩ :: above

end Path

end Hypertext
