import Hypertext.Tree

/-!
# Requests

A `Request` says what is to be done with a node when a walk leaves it.  `Requests` is a finite map
from places to requests that keeps its entries in the order of the places.  It is observed through
`get?`, given by `get?_insert` and `get?_erase`.

`rebuild` carries out the requests for the children of an element in one pass over the children, in
which the next request waits until its place is reached.
-/

namespace Hypertext

/-- What is to be done with a node when the walk leaves it. -/
inductive Request where
  /-- The nodes take its place. -/
  | replace (nodes : List Node)
  /-- The rewriter tells what takes its place. -/
  | rewrite

/-- Requests for children of an element, one for a place, in the order of the places. -/
@[ext]
structure Requests where
  entries : List (Nat × Request)
  ascending : entries.Pairwise (·.1 < ·.1) := by simp

namespace Requests

/-- No requests. -/
def empty : Requests := ⟨[], .nil⟩

/-- Whether there are no requests. -/
def isEmpty (rs : Requests) : Bool := rs.entries.isEmpty

/-- The entries with the one for `place` set, where it belongs in the order. -/
def setEntry (place : Nat) (r : Request) : List (Nat × Request) → List (Nat × Request)
  | [] => [(place, r)]
  | e :: es =>
    if place < e.1 then (place, r) :: e :: es
    else if place = e.1 then (place, r) :: es
    else e :: setEntry place r es

/-- An entry is the one that was set, or it was there before. -/
theorem eq_or_mem_of_mem_setEntry {place : Nat} {r : Request} {es : List (Nat × Request)}
    {e : Nat × Request} (h : e ∈ setEntry place r es) :
  e = (place, r) ∨ e ∈ es
  := by
  induction es with
  | nil => exact .inl (List.mem_singleton.mp h)
  | cons e' es ih =>
    rw [setEntry] at h
    grind

/-- Setting an entry keeps them in the order of their places. -/
theorem ascending_setEntry (place : Nat) (r : Request) {es : List (Nat × Request)}
    (h : es.Pairwise (·.1 < ·.1)) :
  (setEntry place r es).Pairwise (·.1 < ·.1)
  := by
  induction es with
  | nil => exact List.pairwise_singleton _ _
  | cons e es ih =>
    obtain ⟨hfirst, hrest⟩ := List.pairwise_cons.mp h
    rw [setEntry]
    split
    · next hlt =>
      apply List.pairwise_cons.mpr ⟨_, h⟩
      intro e' he'
      rcases List.mem_cons.mp he' with rfl | he'
      · exact hlt
      · exact Nat.lt_trans hlt (hfirst e' he')
    · next hle =>
      split
      · next heq =>
        apply List.pairwise_cons.mpr ⟨_, hrest⟩
        intro e' he'
        rw [heq]
        exact hfirst e' he'
      · next hne =>
        apply List.pairwise_cons.mpr ⟨_, ih hrest⟩
        intro e' he'
        rcases eq_or_mem_of_mem_setEntry he' with rfl | he'
        · show e.1 < place
          omega
        · exact hfirst e' he'

/-- The requests with one for a place, instead of an earlier one. -/
def insert (rs : Requests) (place : Nat) (r : Request) : Requests :=
  ⟨setEntry place r rs.entries, ascending_setEntry place r rs.ascending⟩

/-- The requests with the one for a place taken out. -/
def erase (rs : Requests) (place : Nat) : Requests :=
  ⟨rs.entries.filter (·.1 ≠ place), rs.ascending.sublist List.filter_sublist⟩

/-- The request for a place. -/
def get? (rs : Requests) (place : Nat) : Option Request := rs.entries.lookup place

theorem get?_empty (place : Nat) :
  empty.get? place = none
  := rfl

/-- There is only one way of having no requests. -/
theorem eq_empty_of_isEmpty {rs : Requests} (h : rs.isEmpty) :
  rs = empty
  := Requests.ext (List.isEmpty_iff.mp h)

/-- Setting an entry changes none for another place. -/
theorem lookup_setEntry (place other : Nat) (r : Request) (es : List (Nat × Request)) :
  (setEntry place r es).lookup other = if other = place then some r else es.lookup other
  := by
  induction es with
  | nil => grind [setEntry]
  | cons e es ih =>
    obtain ⟨key, request⟩ := e
    simp only [setEntry]
    grind

/-- A request that is put in is the one for its place, and for no other. -/
theorem get?_insert (rs : Requests) (place other : Nat) (r : Request) :
  (rs.insert place r).get? other = if other = place then some r else rs.get? other
  := lookup_setEntry place other r rs.entries

/-- A request that is taken out is the one for its place, and for no other. -/
theorem get?_erase (rs : Requests) (place other : Nat) :
  (rs.erase place).get? other = if other = place then none else rs.get? other
  := lookup_filter_ne place other rs.entries

/-- Of two entries that are set for a place the second counts. -/
theorem setEntry_setEntry (place : Nat) (r r' : Request) (es : List (Nat × Request)) :
  setEntry place r' (setEntry place r es) = setEntry place r' es
  := by
  induction es with
  | nil => simp [setEntry]
  | cons e es ih =>
    rw [setEntry, setEntry]
    grind [setEntry]

/-- Of two requests for a place only the second counts. -/
theorem insert_insert (rs : Requests) (place : Nat) (r r' : Request) :
  (rs.insert place r).insert place r' = rs.insert place r'
  := Requests.ext (setEntry_setEntry place r r' rs.entries)

end Requests

/-! ### Carrying out -/

/-- The next request, if it is for a place, and those that still wait. -/
def takeRequest (place : Nat) :
    List (Nat × Request) → Option Request × List (Nat × Request)
  | [] => (none, [])
  | e :: es => if e.1 = place then (some e.2, es) else (none, e :: es)

/-- The children from a place on with the waiting requests carried out in one pass: a replacement
goes in for the child at its place, and any other child stays. -/
def replaceInOrder (waiting : List (Nat × Request)) (place : Nat) : List Node → List Node
  | [] => []
  | child :: rest =>
    match takeRequest place waiting with
    | (some (.replace nodes), waiting) => nodes ++ replaceInOrder waiting (place + 1) rest
    | (_, waiting) => child :: replaceInOrder waiting (place + 1) rest

/-- The element with replacements put in among its children. -/
def rebuild (rs : Requests) (e : Element) : Element :=
  e.setChildren (replaceInOrder rs.entries 0 e.children)

end Hypertext
