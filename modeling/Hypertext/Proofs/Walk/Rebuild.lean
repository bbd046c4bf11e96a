import Hypertext.Walk.Request

/-!
# Rebuilding

`splice` puts together what stands for the children of an element by looking up the request for
each place, and `rebuild` does it in one pass over the children and the requests.  The two agree,
as `rebuild_eq` says: when the pass comes to a place, then the requests that wait are those for the
places from there on.  So each child stands for itself, or its replacement stands for it, wherever
the replacements before it end.
-/

namespace Hypertext

namespace Requests

/-- No place has two entries. -/
theorem nodup_places (rs : Requests) :
  (rs.entries.map Prod.fst).Nodup
  := List.pairwise_map.mpr (rs.ascending.imp Nat.ne_of_lt)

/-- An entry is the request for its place. -/
theorem mem_entries_iff (rs : Requests) (place : Nat) (r : Request) :
  (place, r) ∈ rs.entries ↔ rs.get? place = some r
  := mem_iff_lookup rs.nodup_places place r

/-- The requests for a place and the places after it. -/
def waiting (rs : Requests) (place : Nat) : List (Nat × Request) :=
  rs.entries.filter (place ≤ ·.1)

theorem filter_eq_self_of_le {es : List (Nat × Request)} {place : Nat}
    (h : ∀ e ∈ es, place ≤ e.1) :
  es.filter (place ≤ ·.1) = es
  := by
  apply List.filter_eq_self.mpr
  intro e he
  apply decide_eq_true (h e he)

/-- All requests wait at first. -/
theorem waiting_zero (rs : Requests) :
  rs.waiting 0 = rs.entries
  := filter_eq_self_of_le fun e _ => e.1.zero_le

/-- The first of the requests that wait is taken if it is for the place.  Otherwise it is for a
later place, and so are all others. -/
theorem takeRequest_filter {es : List (Nat × Request)} (h : es.Pairwise (·.1 < ·.1)) (place : Nat) :
  takeRequest place (es.filter (place ≤ ·.1)) = (es.lookup place, es.filter (place + 1 ≤ ·.1))
  := by
  induction es with
  | nil => rfl
  | cons e es ih =>
    obtain ⟨key, request⟩ := e
    obtain ⟨hfirst, hrest⟩ := List.pairwise_cons.mp h
    have hes := ih hrest
    rcases Nat.lt_trichotomy key place with hlt | rfl | hgt
    · have hbeq : (place == key) = false := beq_false_of_ne (Nat.ne_of_gt hlt)
      have hnow : ((key, request) :: es).filter (place ≤ ·.1) = es.filter (place ≤ ·.1) :=
        List.filter_cons_of_neg fun h => Nat.not_le_of_lt hlt (of_decide_eq_true h)
      have hnext : ((key, request) :: es).filter (place + 1 ≤ ·.1) = es.filter (place + 1 ≤ ·.1) :=
        List.filter_cons_of_neg fun h =>
          Nat.not_le_of_lt (Nat.lt_succ_of_lt hlt) (of_decide_eq_true h)
      rw [hnow, hnext, hes, List.lookup_cons, hbeq]
    · have hnow : ((key, request) :: es).filter (key ≤ ·.1) = (key, request) :: es :=
        filter_eq_self_of_le (List.forall_mem_cons.mpr
          ⟨Nat.le_refl key, fun e he => Nat.le_of_lt (hfirst e he)⟩)
      have hnext : ((key, request) :: es).filter (key + 1 ≤ ·.1) = es.filter (key + 1 ≤ ·.1) :=
        List.filter_cons_of_neg fun h => Nat.not_succ_le_self key (of_decide_eq_true h)
      rw [hnow, hnext, filter_eq_self_of_le hfirst, takeRequest, if_pos rfl, List.lookup_cons_self]
    · have hall : ∀ e ∈ (key, request) :: es, place + 1 ≤ e.1 := by
        intro e he
        rcases List.mem_cons.mp he with rfl | he
        · exact hgt
        · exact Nat.lt_trans hgt (hfirst e he)
      have hnone : ((key, request) :: es).lookup place = none := by
        apply List.lookup_eq_none_iff.mpr
        intro e he
        apply bne_iff_ne.mpr
        apply Nat.ne_of_lt (hall e he)
      rw [filter_eq_self_of_le fun e he => Nat.le_of_lt (hall e he), filter_eq_self_of_le hall,
        hnone, takeRequest, if_neg (Nat.ne_of_gt hgt)]

/-- Of the requests that wait at a place the one for it is taken, and those for the places after
it go on to wait. -/
theorem takeRequest_waiting (rs : Requests) (place : Nat) :
  takeRequest place (rs.waiting place) = (rs.get? place, rs.waiting (place + 1))
  := takeRequest_filter rs.ascending place

/-- What stands for the child at a place: the nodes that are to replace it, or else the child
itself. -/
def part (rs : Requests) (place : Nat) (child : Node) : List Node :=
  match rs.get? place with
  | some (.replace nodes) => nodes
  | _ => [child]

/-- A child that is to be replaced gives the nodes in its place. -/
theorem part_of_mem {rs : Requests} {place : Nat} {nodes : List Node}
    (h : (place, .replace nodes) ∈ rs.entries) (child : Node) :
  rs.part place child = nodes
  := by
  rw [part, (rs.mem_entries_iff place _).mp h]

/-- A child that is not to be replaced gives itself. -/
theorem part_of_not_mem {rs : Requests} {place : Nat}
    (h : ∀ nodes, (place, .replace nodes) ∉ rs.entries) (child : Node) :
  rs.part place child = [child]
  := by
  rw [part]
  split
  · next nodes hget => exact absurd ((rs.mem_entries_iff place _).mpr hget) (h nodes)
  · rfl

end Requests

/-! ### Looking up -/

/-- The nodes that stand for children with requests. -/
def splice (rs : Requests) (place : Nat) : List Node → List Node
  | [] => []
  | child :: rest => rs.part place child ++ splice rs (place + 1) rest

/-- The parts of children are those of a first part and those of the rest, which keep their places.
-/
theorem splice_append (rs : Requests) (place : Nat) (ns ms : List Node) :
  splice rs place (ns ++ ms) = splice rs place ns ++ splice rs (place + ns.length) ms
  := by
  induction ns generalizing place with
  | nil => rfl
  | cons n ns ih =>
    have hplace : place + (n :: ns).length = place + 1 + ns.length := by
      rw [List.length_cons]
      omega
    rw [hplace, List.cons_append, splice, splice, ih, List.append_assoc]

/-- Only the requests for the nodes themselves count. -/
theorem splice_congr {rs rs' : Requests} {place : Nat} {ns : List Node}
    (h : ∀ i, place ≤ i → i < place + ns.length → rs.get? i = rs'.get? i) :
  splice rs place ns = splice rs' place ns
  := by
  induction ns generalizing place with
  | nil => rfl
  | cons n ns ih =>
    simp only [List.length_cons] at h
    rw [splice, splice, Requests.part, Requests.part, h place (by omega) (by omega),
      ih fun i hi hlt => h i (by omega) (by omega)]

/-- Without requests the children stay. -/
theorem splice_empty (place : Nat) (ns : List Node) :
  splice .empty place ns = ns
  := by
  induction ns generalizing place with
  | nil => rfl
  | cons n ns ih =>
    rw [splice, ih]
    rfl

/-- The places of what stands for children are their own, however many nodes stand before it. -/
theorem splice_eq_flatten (rs : Requests) (place : Nat) (ns : List Node) :
  splice rs place ns = (ns.mapIdx fun i n => rs.part (place + i) n).flatten
  := by
  induction ns generalizing place with
  | nil => rfl
  | cons n ns ih =>
    have hplaces : (fun i n => rs.part (place + 1 + i) n)
        = fun i n => rs.part (place + (i + 1)) n := by
      funext i n
      rw [Nat.add_right_comm, Nat.add_assoc]
    rw [splice, ih, List.mapIdx_cons, List.flatten_cons, hplaces, Nat.add_zero]

/-! ### In one pass -/

/-- A pass over children comes to what is found by looking up the request for each. -/
theorem replaceInOrder_waiting (rs : Requests) (place : Nat) (ns : List Node) :
  replaceInOrder (rs.waiting place) place ns = splice rs place ns
  := by
  induction ns generalizing place with
  | nil => rfl
  | cons n ns ih =>
    rw [replaceInOrder, rs.takeRequest_waiting, splice, Requests.part]
    cases rs.get? place with
    | none => simp only [ih, List.singleton_append]
    | some r =>
      cases r with
      | replace nodes => simp only [ih]
      | rewrite => simp only [ih, List.singleton_append]

/-- An element is rebuilt from the parts that its children give. -/
theorem rebuild_eq (rs : Requests) (e : Element) :
  rebuild rs e = e.setChildren (splice rs 0 e.children)
  := by
  rw [rebuild, ← rs.waiting_zero, replaceInOrder_waiting]

/-- Rebuilding changes the children only.  They become the parts that stand for them, in their
order: for a child at a place for which nodes were put in as a replacement these nodes, and for any
other child itself. -/
theorem children_rebuild (rs : Requests) (e : Element) :
  (rebuild rs e).tag = e.tag ∧ (rebuild rs e).attributes = e.attributes
    ∧ (rebuild rs e).children = (e.children.mapIdx rs.part).flatten
    ∧ ∀ place child,
      (∀ nodes, (place, .replace nodes) ∈ rs.entries → rs.part place child = nodes)
        ∧ ((∀ nodes, (place, .replace nodes) ∉ rs.entries) → rs.part place child = [child])
  := by
  refine ⟨rfl, rfl, ?_, ?_⟩
  · rw [rebuild_eq, Element.setChildren, splice_eq_flatten]
    simp only [Nat.zero_add]
  · intro place child
    constructor
    · intro nodes hmem
      apply Requests.part_of_mem hmem
    · intro hnone
      apply Requests.part_of_not_mem hnone

/-- A child gives way to two nodes, one stays, and one goes. -/
theorem children_rebuild_many_and_none :
  let e : Element := ⟨"p", .empty, [.text "a", .text "b", .text "c"]⟩
  let many : List Node := [.text "x", .text "y"]
  let rs := (Requests.empty.insert 2 (.replace [])).insert 0 (.replace many)
  (0, .replace many) ∈ rs.entries
    ∧ (∀ nodes, (1, .replace nodes) ∉ rs.entries)
    ∧ (2, .replace []) ∈ rs.entries
    ∧ (rebuild rs e).children = [.text "x", .text "y", .text "b"]
  := by
  intro e many rs
  have hentries : rs.entries = [(0, .replace many), (2, .replace [])] := rfl
  have hmany : (0, .replace many) ∈ rs.entries := by
    rw [hentries]
    apply List.mem_cons_self
  have hstays : ∀ nodes, (1, .replace nodes) ∉ rs.entries := by
    intro nodes
    simp [hentries]
  have hnone : (2, .replace []) ∈ rs.entries := by
    rw [hentries]
    apply List.mem_cons_of_mem _ List.mem_cons_self
  obtain ⟨-, -, hchildren, hparts⟩ := children_rebuild rs e
  have hfirst : rs.part 0 (.text "a") = many := (hparts 0 _).1 many hmany
  have hsecond : rs.part 1 (.text "b") = [.text "b"] := (hparts 1 _).2 hstays
  have hthird : rs.part 2 (.text "c") = [] := (hparts 2 _).1 [] hnone
  have hflatten : (e.children.mapIdx rs.part).flatten
      = rs.part 0 (.text "a") ++ (rs.part 1 (.text "b") ++ (rs.part 2 (.text "c") ++ [])) := rfl
  rw [hflatten, hfirst, hsecond, hthird] at hchildren
  exact ⟨hmany, hstays, hnone, hchildren⟩

end Hypertext
