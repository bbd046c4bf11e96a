import Hypertext.Proofs.Equality
import Mathlib.Data.List.DropRight

/-!
# Histories of attributes

A `Change` is a call that inserts a value or removes a name, and a history is a list of such calls.
What a map holds after a history can be told from the calls alone: those since the last removal of a
name say whether it has a value and which, and in which place of the order it stands.
`Attributes.Tells` is that, `Attributes.Tells.change` says that a call keeps it, and so every map
that is reached by calls is told by its history.
-/

namespace Hypertext

namespace Attributes

/-- A call that changes a map. -/
inductive Change where
  | insert (name value : String)
  | remove (name : String)

namespace Change

/-- The call that inserts a pair. -/
def ofPair (p : String × String) : Change := .insert p.1 p.2

/-- The value that a call inserts for a name. -/
def value? (name : String) : Change → Option String
  | .insert own value => if own = name then some value else none
  | .remove _ => none

/-- Whether a call removes a name. -/
def removes (name : String) : Change → Bool
  | .insert _ _ => false
  | .remove own => own = name

end Change

/-- The map after a call. -/
def change (a : Attributes) : Change → Attributes
  | .insert name value => a.insert name value
  | .remove name => (a.remove name).2

/-- The map after the calls of a history. -/
def replay (a : Attributes) (history : List Change) : Attributes := history.foldl change a

/-! ### What a history tells -/

section

variable (name : String) (history : List Change)

/-- The calls of a history since the last removal of a name. -/
def sinceRemoval : List Change := history.rtakeWhile (!·.removes name)

/-- The last value that is inserted for a name since its last removal. -/
def lastValue? : Option String :=
  ((sinceRemoval name history).filterMap (Change.value? name)).getLast?

/-- The place in a history of the first call since the last removal of a name that inserts a value
for it. -/
def firstInsertion : Nat :=
  history.length - (sinceRemoval name history).length
    + (sinceRemoval name history).findIdx fun c => (c.value? name).isSome

end

/-- Whether a map holds what a history tells: each name once, every name that has a value with the
one that was inserted last, which is also what removing the name would give, and the names in the
order in which they were first inserted. -/
structure Tells (history : List Change) (a : Attributes) : Prop where
  nodup : a.names.Nodup
  mem_pairs : ∀ name value, (name, value) ∈ a.pairs ↔ lastValue? name history = some value
  order : a.names.Pairwise fun m n => firstInsertion m history < firstInsertion n history
  get? : ∀ name, a.get? name = lastValue? name history
  remove : ∀ name, (a.remove name).1 = lastValue? name history

section

variable {name : String} {past history : List Change} {c : Change} {a : Attributes}

theorem length_sinceRemoval_le :
  (sinceRemoval name history).length ≤ history.length
  := (List.rtakeWhile_suffix _ _).length_le

/-- A call that removes the name starts anew, and any other is one more since the last removal. -/
theorem sinceRemoval_concat (name : String) (history : List Change) (c : Change) :
  sinceRemoval name (history ++ [c])
    = if c.removes name then [] else sinceRemoval name history ++ [c]
  := by
  rw [sinceRemoval, List.rtakeWhile_concat]
  cases c.removes name with
  | false => rfl
  | true => rfl

/-- The last value is that of the last call, if it has one, and a removal leaves none. -/
theorem lastValue?_concat (name : String) (history : List Change) (c : Change) :
  lastValue? name (history ++ [c])
    = if c.removes name then none else (c.value? name).or (lastValue? name history)
  := by
  rw [lastValue?, sinceRemoval_concat]
  split
  · rfl
  · rw [List.filterMap_append, List.getLast?_append, lastValue?]
    cases hvalue : c.value? name with
    | none => simp [hvalue]
    | some value => simp [hvalue]

/-- A name has a value if one was inserted since its last removal. -/
theorem isSome_lastValue?_iff :
  (lastValue? name history).isSome ↔ ∃ c ∈ sinceRemoval name history, (c.value? name).isSome
  := by
  rw [lastValue?, List.getLast?_isSome, ne_eq, List.filterMap_eq_nil_iff]
  simp [Option.isSome_iff_ne_none]

/-! ### Places -/

theorem findIdx_sinceRemoval_lt (h : (lastValue? name history).isSome) :
  ((sinceRemoval name history).findIdx fun c => (c.value? name).isSome)
    < (sinceRemoval name history).length
  := List.findIdx_lt_length.mpr (isSome_lastValue?_iff.mp h)

/-- A name that has a value was inserted by a call of the history. -/
theorem firstInsertion_lt (h : (lastValue? name history).isSome) :
  firstInsertion name history < history.length
  := by
  have hplace := findIdx_sinceRemoval_lt h
  have hlength : (sinceRemoval name history).length ≤ history.length := length_sinceRemoval_le
  rw [firstInsertion]
  omega

/-- A name that has a value keeps its place until it is removed. -/
theorem firstInsertion_concat (h : (lastValue? name history).isSome) (hc : c.removes name = false) :
  firstInsertion name (history ++ [c]) = firstInsertion name history
  := by
  rw [firstInsertion, firstInsertion, sinceRemoval_concat, hc, if_neg Bool.false_ne_true,
    List.findIdx_append, if_pos (findIdx_sinceRemoval_lt h), List.length_append,
    List.length_append, Nat.add_sub_add_right]

/-- A name that has no value gets the place of the call that inserts one. -/
theorem firstInsertion_concat_insert (h : lastValue? name history = none) (value : String) :
  firstInsertion name (history ++ [.insert name value]) = history.length
  := by
  have hnone : ¬∃ c ∈ sinceRemoval name history, (c.value? name).isSome := by
    rw [← isSome_lastValue?_iff, h]
    apply Bool.false_ne_true
  have hplace : ((sinceRemoval name history).findIdx fun c => (c.value? name).isSome)
      = (sinceRemoval name history).length := by
    apply List.findIdx_eq_length_of_false
    intro c hc
    apply Bool.eq_false_iff.mpr
    intro hsome
    exact hnone ⟨c, hc, hsome⟩
  have hlength : (sinceRemoval name history).length ≤ history.length := length_sinceRemoval_le
  rw [firstInsertion, sinceRemoval_concat, Change.removes, if_neg Bool.false_ne_true,
    List.findIdx_append, hplace, if_neg (Nat.lt_irrefl _)]
  simp [List.findIdx_cons, Change.value?]
  omega

/-! ### Calls -/

/-- What a name gives and whether it is there follow from its value. -/
theorem tells_of_get? (hget : ∀ name, a.get? name = lastValue? name history)
    (horder : a.names.Pairwise fun m n => firstInsertion m history < firstInsertion n history) :
  Tells history a
  where
  nodup := a.nodup
  mem_pairs name value := by rw [mem_pairs_iff, hget]
  order := horder
  get? := hget
  remove name := by rw [remove_eq, ← hget]

/-- The names of a map are those that were inserted and not removed since. -/
theorem Tells.mem_names (h : Tells history a) (name : String) :
  name ∈ a.names ↔ (lastValue? name history).isSome
  := by rw [mem_names_iff, h.get?]

/-- A call changes the value of the name that it is about, and no other. -/
theorem get?_change (a : Attributes) (c : Change) (name : String) :
  (a.change c).get? name = if c.removes name then none else (c.value? name).or (a.get? name)
  := by
  cases c with
  | insert own value =>
    rw [change, get?_insert, Change.removes, if_neg Bool.false_ne_true, Change.value?]
    by_cases hname : own = name
    · simp [hname]
    · simp [hname, Ne.symm hname]
  | remove own =>
    rw [change, remove_eq, get?_erase, Change.removes, Change.value?]
    simp [eq_comm]

/-- Names that a call leaves in the map stay in their order. -/
theorem Tells.pairwise_concat (h : Tells history a) {kept : List String}
    (hkept : kept.Sublist a.names) (hc : ∀ name ∈ kept, c.removes name = false) :
  kept.Pairwise fun m n => firstInsertion m (history ++ [c]) < firstInsertion n (history ++ [c])
  := by
  apply (h.order.sublist hkept).imp_of_mem
  intro m n hm hn hlt
  rw [firstInsertion_concat ((h.mem_names m).mp (hkept.subset hm)) (hc m hm),
    firstInsertion_concat ((h.mem_names n).mp (hkept.subset hn)) (hc n hn)]
  exact hlt

/-- Inserting a value keeps the names in the order in which they were first inserted. -/
theorem Tells.pairwise_insert (h : Tells history a) (name value : String) :
  (a.insert name value).names.Pairwise fun m n =>
    firstInsertion m (history ++ [.insert name value])
      < firstInsertion n (history ++ [.insert name value])
  := by
  have hkept := h.pairwise_concat (c := .insert name value) (.refl _) fun _ _ => rfl
  rw [names_insert]
  split
  · exact hkept
  · next hnew =>
    have hnone : lastValue? name history = none := by
      rwa [h.mem_names, Option.not_isSome_iff_eq_none] at hnew
    apply List.pairwise_append.mpr
    refine ⟨hkept, List.pairwise_singleton _ _, ?_⟩
    intro m hm n hn
    obtain rfl := List.mem_singleton.mp hn
    have hsome := (h.mem_names m).mp hm
    rw [firstInsertion_concat hsome rfl, firstInsertion_concat_insert hnone]
    apply firstInsertion_lt hsome

/-- Erasing a name keeps the others in the order in which they were first inserted. -/
theorem Tells.pairwise_erase (h : Tells history a) (name : String) :
  (a.erase name).names.Pairwise fun m n =>
    firstInsertion m (history ++ [.remove name]) < firstInsertion n (history ++ [.remove name])
  := by
  rw [names_erase]
  apply h.pairwise_concat List.filter_sublist
  intro m hm
  obtain ⟨-, hne⟩ := List.mem_filter.mp hm
  apply decide_eq_false
  exact Ne.symm (of_decide_eq_true hne)

/-- A map that a history tells is told by the history with one more call after that call. -/
theorem Tells.change (h : Tells history a) (c : Change) :
  Tells (history ++ [c]) (a.change c)
  := by
  apply tells_of_get?
  · intro name
    rw [get?_change, lastValue?_concat, h.get?]
  · cases c with
    | insert name value => apply h.pairwise_insert name value
    | remove name =>
      rw [Attributes.change, remove_eq]
      apply h.pairwise_erase name

/-- What a history tells of a map, a longer history tells of the map after the other calls. -/
theorem Tells.replay (h : Tells past a) (history : List Change) :
  Tells (past ++ history) (a.replay history)
  := by
  induction history generalizing past a with
  | nil => rwa [List.append_nil]
  | cons c history ih =>
    rw [List.append_cons]
    apply ih (h.change c)

/-- The empty history tells of the empty map. -/
theorem tells_empty :
  Tells [] empty
  := tells_of_get? (fun _ => rfl) .nil

/-- A map that is collected from pairs is told by the calls that insert them. -/
theorem tells_ofList (ps : List (String × String)) :
  Tells (ps.map Change.ofPair) (ofList ps)
  := by
  have h := tells_empty.replay (ps.map Change.ofPair)
  rw [Attributes.replay, List.foldl_map] at h
  exact h

end

/-- After any history of calls, from the empty map or from one that is collected from pairs, a map
is told by its history: names are unique and in the order in which they were first inserted since
they were last removed, and each has the value inserted last, which removing it would give.  Two
maps are equal exactly if they hold the same pairs in some order, and that is an equivalence, and so
is the equality of trees that is built from it. -/
theorem tells_replay_and_equivalence :
  (∀ history, Tells history (empty.replay history))
    ∧ (∀ ps history, Tells (ps.map Change.ofPair ++ history) ((ofList ps).replay history))
    ∧ (∀ a b : Attributes, a == b ↔ a.pairs.Perm b.pairs)
    ∧ (Equivalence fun a b : Attributes => a == b)
    ∧ (Equivalence fun e e' : Element => e == e')
    ∧ Equivalence fun n n' : Node => n == n'
  := by
  refine ⟨?_, ?_, beq_iff_perm, ?_, ?_, ?_⟩
  · intro history
    apply tells_empty.replay history
  · intro ps history
    apply (tells_ofList ps).replay history
  · exact ⟨fun _ => BEq.rfl, BEq.symm, BEq.trans⟩
  · exact ⟨fun _ => BEq.rfl, BEq.symm, BEq.trans⟩
  · exact ⟨fun _ => BEq.rfl, BEq.symm, BEq.trans⟩

/-- A name that is removed and inserted again stands behind one that only got another value. -/
example :
  let history := [.insert "a" "1", .insert "b" "2", .remove "a", .insert "a" "3", .insert "b" "4"]
  (empty.replay history).pairs = [("b", "4"), ("a", "3")]
  := by decide

end Attributes

end Hypertext
