import Hypertext.Proofs.Selector.RoundTrip
import Mathlib.Data.List.Basic

/-!
# What is not supported

The grammar reads more than is supported.  Its items are the simple selectors and the combinators,
and with the spaces and commas between them they make up the whole text (`covers_group`).  Reading
then goes through the items in the order in which they stand there and fails at the first one that
is not supported, as `parse_of_group_eq_ok` says, with the place where that item starts.
-/

namespace Hypertext.Selector

open Grammar
open Reader (Ahead Refuses)

/-! ### Items -/

/-- A combinator or a simple selector as it is written. -/
inductive Item where
  | combinator (sign : Char)
  | simple (w : WrittenSimple)
deriving DecidableEq, Repr

/-- The sign has a meaning, and so have the flags if there are any. -/
def WrittenComparison.IsSupported (c : WrittenComparison) : Prop :=
  c.operator ≠ "!=" ∧ c.flags ∈ [none, some "i", some "s"]

/-- The simple selector has a meaning. -/
def WrittenSimple.IsSupported : WrittenSimple → Prop
  | .element _ => True
  | .universal => True
  | .id _ => True
  | .className _ => True
  | .attribute _ _ comparison => ∀ c ∈ comparison, c.IsSupported
  | .pseudo isElement name argument =>
    isElement = false ∧ argument = none ∧ name ∈ ["first-child", "last-child", "empty"]

/-- The simple selector has a meaning, or the combinator is the one for descendants. -/
def Item.IsSupported : Item → Prop
  | .combinator sign => sign = ' '
  | .simple w => w.IsSupported

instance (c : WrittenComparison) : Decidable c.IsSupported :=
  inferInstanceAs (Decidable (_ ∧ _))

instance : (w : WrittenSimple) → Decidable w.IsSupported
  | .element _ | .universal | .id _ | .className _ => inferInstanceAs (Decidable True)
  | .attribute _ _ comparison => inferInstanceAs (Decidable (∀ c ∈ comparison, c.IsSupported))
  | .pseudo _ _ _ => inferInstanceAs (Decidable (_ ∧ _))

instance : (i : Item) → Decidable i.IsSupported
  | .combinator sign => inferInstanceAs (Decidable (sign = ' '))
  | .simple w => inferInstanceAs (Decidable w.IsSupported)

/-- Items, each with what is left of the text before it. -/
abbrev Items : Type := List (List Char × Item)

/-- The first of the items that is not supported. -/
def firstUnsupported? (items : Items) : Option (List Char × Item) :=
  items.find? fun i => ¬i.2.IsSupported

/-- The items of a compound selector. -/
def WrittenCompound.items (w : WrittenCompound) : Items := w.map fun p => (p.1, .simple p.2)

/-- The items of a combinator and the compound selector after it. -/
def linkItems (link : (List Char × Char) × WrittenCompound) : Items :=
  (link.1.1, .combinator link.1.2) :: WrittenCompound.items link.2

/-- The items of a complex selector. -/
def WrittenComplex.items (w : WrittenComplex) : Items :=
  WrittenCompound.items w.head ++ w.tail.flatMap linkItems

/-! ### Items of a text -/

/-- The item is read from the text and leaves the other one.  A combinator is its sign, or one space
for the descendant. -/
def Item.Reads (s t : List Char) : Item → Prop
  | .combinator sign =>
    ∃ c, s = c :: t ∧ (sign = ' ' ∧ Reader.isSpace c = true ∨ sign ∈ ['>', '+', '~'] ∧ sign = c)
  | .simple w => typeSelector.or subclassSelector s = .ok (w, t)

/-- The items stand in the text one after the other, with spaces and commas among them, up to what
is left of the text. -/
inductive Covers (t : List Char) : List Char → Items → Prop where
  | done : Covers t t []
  | gap {c : Char} {s : List Char} {items : Items} (hc : Reader.isSpace c = true ∨ c = ',')
      (h : Covers t s items) : Covers t (c :: s) items
  | item {s u : List Char} {i : Item} {items : Items} (hi : i.Reads s u) (h : Covers t u items) :
      Covers t s ((s, i) :: items)

/-- Items that cover two texts, one after the other, cover both. -/
theorem Covers.append {s t u : List Char} {items more : Items} (h : Covers t s items)
    (hmore : Covers u t more) :
  Covers u s (items ++ more)
  := by
  induction h with
  | done => apply hmore
  | gap hc _ ih => exact .gap hc ih
  | item hi _ ih => exact .item hi ih

/-- An item is read of the front of a text. -/
theorem Item.Reads.exists_append {i : Item} {s t : List Char} (h : i.Reads s t) :
  ∃ start, s = start ++ t
  := by
  match i with
  | .combinator sign =>
    obtain ⟨c, rfl, -⟩ := h
    use [c]
    rfl
  | .simple w =>
    obtain ⟨start, hstart⟩ := Reader.Forward.suffix_of_ok h
    use start, hstart.symm

/-- What is left before an item is an end of the text. -/
theorem Covers.exists_append {s t : List Char} {items : Items} (h : Covers t s items)
    {i : List Char × Item} (hi : i ∈ items) :
  ∃ start, s = start ++ i.1
  := by
  induction h with
  | done => cases hi
  | @gap c s items hc h ih =>
    obtain ⟨start, rfl⟩ := ih hi
    use c :: start
    rfl
  | item hread h ih =>
    rcases List.mem_cons.mp hi with rfl | hmem
    · use []
      rfl
    · obtain ⟨start, rfl⟩ := hread.exists_append
      obtain ⟨more, rfl⟩ := ih hmem
      use start ++ more
      rw [List.append_assoc]

/-- Spaces before an item are a gap. -/
theorem covers_spaces {s t : List Char} {items : Items}
    (h : Covers t (s.dropWhile Reader.isSpace) items) :
  Covers t s items
  := by
  induction s with
  | nil => apply h
  | cons c s ih =>
    by_cases hc : Reader.isSpace c = true
    · rw [List.dropWhile_cons_of_pos hc] at h
      exact .gap (.inl hc) (ih h)
    · rwa [List.dropWhile_cons_of_neg hc] at h

/-- The items of a repetition cover what it is read from, if those of each value do. -/
theorem covers_repetition {α : Type} {r : Reader α} [r.Consumes] {items : α → Items}
    (hr : ∀ s a t, r s = .ok (a, t) → Covers t s (items a)) {s t : List Char} {as : List α}
    (h : Reader.repetition r s = (as, t)) :
  Covers t s (as.flatMap items)
  := by
  fun_induction Reader.repetition r s generalizing as with
  | case1 s a u ha _ as₁ v hrep ih =>
    obtain ⟨rfl, rfl⟩ := Prod.mk.inj h
    apply (hr s a u ha).append (ih hrep)
  | case2 s u hu =>
    obtain ⟨rfl, rfl⟩ := Prod.mk.inj h
    exact .done

theorem covers_subclassSelector (s : List Char) (p : List Char × WrittenSimple) (t : List Char)
    (h : subclassSelector.located s = .ok (p, t)) :
  Covers t s [(p.1, .simple p.2)]
  := by
  obtain ⟨rfl, hread⟩ := Reader.eq_of_located h
  have htype : Refuses typeSelector p.1 :=
    refuses_typeSelector (signed_of_subclassSelector hread).ahead
  exact .item ((Reader.or_of_refuses htype).trans hread) .done

/-- The items of a compound selector cover what it is read from. -/
theorem covers_compound {s t : List Char} {w : WrittenCompound} (h : compound s = .ok (w, t)) :
  Covers t s (WrittenCompound.items w)
  := by
  have hparts {u v : List Char} {ps : WrittenCompound}
      (hps : Reader.repetition subclassSelector.located u = (ps, v)) :
      Covers v u (WrittenCompound.items ps) := by
    rw [WrittenCompound.items, ← List.flatMap_pure_eq_map]
    apply covers_repetition covers_subclassSelector hps
  cases htype : typeSelector s with
  | ok p =>
    rw [compound_of_type htype] at h
    obtain ⟨rfl, rfl⟩ := Prod.mk.inj (Except.ok.inj h)
    exact .item (Reader.or_of_ok htype) (hparts rfl)
  | error u =>
    have hrefuses : Refuses typeSelector s := ⟨u, htype⟩
    have hmany1 := Reader.eq_ok_of_atomic h
    rw [Reader.or_of_refuses hrefuses.located.bind] at hmany1
    obtain ⟨p, v, hp, hmore⟩ := Reader.bind_eq_ok hmany1
    obtain ⟨ps, v', hps, hpure⟩ := Reader.bind_eq_ok hmore
    obtain ⟨rfl, rfl⟩ := Prod.mk.inj (Except.ok.inj hpure)
    apply (covers_subclassSelector s p v hp).append (hparts (Except.ok.inj hps))

/-- The items of a link cover what it is read from, where spaces that are a combinator are a part of
it and spaces before a sign are a gap. -/
theorem covers_link (s : List Char) (l : (List Char × Char) × WrittenCompound) (t : List Char)
    (h : link s = .ok (l, t)) :
  Covers t s (linkItems l)
  := by
  obtain ⟨p, u, hp, h⟩ := Reader.bind_eq_ok h
  obtain ⟨w, v, hw, h⟩ := Reader.bind_eq_ok h
  obtain ⟨rfl, rfl⟩ := Prod.mk.inj (Except.ok.inj h)
  obtain ⟨c, u', hstart, rfl, ⟨rfl, hc, hsign⟩ | ⟨hs, hsign, hc⟩⟩ := combinator_eq_ok hp
  · rw [linkItems, hstart]
    apply Covers.item
    · exact ⟨c, rfl, .inl ⟨hsign, hc⟩⟩
    · apply covers_spaces (covers_compound hw)
  · apply covers_spaces
    rw [linkItems, hstart, hs]
    apply Covers.item
    · exact ⟨c, rfl, .inr ⟨hsign ▸ hc, hsign⟩⟩
    · apply covers_spaces (covers_compound hw)

/-- The items of a complex selector cover what it is read from. -/
theorem covers_complex {s t : List Char} {w : WrittenComplex} (h : complex s = .ok (w, t)) :
  Covers t s w.items
  := by
  obtain ⟨head, u, hhead, h⟩ := Reader.bind_eq_ok h
  obtain ⟨tail, v, htail, h⟩ := Reader.bind_eq_ok h
  obtain ⟨rfl, rfl⟩ := Prod.mk.inj (Except.ok.inj h)
  apply (covers_compound hhead).append
  apply covers_repetition covers_link (Except.ok.inj htail)

theorem covers_alternative (s : List Char) (w : WrittenComplex) (t : List Char)
    (h : alternative s = .ok (w, t)) :
  Covers t s w.items
  := by
  rw [alternative, Reader.bind_ok (Reader.spaces_apply s)] at h
  obtain ⟨_, u, hcomma, h⟩ := Reader.bind_eq_ok h
  rw [Reader.bind_ok (Reader.spaces_apply u)] at h
  apply covers_spaces
  rw [Reader.char_eq_ok hcomma]
  apply Covers.gap (.inr rfl)
  apply covers_spaces
  apply covers_complex h

/-- The items make up the text. -/
theorem covers_group {s t : List Char} {ws : List WrittenComplex} (h : group s = .ok (ws, t)) :
  Covers t s (ws.flatMap WrittenComplex.items)
  := by
  rw [group, Reader.bind_ok (Reader.spaces_apply s)] at h
  obtain ⟨first, u, hfirst, h⟩ := Reader.bind_eq_ok h
  obtain ⟨more, v, hmore, h⟩ := Reader.bind_eq_ok h
  rw [Reader.bind_ok (Reader.spaces_apply v)] at h
  obtain ⟨rfl, rfl⟩ := Prod.mk.inj (Except.ok.inj h)
  apply covers_spaces
  apply (covers_complex hfirst).append
  have hmore := (covers_repetition covers_alternative (Except.ok.inj hmore)).append
    (covers_spaces .done)
  rwa [List.append_nil] at hmore

/-! ### Checks of items -/

/-- The check fails at the first item that is not supported, and does not fail if there is none. -/
def Judges {α : Type} (items : Items) (x : Except Unsupported α) : Prop :=
  match firstUnsupported? items with
  | none => ∃ a, x = .ok a
  | some i => ∃ fault, x = .error (i.1, fault)

section

variable {α β : Type} {items more : Items}

/-- An item that is supported is not what a check fails at. -/
theorem judges_cons_of_supported {i : List Char × Item} {x : Except Unsupported α}
    (hi : i.2.IsSupported) (hx : Judges items x) :
  Judges (i :: items) x
  := by
  rwa [Judges, firstUnsupported?, List.find?_cons_of_neg (by simpa using hi)]

/-- A check fails at the first item that is not supported. -/
theorem judges_cons_of_not_supported {i : List Char × Item} (hi : ¬i.2.IsSupported)
    (fault : ParseFault) :
  Judges (i :: items) (.error (i.1, fault) : Except Unsupported α)
  := by
  rw [Judges, firstUnsupported?, List.find?_cons_of_pos (by simpa using hi)]
  use fault

/-- What comes second is only checked if all items of what comes first are supported. -/
theorem judges_bind {x : Except Unsupported α} {f : α → Except Unsupported β}
    (hx : Judges items x) (hf : ∀ a, Judges more (f a)) :
  Judges (items ++ more) (x >>= f)
  := by
  rw [Judges, firstUnsupported?, List.find?_append, ← firstUnsupported?, ← firstUnsupported?]
  rw [Judges] at hx
  cases hfind : firstUnsupported? items with
  | none =>
    rw [hfind] at hx
    obtain ⟨a, rfl⟩ := hx
    rw [Option.none_or]
    apply hf a
  | some i =>
    rw [hfind] at hx
    obtain ⟨fault, rfl⟩ := hx
    rw [Option.some_or]
    use fault
    rfl

/-- Where there are no items success is right. -/
theorem judges_pure (a : α) :
  Judges [] (pure a)
  := ⟨a, rfl⟩

/-- Changing the value of a check does not change where it fails. -/
theorem judges_map {x : Except Unsupported α} (f : α → β) (hx : Judges items x) :
  Judges items (x >>= fun a => pure (f a))
  := by
  rw [← List.append_nil items]
  apply judges_bind hx
  intro a
  apply judges_pure

/-- Checking a list fails at the first item that is not supported, if each check does. -/
theorem judges_mapM {f : α → Except Unsupported β} {write : α → Items} {as : List α}
    (hf : ∀ a ∈ as, Judges (write a) (f a)) :
  Judges (as.flatMap write) (as.mapM f)
  := by
  induction as with
  | nil => apply judges_pure
  | cons a as ih =>
    obtain ⟨ha, has⟩ := List.forall_mem_cons.mp hf
    rw [List.mapM_cons]
    apply judges_bind ha
    intro b
    apply judges_map
    apply ih has

end

theorem judges_simple {w : WrittenSimple} (h : (∃ s, w.check = .ok s) ↔ w.IsSupported)
    (rest : List Char) :
  Judges [(rest, .simple w)] (w.check.mapError (rest, ·))
  := by
  cases hcheck : w.check with
  | ok s =>
    apply judges_cons_of_supported
    · apply h.mp ⟨s, hcheck⟩
    · apply judges_pure
  | error fault =>
    apply judges_cons_of_not_supported
    intro hsupported
    obtain ⟨s, hs⟩ := h.mpr hsupported
    rw [hcheck] at hs
    cases hs

/-! ### Checks of simple selectors -/

/-- The signs that are read between an attribute and a value. -/
def operatorSymbols : List String := ["=", "~=", "|=", "^=", "$=", "*=", "!="]

/-- The sign of a comparison, if there is one, is one that is read. -/
def WrittenSimple.IsKnown : WrittenSimple → Prop
  | .attribute _ _ comparison => ∀ c ∈ comparison, c.operator ∈ operatorSymbols
  | _ => True

/-- The sign of a comparison in the item, if there is one, is one that is read. -/
def Item.IsKnown : Item → Prop
  | .combinator _ => True
  | .simple w => w.IsKnown

theorem gives_operator_symbol :
  operator.Gives (· ∈ operatorSymbols)
  := by
  refine (Reader.gives_satisfying _).option.bind ?_
  intro first hfirst
  apply Reader.gives_bind
  intro _
  apply Reader.gives_pure
  rcases first with _ | c
  · decide
  · have hsigns : ∀ c ∈ ['~', '|', '^', '$', '*', '!'],
        String.ofList [c, '='] ∈ operatorSymbols := Reader.forall_mem_of_all (by decide)
    apply hsigns c
    apply List.contains_iff_mem.mp (hfirst c rfl)

theorem gives_attributeTest_symbol :
  attributeTest.Gives WrittenSimple.IsKnown
  := by
  have hcomparison : comparison.Gives (·.operator ∈ operatorSymbols) := by
    refine gives_operator_symbol.bind ?_
    intro operator hoperator
    apply Reader.gives_bind
    intro _
    apply Reader.gives_bind
    intro value
    apply Reader.gives_bind
    intro _
    apply Reader.gives_bind
    intro flags
    exact Reader.gives_pure hoperator
  apply Reader.gives_bind
  intro _
  apply Reader.gives_bind
  intro scope
  apply Reader.gives_bind
  intro name
  apply Reader.gives_bind
  intro _
  refine hcomparison.option.bind ?_
  intro comparison h
  exact Reader.gives_pure h

theorem gives_simple_symbol :
  (typeSelector.or subclassSelector).Gives WrittenSimple.IsKnown
  := by
  have htype : typeSelector.Gives WrittenSimple.IsKnown := by
    apply Reader.Gives.or
    · apply Reader.gives_bind
      intro _
      exact Reader.gives_pure trivial
    · apply Reader.gives_bind
      intro name
      exact Reader.gives_pure trivial
  have hid : idSelector.Gives WrittenSimple.IsKnown := by
    apply Reader.gives_bind
    intro _
    apply Reader.gives_bind
    intro name
    exact Reader.gives_pure trivial
  have hclass : classSelector.Gives WrittenSimple.IsKnown := by
    apply Reader.gives_bind
    intro _
    apply Reader.gives_bind
    intro name
    exact Reader.gives_pure trivial
  have hattribute : attributeSelector.Gives WrittenSimple.IsKnown := by
    apply Reader.gives_bind
    intro _
    refine gives_attributeTest_symbol.bind ?_
    intro test htest
    apply Reader.gives_bind
    intro _
    exact Reader.gives_pure htest
  have hpseudo : pseudoSelector.Gives WrittenSimple.IsKnown := by
    apply Reader.gives_bind
    intro _
    apply Reader.gives_bind
    intro second
    apply Reader.gives_bind
    intro name
    apply Reader.gives_bind
    intro argument
    exact Reader.gives_pure trivial
  apply htype.or (((hid.or hclass).or hattribute).or hpseudo)

/-- Every symbol that can be read, but one, is that of an operator. -/
theorem exists_ofSymbol?_iff {symbol : String} (h : symbol ∈ operatorSymbols) :
  (∃ o, Operator.ofSymbol? symbol = some o) ↔ symbol ≠ "!="
  := by
  rw [← Option.isSome_iff_exists]
  revert symbol
  decide

/-- There are three pseudo-classes. -/
theorem exists_ofName?_iff (name : String) :
  (∃ kind, PseudoClass.ofName? name = some kind) ↔ name ∈ ["first-child", "last-child", "empty"]
  := by
  constructor
  · rintro ⟨kind, hkind⟩
    have hfound := List.find?_some hkind
    rw [← beq_iff_eq.mp hfound]
    cases kind <;> decide
  · rw [← Option.isSome_iff_exists]
    revert name
    decide

theorem WrittenComparison.exists_check_iff {c : WrittenComparison}
    (h : c.operator ∈ operatorSymbols) (scope : Option String) (name : String) :
  (∃ t, c.check scope name = .ok t) ↔ c.IsSupported
  := by
  rw [IsSupported, ← exists_ofSymbol?_iff h, check]
  cases Operator.ofSymbol? c.operator with
  | none => simp
  | some o =>
    cases c.flags with
    | none => simp
    | some flags =>
      by_cases hflags : flags = "i" ∨ flags = "s"
      · simp [hflags]
      · simp [hflags]

/-- A simple selector passes its check if it is supported. -/
theorem WrittenSimple.exists_check_iff {w : WrittenSimple} (h : w.IsKnown) :
  (∃ s, w.check = .ok s) ↔ w.IsSupported
  := by
  match w with
  | .element _ | .universal | .id _ | .className _ | .attribute _ _ none =>
    simp [check, IsSupported]
  | .attribute scope name (some comparison) =>
    have hcomparison := comparison.exists_check_iff (h comparison rfl) scope name
    simp only [IsSupported, Option.mem_some_iff, forall_eq', ← hcomparison, check]
    cases comparison.check scope name <;> simp [Except.map]
  | .pseudo true _ _ | .pseudo false _ (some _) => simp [check, IsSupported]
  | .pseudo false name none =>
    simp only [IsSupported, true_and, ← exists_ofName?_iff, check]
    cases PseudoClass.ofName? name <;> simp

/-! ### Checks of selectors -/

/-- Every item that is read has one of the known symbols. -/
theorem Covers.isKnown {s t : List Char} {items : Items} (h : Covers t s items) :
  ∀ i ∈ items, i.2.IsKnown
  := by
  induction h with
  | done => exact nofun
  | gap _ _ ih => apply ih
  | @item s u i items hread _ ih =>
    apply List.forall_mem_cons.mpr ⟨_, ih⟩
    match i with
    | .combinator _ => trivial
    | .simple w => apply gives_simple_symbol s w u hread

theorem judges_compound {w : WrittenCompound} (h : ∀ i ∈ WrittenCompound.items w, i.2.IsKnown) :
  Judges (WrittenCompound.items w) (WrittenCompound.check w)
  := by
  apply judges_map
  rw [WrittenCompound.items, ← List.flatMap_pure_eq_map]
  apply judges_mapM
  intro p hp
  apply judges_simple (WrittenSimple.exists_check_iff (h _ (List.mem_map_of_mem hp)))

theorem judges_link {l : (List Char × Char) × WrittenCompound} (h : ∀ i ∈ linkItems l, i.2.IsKnown) :
  Judges (linkItems l) (checkLink l)
  := by
  obtain ⟨-, hcompound⟩ := List.forall_mem_cons.mp h
  rw [checkLink]
  split
  · next hsign =>
    apply judges_cons_of_supported
    · exact hsign
    · apply judges_compound hcompound
  · next hsign =>
    apply judges_cons_of_not_supported
    exact hsign

/-- The check of a complex selector fails at its first item that is not supported. -/
theorem judges_complex {w : WrittenComplex} (h : ∀ i ∈ w.items, i.2.IsKnown) :
  Judges w.items w.check
  := by
  obtain ⟨hhead, htail⟩ := List.forall_mem_append.mp h
  apply judges_bind (judges_compound hhead)
  intro head
  apply judges_map
  apply judges_mapM
  intro l hl
  apply judges_link fun i hi => htail i (List.mem_flatMap.mpr ⟨l, hl, hi⟩)

/-- There is a first item that is not supported if there is one at all. -/
theorem exists_firstUnsupported?_iff {items : Items} :
  (∃ i, firstUnsupported? items = some i) ↔ ∃ i ∈ items, ¬i.2.IsSupported
  := by
  rw [← Option.isSome_iff_exists, firstUnsupported?, List.find?_isSome]
  simp

/-- A text that the grammar reads to its end consists of items, spaces and commas.  It is a selector
unless one of the items is not supported, and then the error is where the first of these starts. -/
theorem parse_of_group_eq_ok {input : String} {ws : List WrittenComplex}
    (h : group input.toList = .ok (ws, [])) :
  Covers [] input.toList (ws.flatMap WrittenComplex.items)
    ∧ ((∃ e, parse input = .error e) ↔ ∃ i ∈ ws.flatMap WrittenComplex.items, ¬i.2.IsSupported)
    ∧ ∀ i, firstUnsupported? (ws.flatMap WrittenComplex.items) = some i →
      ∃ start fault, input.toList = start ++ i.1
        ∧ parse input = .error ⟨.selector, input, byteLength start, fault⟩
  := by
  have hcovers := covers_group h
  have hparse := parse_eq_of_group h
  have hjudges : Judges (ws.flatMap WrittenComplex.items) (ws.mapM WrittenComplex.check) := by
    apply judges_mapM
    intro w hw
    apply judges_complex
    intro i hi
    apply hcovers.isKnown i (List.mem_flatMap.mpr ⟨w, hw, hi⟩)
  have herror (i : List Char × Item)
      (hi : firstUnsupported? (ws.flatMap WrittenComplex.items) = some i) :
      ∃ start fault, input.toList = start ++ i.1
        ∧ parse input = .error ⟨.selector, input, byteLength start, fault⟩ := by
    rw [Judges, hi] at hjudges
    obtain ⟨fault, hfault⟩ := hjudges
    obtain ⟨start, hstart⟩ := hcovers.exists_append (List.mem_of_find?_eq_some hi)
    use start, fault, hstart
    rw [hparse, hfault, ← ParseError.before_eq hstart fault]
    rfl
  refine ⟨hcovers, ?_, herror⟩
  rw [← exists_firstUnsupported?_iff]
  constructor
  · rintro ⟨e, he⟩
    cases hfirst : firstUnsupported? (ws.flatMap WrittenComplex.items) with
    | some i => use i
    | none =>
      rw [Judges, hfirst] at hjudges
      obtain ⟨a, ha⟩ := hjudges
      rw [hparse, ha] at he
      cases he
  · rintro ⟨i, hi⟩
    obtain ⟨start, fault, -, hread⟩ := herror i hi
    use ⟨.selector, input, byteLength start, fault⟩

/-- The first of two items that are not supported is a sign; the offset counts bytes. -/
theorem parse_of_group_eq_ok_sign :
  let input := "é [x=y i], *:empty\t> b::before"
  ∃ ws, group input.toList = .ok (ws, [])
    ∧ Covers [] input.toList (ws.flatMap WrittenComplex.items)
    ∧ firstUnsupported? (ws.flatMap WrittenComplex.items)
      = some ("> b::before".toList, .combinator '>')
    ∧ ∃ fault, parse input = .error ⟨.selector, input, 20, fault⟩
  := by
  intro input
  have hread : (group input.toList).toOption.map
        (fun p => (p.2, firstUnsupported? (p.1.flatMap WrittenComplex.items)))
      = some ([], some ("> b::before".toList, .combinator '>')) := by
    decide +kernel
  cases hgroup : group input.toList with
  | error u =>
    rw [hgroup] at hread
    cases hread
  | ok p =>
    rw [hgroup] at hread
    obtain ⟨hrest, hfirst⟩ := Prod.mk.inj (Option.some.inj hread)
    obtain ⟨ws, rest⟩ := p
    obtain rfl : rest = [] := hrest
    obtain ⟨hcovers, -, hfault⟩ := parse_of_group_eq_ok hgroup
    obtain ⟨start, fault, hstart, herror⟩ := hfault _ hfirst
    have hinput : input.toList = "é [x=y i], *:empty\t".toList ++ "> b::before".toList := by decide
    obtain rfl := List.append_cancel_right (hinput.symm.trans hstart)
    exact ⟨ws, rfl, hcovers, hfirst, fault, herror⟩

end Hypertext.Selector
