import Hypertext.Proofs.Reader
import Hypertext.Selector.Canonical
import Hypertext.Selector.Parser

/-!
# What is read is canonical

The grammar gives no empty names and no empty operators, and no name of an element after the
first part of a compound selector.  Checking such a selector and joining its pseudo-classes makes
it canonical, so `parse` answers with canonical selectors only.
-/

namespace Hypertext.Selector

open Grammar
open Reader (Gives gives_any gives_bind gives_pure)

/-! ### What the grammar gives -/

/-- Nothing is empty that reading does not leave empty. -/
def WrittenSimple.IsSound : WrittenSimple → Prop
  | .element name => name ≠ ""
  | .universal => True
  | .id name => name ≠ ""
  | .className name => name ≠ ""
  | .attribute scope name comparison =>
    scope ≠ some "" ∧ name ≠ "" ∧ ∀ c ∈ comparison, c.operator ≠ ""
  | .pseudo _ _ _ => True

/-- Whether a simple selector is written as a type. -/
def WrittenSimple.isType : WrittenSimple → Bool
  | .element _ => true
  | .universal => true
  | _ => false

/-- All parts are sound, and only the first may be a type. -/
def WrittenCompound.IsSound (w : WrittenCompound) : Prop :=
  (∀ p ∈ w, p.2.IsSound) ∧ ∀ p ∈ w.tail, p.2.isType = false

/-- All compound selectors are sound. -/
def WrittenComplex.IsSound (w : WrittenComplex) : Prop :=
  WrittenCompound.IsSound w.head ∧ ∀ l ∈ w.tail, WrittenCompound.IsSound l.2

theorem ofList_ne_empty {cs : List Char} (h : cs ≠ []) :
  String.ofList cs ≠ ""
  := by
  intro hempty
  apply h (String.ofList_eq_empty_iff.mp hempty)

theorem gives_name :
  Gives name (· ≠ "")
  := by
  refine (gives_any nameChar).many1.bind ?_
  intro cs hcs
  apply gives_pure
  apply ofList_ne_empty hcs.1

theorem gives_identifier :
  Gives identifier (· ≠ "")
  := by
  apply gives_bind
  intro hyphen
  apply gives_bind
  intro start
  apply gives_bind
  intro rest
  apply gives_pure
  apply ofList_ne_empty
  simp

theorem gives_scope :
  Gives scope (· ≠ "")
  := by
  have hscope : Gives (identifier.or (do Reader.char '*'; return "*")) (· ≠ "") := by
    apply gives_identifier.or
    apply gives_bind
    intro _
    apply gives_pure
    decide
  refine hscope.bind ?_
  intro scope h
  apply gives_bind
  intro _
  apply gives_bind
  intro _
  exact gives_pure h

theorem gives_operator :
  Gives operator (· ≠ "")
  := by
  apply gives_bind
  intro first
  apply gives_bind
  intro _
  apply gives_pure
  apply ofList_ne_empty
  simp

theorem gives_comparison :
  Gives comparison (·.operator ≠ "")
  := by
  refine gives_operator.bind ?_
  intro operator h
  apply gives_bind
  intro _
  apply gives_bind
  intro value
  apply gives_bind
  intro _
  apply gives_bind
  intro flags
  exact gives_pure h

/-- The part is sound and has a sign. -/
def WrittenSimple.IsSubclass (w : WrittenSimple) : Prop := w.IsSound ∧ w.isType = false

/-- A test that is read is sound and has a sign. -/
theorem gives_attributeTest :
  Gives attributeTest WrittenSimple.IsSubclass
  := by
  apply gives_bind
  intro _
  refine gives_scope.option.bind ?_
  intro scope hscope
  refine gives_identifier.bind ?_
  intro name hname
  apply gives_bind
  intro _
  refine gives_comparison.option.bind ?_
  intro comparison hcomparison
  apply gives_pure
  refine ⟨⟨?_, hname, hcomparison⟩, rfl⟩
  intro hempty
  exact hscope "" hempty rfl

theorem gives_subclassSelector :
  Gives subclassSelector WrittenSimple.IsSubclass
  := by
  have hid : Gives idSelector WrittenSimple.IsSubclass := by
    apply gives_bind
    intro _
    refine gives_name.bind ?_
    intro name h
    exact gives_pure ⟨h, rfl⟩
  have hclass : Gives classSelector WrittenSimple.IsSubclass := by
    apply gives_bind
    intro _
    refine gives_identifier.bind ?_
    intro name h
    exact gives_pure ⟨h, rfl⟩
  have hattribute : Gives attributeSelector WrittenSimple.IsSubclass := by
    apply gives_bind
    intro _
    refine gives_attributeTest.bind ?_
    intro test h
    apply gives_bind
    intro _
    exact gives_pure h
  have hpseudo : Gives pseudoSelector WrittenSimple.IsSubclass := by
    apply gives_bind
    intro _
    apply gives_bind
    intro second
    apply gives_bind
    intro name
    apply gives_bind
    intro argument
    exact gives_pure ⟨trivial, rfl⟩
  exact ((hid.or hclass).or hattribute).or hpseudo

theorem gives_typeSelector :
  Gives typeSelector WrittenSimple.IsSound
  := by
  apply Gives.or
  · apply gives_bind
    intro _
    exact gives_pure trivial
  · refine gives_identifier.bind ?_
    intro name h
    exact gives_pure h

/-- The parts of a compound selector that is read are sound, and only the first may be a type. -/
theorem gives_compound :
  Gives compound WrittenCompound.IsSound
  := by
  apply Gives.atomic
  apply Gives.or
  · refine gives_typeSelector.located.bind ?_
    intro head hhead
    refine gives_subclassSelector.located.many.bind ?_
    intro tail htail
    apply gives_pure
    constructor
    · intro p hp
      rcases List.mem_cons.mp hp with rfl | hp
      · exact hhead
      · exact (htail p hp).1
    · intro p hp
      exact (htail p hp).2
  · intro s w t h
    obtain ⟨-, hall⟩ := gives_subclassSelector.located.many1 s w t h
    constructor
    · intro p hp
      exact (hall p hp).1
    · intro p hp
      exact (hall p (List.mem_of_mem_tail hp)).2

theorem gives_complex :
  Gives complex WrittenComplex.IsSound
  := by
  have hlink : Gives link (fun l => WrittenCompound.IsSound l.2) := by
    apply gives_bind
    intro combinator
    refine gives_compound.bind ?_
    intro w h
    exact gives_pure h
  refine gives_compound.bind ?_
  intro head hhead
  refine hlink.many.bind ?_
  intro tail htail
  exact gives_pure ⟨hhead, htail⟩

/-- The complex selectors of a group that is read are sound, and there is one. -/
theorem gives_group :
  Gives group fun ws => ws ≠ [] ∧ ∀ w ∈ ws, w.IsSound
  := by
  have halternative : Gives alternative WrittenComplex.IsSound := by
    apply gives_bind
    intro _
    apply gives_bind
    intro _
    apply gives_bind
    intro _
    apply gives_complex
  apply gives_bind
  intro _
  refine gives_complex.bind ?_
  intro first hfirst
  refine halternative.many.bind ?_
  intro rest hrest
  apply gives_bind
  intro _
  apply gives_pure
  use List.cons_ne_nil _ _
  intro w hw
  rcases List.mem_cons.mp hw with rfl | hw
  · apply hfirst
  · apply hrest w hw

/-! ### What checking gives -/

theorem operator_ne_present {symbol : String} {o : Operator} (hsymbol : symbol ≠ "")
    (h : Operator.ofSymbol? symbol = some o) :
  o ≠ .present
  := by
  rintro rfl
  have hfound := List.find?_some h
  apply hsymbol
  exact (beq_iff_eq.mp hfound).symm

theorem WrittenComparison.isCanonical_of_check {scope : Option String} {name : String}
    {c : WrittenComparison} {t : AttributeTest} (hscope : scope ≠ some "") (hname : name ≠ "")
    (hoperator : c.operator ≠ "") (h : c.check scope name = .ok t) :
  t.IsCanonical
  := by
  rw [WrittenComparison.check] at h
  split at h
  · cases h
  · next o ho =>
    have hpresent := operator_ne_present hoperator ho
    split at h
    · next hflags =>
      obtain rfl := Except.ok.inj h
      use hname, hscope, .head _
      intro h
      exact absurd h hpresent
    · next flags hflags =>
      split at h
      · next hvalue =>
        obtain rfl := Except.ok.inj h
        refine ⟨hname, hscope, ?_, ?_⟩
        · simpa using hvalue
        · intro h
          exact absurd h hpresent
      · cases h

/-- What is written soundly is canonical if it is supported. -/
theorem WrittenSimple.isCanonical_of_check {w : WrittenSimple} {s : Simple} (hw : w.IsSound)
    (h : w.check = .ok s) :
  s.IsCanonical ∧ s.isType = w.isType
  := by
  match w with
  | .element _ | .universal | .id _ | .className _ =>
    obtain rfl := Except.ok.inj h
    exact ⟨hw, rfl⟩
  | .attribute scope name none =>
    obtain rfl := Except.ok.inj h
    exact ⟨⟨hw.2.1, hw.1, .head _, fun _ => ⟨rfl, rfl⟩⟩, rfl⟩
  | .attribute scope name (some comparison) =>
    obtain ⟨hscope, hname, hoperator⟩ := hw
    obtain ⟨t, ht, rfl⟩ := eq_ok_of_map h
    exact ⟨comparison.isCanonical_of_check hscope hname (hoperator _ rfl) ht, rfl⟩
  | .pseudo true name _ => cases h
  | .pseudo false name (some _) => cases h
  | .pseudo false name none =>
    rw [WrittenSimple.check] at h
    split at h
    · obtain rfl := Except.ok.inj h
      exact ⟨nofun, rfl⟩
    · cases h

/-! ### Joining pseudo-classes -/

/-- A simple selector joins what follows exactly if both are runs of pseudo-classes. -/
theorem joinSimple_cases (s : Simple) (rest : List Simple) :
  (joinSimple s rest = s :: rest ∧ ∀ t ∈ rest.head?, (s.isPseudo && t.isPseudo) = false)
    ∨ ∃ kinds more rest', s = .pseudo kinds ∧ rest = .pseudo more :: rest'
      ∧ joinSimple s rest = .pseudo (kinds ++ more) :: rest'
  := by
  match s, rest with
  | .pseudo kinds, .pseudo more :: rest => exact .inr ⟨kinds, more, rest, rfl, rfl, rfl⟩
  | .pseudo kinds, [] => exact .inl ⟨rfl, nofun⟩
  | .pseudo kinds, .element _ :: _ | .pseudo kinds, .universal :: _
  | .pseudo kinds, .className _ :: _ | .pseudo kinds, .id _ :: _
  | .pseudo kinds, .attribute _ :: _ =>
    left
    use rfl
    intro t ht
    obtain rfl := Option.some.inj ht
    rfl
  | .element _, _ | .universal, _ | .className _, _ | .id _, _ | .attribute _, _ =>
    exact .inl ⟨rfl, fun _ _ => rfl⟩

/-- Two simple selectors are not joined unless both are pseudo-classes. -/
theorem joinSimple_eq_cons {s : Simple} {rest : List Simple}
    (h : ∀ t ∈ rest.head?, (s.isPseudo && t.isPseudo) = false) :
  joinSimple s rest = s :: rest
  := by
  rcases joinSimple_cases s rest with ⟨heq, -⟩ | ⟨kinds, more, rest', rfl, rfl, -⟩
  · apply heq
  · cases h _ rfl

/-- Simple selectors are separated if no two neighbours are pseudo-classes. -/
theorem separated_cons_iff {s : Simple} {rest : List Simple} :
  separated (s :: rest)
    ↔ separated rest ∧ ∀ t ∈ rest.head?, (s.isPseudo && t.isPseudo) = false
  := by
  match rest with
  | [] => simp [separated]
  | t :: rest =>
    simp only [separated, Bool.and_eq_true, Bool.not_eq_true', List.head?_cons, Option.mem_def,
      Option.some.injEq, forall_eq', and_comm]

/-- Joining a simple selector to separated ones keeps them separated. -/
theorem separated_joinSimple {s : Simple} {rest : List Simple} (h : separated rest) :
  separated (joinSimple s rest)
  := by
  rcases joinSimple_cases s rest with ⟨heq, hnext⟩ | ⟨kinds, more, rest', -, rfl, heq⟩
  · rw [heq, separated_cons_iff]
    exact ⟨h, hnext⟩
  · rw [separated_cons_iff] at h
    rw [heq, separated_cons_iff]
    apply h

theorem forall_joinSimple {p : Simple → Prop}
    (hp : ∀ kinds more, p (.pseudo kinds) → p (.pseudo more) → p (.pseudo (kinds ++ more)))
    {s : Simple} {rest : List Simple} (hs : p s) (hrest : ∀ t ∈ rest, p t) :
  ∀ t ∈ joinSimple s rest, p t
  := by
  rcases joinSimple_cases s rest with ⟨heq, -⟩ | ⟨kinds, more, rest', rfl, rfl, heq⟩
  · rw [heq]
    apply List.forall_mem_cons.mpr ⟨hs, hrest⟩
  · rw [heq]
    obtain ⟨hmore, hrest'⟩ := List.forall_mem_cons.mp hrest
    apply List.forall_mem_cons.mpr ⟨hp kinds more hs hmore, hrest'⟩

/-- Simple selectors that are joined are separated. -/
theorem separated_foldr_joinSimple (simples : List Simple) :
  separated (simples.foldr joinSimple [])
  := by
  induction simples with
  | nil => rfl
  | cons s rest ih => apply separated_joinSimple ih

theorem forall_foldr_joinSimple {p : Simple → Prop}
    (hp : ∀ kinds more, p (.pseudo kinds) → p (.pseudo more) → p (.pseudo (kinds ++ more)))
    {simples : List Simple} (h : ∀ s ∈ simples, p s) :
  ∀ t ∈ simples.foldr joinSimple [], p t
  := by
  induction simples with
  | nil => apply h
  | cons s rest ih =>
    obtain ⟨hs, hrest⟩ := List.forall_mem_cons.mp h
    apply forall_joinSimple hp hs (ih hrest)

/-! ### Compound selectors -/

/-- A canonical simple selector that is no type. -/
def Simple.IsTail (s : Simple) : Prop := s.IsCanonical ∧ s.isType = false

theorem isTail_append (kinds more : List PseudoClass) (h : (Simple.pseudo kinds).IsTail)
    (_ : (Simple.pseudo more).IsTail) :
  (Simple.pseudo (kinds ++ more)).IsTail
  := by
  constructor
  · apply List.append_ne_nil_of_left_ne_nil h.1 more
  · rfl

/-- A type and separated simple selectors after it are a canonical compound selector. -/
theorem isCanonical_cons {t : Simple} {rest : List Simple} (htype : t.isType = true)
    (ht : t.IsCanonical) (hsep : separated rest) (hrest : ∀ s ∈ rest, s.IsTail) :
  Compound.IsCanonical (t :: rest)
  := by
  refine ⟨congrArg some htype, ?_, ?_, ?_⟩
  · intro s hs
    apply Bool.eq_false_iff.mp (hrest s hs).2
  · rw [separated_cons_iff]
    use hsep
    intro s _
    match t with
    | .element _ | .universal => rfl
  · apply List.forall_mem_cons.mpr ⟨ht, fun s hs => (hrest s hs).1⟩

theorem isCanonical_withType {simples : List Simple} (hsep : separated simples)
    (h : ∀ s ∈ simples, s.IsTail) :
  Compound.IsCanonical (withType simples)
  := by
  have huniversal : withType simples = .universal :: simples := by
    match simples with
    | [] => rfl
    | s :: rest =>
      have htype := (h s (.head rest)).2
      match s with
      | .className _ | .id _ | .attribute _ | .pseudo _ => rfl
  rw [huniversal]
  exact isCanonical_cons rfl trivial hsep h

theorem withType_joinSimple {t : Simple} (htype : t.isType = true) (rest : List Simple) :
  withType (joinSimple t rest) = t :: rest
  := by
  match t with
  | .element _ | .universal => rfl

/-- A compound selector that is written soundly is canonical if it is supported. -/
theorem WrittenCompound.isCanonical_of_check {w : WrittenCompound} {c : Compound}
    (hw : WrittenCompound.IsSound w) (h : WrittenCompound.check w = .ok c) :
  Compound.IsCanonical c
  := by
  obtain ⟨simples, hsimples, hpure⟩ := eq_ok_of_bind h
  obtain rfl := Except.ok.inj hpure
  match w, simples, map_eq_of_mapM hsimples with
  | [], [], _ => exact isCanonical_withType rfl nofun
  | p :: ps, s :: rest, hmap =>
    obtain ⟨hhead, htail⟩ := List.cons.inj hmap
    obtain ⟨hsound, hsigned⟩ := hw
    obtain ⟨hs, -⟩ := WrittenSimple.isCanonical_of_check (hsound p (.head ps))
      (eq_ok_of_mapError hhead)
    have hps : ∀ q ∈ ps, q.2.IsSubclass := fun q hq => ⟨hsound q (.tail p hq), hsigned q hq⟩
    have hrest : ∀ t ∈ rest, t.IsTail := by
      refine forall_of_mapM ?_ hps (mapM_eq_ok htail)
      intro q t hq ht
      obtain ⟨hcanonical, htype⟩ :=
        WrittenSimple.isCanonical_of_check hq.1 (eq_ok_of_mapError ht)
      exact ⟨hcanonical, htype.trans hq.2⟩
    by_cases hfirst : s.isType = true
    · rw [List.foldr_cons, withType_joinSimple hfirst]
      apply isCanonical_cons hfirst hs (separated_foldr_joinSimple rest)
        (forall_foldr_joinSimple isTail_append hrest)
    · apply isCanonical_withType (separated_foldr_joinSimple (s :: rest))
      apply forall_foldr_joinSimple isTail_append
      apply List.forall_mem_cons.mpr ⟨⟨hs, Bool.eq_false_iff.mpr hfirst⟩, hrest⟩

/-! ### Selectors -/

/-- A complex selector that is written soundly is canonical if it is supported. -/
theorem WrittenComplex.isCanonical_of_check {w : WrittenComplex} {c : Complex} (hw : w.IsSound)
    (h : w.check = .ok c) :
  Complex.IsCanonical c
  := by
  obtain ⟨head, hhead, h⟩ := eq_ok_of_bind h
  obtain ⟨tail, htail, h⟩ := eq_ok_of_bind h
  obtain rfl := Except.ok.inj h
  constructor
  · apply List.cons_ne_nil head tail
  · rw [List.forall_mem_cons]
    constructor
    · apply WrittenCompound.isCanonical_of_check hw.1 hhead
    · refine forall_of_mapM ?_ hw.2 htail
      intro l d hl hd
      rw [checkLink] at hd
      split at hd
      · apply WrittenCompound.isCanonical_of_check hl hd
      · cases hd

/-- What is read to its end is only checked then. -/
theorem parse_eq_of_group {input : String} {ws : List WrittenComplex}
    (h : Grammar.group input.toList = .ok (ws, [])) :
  parse input = (ws.mapM WrittenComplex.check).mapError fun u => .before .selector input u.1 u.2
  := by
  delta parse
  rw [h]
  dsimp only
  rw [if_pos List.isEmpty_nil]

/-- A selector that is read is a group that passes the checks and leaves nothing. -/
theorem group_of_parse {input : String} {a : Selector} (h : parse input = .ok a) :
  ∃ ws, Grammar.group input.toList = .ok (ws, []) ∧ ws.mapM WrittenComplex.check = .ok a
  := by
  delta parse at h
  split at h
  · cases h
  · next ws rest hgroup =>
    split at h
    · next hempty =>
      rw [List.isEmpty_iff.mp hempty] at hgroup
      exact ⟨ws, hgroup, eq_ok_of_mapError h⟩
    · cases h

/-- Every selector that is read is canonical. -/
theorem isCanonical_of_parse {input : String} {a : Selector} (h : parse input = .ok a) :
  a.IsCanonical
  := by
  obtain ⟨ws, hgroup, hcheck⟩ := group_of_parse h
  obtain ⟨hne, hsound⟩ := gives_group _ _ _ hgroup
  constructor
  · rintro rfl
    apply hne
    apply List.map_eq_nil_iff.mp (map_eq_of_mapM hcheck)
  · refine forall_of_mapM ?_ hsound hcheck
    intro w c hw hc
    apply WrittenComplex.isCanonical_of_check hw hc

end Hypertext.Selector
