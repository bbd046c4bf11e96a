import Hypertext.Proofs.Selector.Canonical
import Hypertext.Proofs.Selector.Simple

/-!
# Compound selectors read back

A compound selector is printed as its parts, one after the other and without a universal selector
in front of others.  The parts are what `compound` reads, and checking them joins the
pseudo-classes and puts the universal selector back.  If a name among the parts is a hyphen
alone, then reading stops at that part at the latest, before the sign of a part.
-/

namespace Hypertext.Selector

open Grammar
open Reader (Ahead Refuses Spaceless)

namespace Compound

/-! ### Parts -/

/-- The parts in which a compound selector is written. -/
def parts (c : Compound) : List Simple := (shown c).flatMap Simple.parts

/-- A compound selector is printed part by part. -/
theorem print_toList (c : Compound) :
  (print c).toList = (parts c).flatMap fun p => p.print.toList
  := by
  rw [print, String.toList_join, List.flatMap_map, parts, List.flatMap_assoc]
  congr 1
  funext s
  apply s.print_toList

theorem shown_cleared (c : Compound) :
  shown (cleared c) = (shown c).map Simple.cleared
  := by
  match c with
  | [] | [.universal] | .universal :: s :: rest => rfl
  | .element _ :: rest | .className _ :: rest | .id _ :: rest | .attribute _ :: rest
  | .pseudo _ :: rest => rfl

/-- The parts of a compound selector come back as the parts do. -/
theorem parts_cleared (c : Compound) :
  parts (cleared c) = (parts c).map Simple.cleared
  := by
  rw [parts, shown_cleared, parts, List.flatMap_map, List.map_flatMap]
  congr 1
  funext s
  apply s.parts_cleared

end Compound

/-! ### Joining parts -/

/-- The parts of a run of pseudo-classes join to that run. -/
theorem foldr_joinSimple_kinds {rest : List Simple} (h : ∀ t ∈ rest.head?, t.isPseudo = false)
    (kind : PseudoClass) (kinds : List PseudoClass) :
  (Simple.pseudo (kind :: kinds)).parts.foldr joinSimple rest
    = .pseudo (kind :: kinds) :: rest
  := by
  induction kinds generalizing kind with
  | nil => apply joinSimple_eq_cons h
  | cons next kinds ih =>
    calc (Simple.pseudo (kind :: next :: kinds)).parts.foldr joinSimple rest
        = joinSimple (.pseudo [kind])
          ((Simple.pseudo (next :: kinds)).parts.foldr joinSimple rest) := rfl
      _ = joinSimple (.pseudo [kind]) (.pseudo (next :: kinds) :: rest) := by rw [ih]
      _ = .pseudo (kind :: next :: kinds) :: rest := rfl

/-- The parts of a simple selector join to it before what it may stand before. -/
theorem foldr_joinSimple_parts {s : Simple} {rest : List Simple} (hs : s.IsCanonical)
    (h : ∀ t ∈ rest.head?, (s.isPseudo && t.isPseudo) = false) :
  s.parts.foldr joinSimple rest = s :: rest
  := by
  match s with
  | .pseudo [] => exact absurd rfl hs
  | .pseudo (kind :: kinds) => apply foldr_joinSimple_kinds h kind kinds
  | .element _ | .universal | .className _ | .id _ | .attribute _ => apply joinSimple_eq_cons h

/-- The parts of separated simple selectors join to these. -/
theorem foldr_joinSimple {simples : List Simple} (hsep : separated simples)
    (h : ∀ s ∈ simples, s.IsCanonical) :
  (simples.flatMap Simple.parts).foldr joinSimple [] = simples
  := by
  induction simples with
  | nil => rfl
  | cons s rest ih =>
    obtain ⟨hrest, hnext⟩ := separated_cons_iff.mp hsep
    rw [List.flatMap_cons, List.foldr_append, ih hrest fun t ht => h t (.tail s ht)]
    apply foldr_joinSimple_parts (h s (.head rest)) hnext

/-- A part that `subclassSelector` is made to read. -/
def Simple.IsSubclass (p : Simple) : Prop :=
  p.IsCanonical ∧ p.isType = false ∧ p.parts = [p]

namespace Compound

theorem shown_subset {c : Compound} {s : Simple} (h : s ∈ shown c) :
  s ∈ c
  := by
  match c with
  | [] | [.universal] => apply h
  | .universal :: t :: rest => exact .tail _ h
  | .element _ :: rest | .className _ :: rest | .id _ :: rest | .attribute _ :: rest
  | .pseudo _ :: rest => apply h

theorem mem_shown {c : Compound} {s : Simple} (h : s ∈ c) (hs : s ≠ .universal) :
  s ∈ shown c
  := by
  match c with
  | [] | [.universal] => apply h
  | .universal :: t :: rest =>
    rcases List.mem_cons.mp h with rfl | h
    · exact absurd rfl hs
    · apply h
  | .element _ :: rest | .className _ :: rest | .id _ :: rest | .attribute _ :: rest
  | .pseudo _ :: rest => apply h

section

variable {c : Compound} (h : Compound.IsCanonical c)

include h

/-- A canonical compound selector is written from its type on, or from what follows the
universal selector. -/
theorem shown_cases :
  (∃ t rest, c = t :: rest ∧ t.isType = true ∧ shown c = c)
    ∨ ∃ s rest, c = .universal :: s :: rest ∧ shown c = s :: rest
  := by
  obtain ⟨hhead, -⟩ := h
  match c with
  | .element name :: rest => exact .inl ⟨_, _, rfl, rfl, rfl⟩
  | [.universal] => exact .inl ⟨_, _, rfl, rfl, rfl⟩
  | .universal :: s :: rest => exact .inr ⟨s, rest, rfl, rfl⟩

theorem isSubclass_of_mem_parts {s p : Simple} (hs : s ∈ c.tail) (hp : p ∈ s.parts) :
  p.IsSubclass
  := by
  obtain ⟨hpart, hcanonical, htype, -⟩ := Simple.of_mem_parts hp
  refine ⟨hcanonical (h.2.2.2 s (List.mem_of_mem_tail hs)), ?_, hpart⟩
  rw [htype]
  apply Bool.eq_false_iff.mpr (h.2.1 s hs)

/-- The first part is a type, or all parts have signs. -/
theorem parts_cases :
  (∃ t ps, parts c = t :: ps ∧ t.IsCanonical ∧ t.isType = true ∧ ∀ p ∈ ps, p.IsSubclass)
    ∨ ∃ p ps, parts c = p :: ps ∧ ∀ q ∈ p :: ps, q.IsSubclass
  := by
  rcases shown_cases h with ⟨t, rest, rfl, htype, hshown⟩ | ⟨s, rest, rfl, hshown⟩
  · left
    have hpart : t.parts = [t] := by
      match t with
      | .element _ | .universal => rfl
    refine ⟨t, rest.flatMap Simple.parts, ?_, h.2.2.2 t (.head rest), htype, ?_⟩
    · rw [parts, hshown, List.flatMap_cons, hpart]
      rfl
    · intro p hp
      obtain ⟨s, hs, hp⟩ := List.mem_flatMap.mp hp
      apply isSubclass_of_mem_parts h hs hp
  · right
    have hne : s.parts ≠ [] := by
      have hs := h.2.2.2 s (.tail _ (.head rest))
      match s with
      | .pseudo kinds => apply mt List.map_eq_nil_iff.mp hs
      | .element _ | .universal | .className _ | .id _ | .attribute _ => apply List.cons_ne_nil _ _
    obtain ⟨p, ps, hps⟩ := List.exists_cons_of_ne_nil hne
    refine ⟨p, ps ++ rest.flatMap Simple.parts, ?_, ?_⟩
    · rw [parts, hshown, List.flatMap_cons, hps]
      rfl
    · intro q hq
      rw [← List.cons_append, ← hps, ← List.flatMap_cons] at hq
      obtain ⟨s', hs', hq⟩ := List.mem_flatMap.mp hq
      apply isSubclass_of_mem_parts h hs' hq

/-- The parts of a canonical compound selector join to it. -/
theorem withType_parts :
  withType ((parts c).foldr joinSimple []) = c
  := by
  have hsep : separated (shown c) := by
    rcases shown_cases h with ⟨t, rest, -, -, hshown⟩ | ⟨s, rest, rfl, hshown⟩
    · rw [hshown]
      apply h.2.2.1
    · rw [hshown]
      exact (separated_cons_iff.mp h.2.2.1).1
  rw [parts, foldr_joinSimple hsep fun s hs => h.2.2.2 s (shown_subset hs)]
  rcases shown_cases h with ⟨t, rest, rfl, htype, hshown⟩ | ⟨s, rest, rfl, hshown⟩
  · rw [hshown]
    match t with
    | .element _ | .universal => rfl
  · rw [hshown]
    have htype := h.2.1 s (.head rest)
    match s with
    | .element _ | .universal => exact absurd rfl htype
    | .className _ | .id _ | .attribute _ | .pseudo _ => rfl

omit h in
/-- A name in a compound selector is a hyphen if one in a part of it is. -/
theorem hasHyphen_iff :
  HasHyphen c ↔ ∃ p ∈ parts c, "-" ∈ p.identifiers
  := by
  constructor
  · rintro ⟨s, hs, hhyphen⟩
    obtain ⟨hpart, hs'⟩ := Simple.parts_of_mem_identifiers hhyphen
    refine ⟨s, List.mem_flatMap.mpr ⟨s, mem_shown hs hs', ?_⟩, hhyphen⟩
    rw [hpart]
    exact .head []
  · rintro ⟨p, hp, hhyphen⟩
    obtain ⟨s, hs, hp⟩ := List.mem_flatMap.mp hp
    obtain ⟨-, -, -, hidentifiers⟩ := Simple.of_mem_parts hp
    exact ⟨s, shown_subset hs, hidentifiers ▸ hhyphen⟩

end

end Compound

/-! ### Reading parts one after the other -/

/-- The text goes on with another compound selector or ends the chain of them. -/
abbrev Ends (s : List Char) : Prop := Ahead (· ∈ [' ', ',']) s

theorem Ends.delimited {s : List Char} (h : Ends s) :
  Delimited s
  := by
  apply h.of_all
  decide

/-- No further simple selector is read where a compound selector ends. -/
theorem Ends.refuses {s : List Char} (h : Ends s) :
  Refuses subclassSelector s
  := by
  apply refuses_subclassSelector
  apply h.of_all
  decide

/-- The text goes on with a part that has a sign. -/
def Signed (s : List Char) : Prop := ∃ c u, s = c :: u ∧ c ∈ subclassSigns

/-- What is printed for a part starts with its sign. -/
theorem Simple.IsSubclass.signed {p : Simple} (h : p.IsSubclass) (s : List Char) :
  Signed (p.print.toList ++ s)
  := by
  obtain ⟨-, htype, hpart⟩ := h
  obtain ⟨c, hc, hsign⟩ := Simple.exists_sign htype
  obtain ⟨u, hu⟩ := Simple.print_sign hsign hpart
  exact ⟨c, u ++ s, by rw [hu]; rfl, hc⟩

/-- What starts with a sign has one of the signs as its next character. -/
theorem Signed.ahead {s : List Char} (h : Signed s) :
  Ahead (· ∈ subclassSigns) s
  := by
  obtain ⟨c, u, rfl, hc⟩ := h
  apply Ahead.cons hc

/-- A simple selector is only read where a sign is. -/
theorem signed_of_subclassSelector {s : List Char} {p : WrittenSimple × List Char}
    (h : subclassSelector s = .ok p) :
  Signed s
  := by
  rcases s with _ | ⟨c, s⟩
  · apply absurd h ((refuses_subclassSelector .nil).ne_ok p)
  · by_cases hc : c ∈ subclassSigns
    · use c, s
    · apply absurd h ((refuses_subclassSelector (.cons hc)).ne_ok p)

theorem Signed.delimited {s : List Char} (h : Signed s) :
  Delimited s
  := by
  apply h.ahead.of_all
  decide

section

variable {ps : List Simple} (hps : ∀ p ∈ ps, p.IsSubclass) {s : List Char} (hs : Ends s)

include hps hs

omit hs in
theorem parts_closed :
  ∀ p ∈ ps, ∀ s, Delimited (p.print.toList ++ s)
  := by
  intro p hp s
  exact ((hps p hp).signed s).delimited

theorem parts_delimited :
  Delimited (ps.flatMap (fun p => p.print.toList) ++ s)
  := Reader.after_flatMap (parts_closed hps) hs.delimited

/-- The parts that are printed are read back, one after the other. -/
theorem repetition_parts (hhyphen : ∀ p ∈ ps, "-" ∉ p.identifiers) :
  ∃ ws : WrittenCompound,
    ws.mapM (fun p => p.2.check.mapError (p.1, ·)) = .ok (ps.map Simple.cleared)
      ∧ Reader.repetition subclassSelector.located
          (ps.flatMap (fun p => p.print.toList) ++ s) = (ws, s)
  := by
  apply Reader.repetition_mapM (parts_closed hps) hs.delimited _ hs.refuses.located
  intro p hp u hu
  obtain ⟨hcanonical, htype, hpart⟩ := hps p hp
  obtain ⟨w, hw, hcheck⟩ := subclassSelector_print hu hcanonical htype hpart (hhyphen p hp)
  refine ⟨_, Reader.located_of_ok hw, ?_⟩
  simp only [hcheck]
  rfl

/-- Parts in which a name is a hyphen are read up to the sign of one of these. -/
theorem repetition_parts_hyphen (hhyphen : ∃ p ∈ ps, "-" ∈ p.identifiers) :
  Signed (Reader.repetition subclassSelector.located
    (ps.flatMap (fun p => p.print.toList) ++ s)).2
  := by
  apply Reader.repetition_jams (parts_closed hps) hs.delimited _ _ hhyphen
  · intro p hp u hu hgood
    obtain ⟨hcanonical, htype, hpart⟩ := hps p hp
    obtain ⟨w, hw, -⟩ := subclassSelector_print hu hcanonical htype hpart hgood
    exact ⟨_, Reader.located_of_ok hw⟩
  · intro p hp u hu hbad
    obtain ⟨hcanonical, htype, hpart⟩ := hps p hp
    have hrefuses := refuses_subclassSelector_hyphen hu hcanonical htype hpart hbad
    constructor
    · exact (hps p hp).signed u
    · intro a v hread
      exact absurd hread (hrefuses.located.ne_ok _)

end

/-! ### Reading compound selectors -/

/-- After a type a compound selector goes on with simple selectors. -/
theorem compound_of_type {s t : List Char} {w : WrittenSimple}
    (h : typeSelector s = .ok (w, t)) :
  compound s = .ok ((s, w) :: (Reader.repetition subclassSelector.located t).1,
    (Reader.repetition subclassSelector.located t).2)
  := by
  apply Reader.atomic_of_ok
  apply Reader.or_of_ok
  rw [Reader.bind_ok (Reader.located_of_ok h)]
  rfl

/-- Without a type a compound selector is simple selectors, at least one. -/
theorem compound_of_subclass {s t : List Char} {w : WrittenSimple} (hs : Signed s)
    (h : subclassSelector s = .ok (w, t)) :
  compound s = .ok (Reader.repetition subclassSelector.located s)
  := by
  have htype := (refuses_typeSelector hs.ahead).located
  apply Reader.atomic_of_ok
  rw [Reader.or_of_refuses htype.bind]
  apply Reader.many1_eq_many (Reader.located_of_ok h)

/-- No compound selector is read where there is neither a type nor a simple selector. -/
theorem refuses_compound {s : List Char} (htype : Refuses typeSelector s)
    (hsubclass : Refuses subclassSelector s) :
  Refuses compound s
  := by
  apply Refuses.atomic
  apply Refuses.or
  · apply htype.located.bind
  · apply hsubclass.located.bind

/-- No compound selector is read of a type that is a hyphen. -/
theorem refuses_compound_hyphen {s : List Char} (hs : Delimited s) :
  Refuses compound ((Simple.element "-").print.toList ++ s)
  := by
  have hsign : Ahead (· ∉ subclassSigns) ('-' :: s) := Ahead.cons (by decide)
  apply refuses_compound
  · apply refuses_typeSelector_hyphen hs
  · apply refuses_subclassSelector hsign

section

variable {c : Compound} (h : Compound.IsCanonical c) {s : List Char} (hs : Ends s)

include h hs

/-- A canonical compound selector reads back, unless a name in it is a hyphen. -/
theorem compound_print (hhyphen : ¬Compound.HasHyphen c) :
  ∃ w, compound ((Compound.print c).toList ++ s) = .ok (w, s)
    ∧ WrittenCompound.check w = .ok (Compound.cleared c)
  := by
  have hgood : ∀ p ∈ Compound.parts c, "-" ∉ p.identifiers := by
    intro p hp hbad
    apply hhyphen (Compound.hasHyphen_iff.mpr ⟨p, hp, hbad⟩)
  have hwhole := Compound.withType_parts (Compound.isCanonical_cleared h)
  rw [Compound.parts_cleared] at hwhole
  rw [Compound.print_toList]
  rcases Compound.parts_cases h with ⟨t, ps, hparts, ht, htype, hps⟩ | ⟨p, ps, hparts, hps⟩
  · rw [hparts] at hgood hwhole ⊢
    rw [List.flatMap_cons, List.append_assoc]
    obtain ⟨w, hw, hcheck⟩ :=
      typeSelector_print (parts_delimited hps hs) ht htype (hgood t (.head ps))
    obtain ⟨ws, hws, hrep⟩ := repetition_parts hps hs fun p hp => hgood p (.tail t hp)
    have hread := compound_of_type hw
    rw [hrep] at hread
    refine ⟨_, hread, ?_⟩
    rw [WrittenCompound.check, List.mapM_cons, hcheck, hws]
    apply congrArg Except.ok hwhole
  · rw [hparts] at hgood hwhole ⊢
    obtain ⟨ws, hws, hrep⟩ := repetition_parts hps hs hgood
    obtain ⟨hcanonical, htype, hpart⟩ := hps p (.head ps)
    have hdelimited := parts_delimited (fun q hq => hps q (.tail p hq)) hs
    obtain ⟨w, hw, -⟩ :=
      subclassSelector_print hdelimited hcanonical htype hpart (hgood p (.head ps))
    rw [List.flatMap_cons, List.append_assoc] at hrep ⊢
    have hread := compound_of_subclass ((hps p (.head ps)).signed _) hw
    rw [hrep] at hread
    refine ⟨_, hread, ?_⟩
    rw [WrittenCompound.check, hws]
    apply congrArg Except.ok hwhole

/-- A canonical compound selector in which a name is a hyphen is not read to its end. -/
theorem compound_print_hyphen (hhyphen : Compound.HasHyphen c) (w : WrittenCompound)
    (u : List Char) (hread : compound ((Compound.print c).toList ++ s) = .ok (w, u)) :
  Signed u
  := by
  obtain ⟨p, hp, hbad⟩ := Compound.hasHyphen_iff.mp hhyphen
  rw [Compound.print_toList] at hread
  rcases Compound.parts_cases h with ⟨t, ps, hparts, ht, htype, hps⟩ | ⟨q, ps, hparts, hps⟩
  · rw [hparts] at hp hread
    rw [List.flatMap_cons, List.append_assoc] at hread
    have hdelimited := parts_delimited hps hs
    by_cases hfirst : "-" ∈ t.identifiers
    · rw [Simple.eq_hyphen_of_isType htype hfirst] at hread
      exact absurd hread ((refuses_compound_hyphen hdelimited).ne_ok _)
    · obtain ⟨wt, hwt, -⟩ := typeSelector_print hdelimited ht htype hfirst
      have hsome : ∃ p ∈ t :: ps, "-" ∈ p.identifiers := ⟨p, hp, hbad⟩
      have hothers := ((List.exists_mem_cons_iff _ _ _).mp hsome).resolve_left hfirst
      have hjam := repetition_parts_hyphen hps hs hothers
      rw [compound_of_type hwt] at hread
      obtain ⟨-, rfl⟩ := Prod.mk.inj (Except.ok.inj hread)
      apply hjam
  · rw [hparts] at hp hread
    have hjam := repetition_parts_hyphen hps hs ⟨p, hp, hbad⟩
    rw [List.flatMap_cons, List.append_assoc] at hjam hread
    have hsigned := (hps q (.head ps)).signed (ps.flatMap (fun p => p.print.toList) ++ s)
    obtain ⟨hcanonical, htype, hpart⟩ := hps q (.head ps)
    have hdelimited := parts_delimited (fun p hp => hps p (.tail q hp)) hs
    by_cases hfirst : "-" ∈ q.identifiers
    · have hrefuses := refuses_compound (refuses_typeSelector hsigned.ahead)
        (refuses_subclassSelector_hyphen hdelimited hcanonical htype hpart hfirst)
      exact absurd hread (hrefuses.ne_ok _)
    · obtain ⟨wq, hwq, -⟩ := subclassSelector_print hdelimited hcanonical htype hpart hfirst
      rw [compound_of_subclass hsigned hwq] at hread
      rw [Except.ok.inj hread] at hjam
      apply hjam

end

end Hypertext.Selector
