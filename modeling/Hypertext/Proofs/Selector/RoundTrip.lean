import Hypertext.Proofs.Selector.Canonical
import Hypertext.Proofs.Selector.Compound

/-!
# Selectors read back

A selector is printed as its compound selectors with spaces and commas between them, and a
canonical one reads back level by level: `compound_print`, `link_print`, `complex_print` and
`parse_print_of_isCanonical`.  What comes back is the selector with U+FFFD for U+0000.  If a name
is a hyphen alone, then reading gets stuck at that name, and as what is left there is neither
empty nor another alternative, the selector is not read at all, as `parse_print_hyphen` says.
-/

namespace Hypertext

open Reader (Ahead Refuses Spaceless)

namespace Selector

open Grammar

/-! ### Between compound selectors -/

/-- Texts with a separator between them are the first one, and each other one with the separator
before it. -/
theorem intercalate_toList (separator text : String) (texts : List String) :
  (separator.intercalate (text :: texts)).toList
    = text.toList ++ texts.flatMap fun t => separator.toList ++ t.toList
  := by
  induction texts generalizing text with
  | nil => simp
  | cons next texts ih =>
    rw [String.intercalate_cons_cons, String.toList_append, String.toList_append, ih]
    simp

/-- The characters that may stand between compound selectors in a chain. -/
def linkSigns : List Char := [' ', '\t', '\r', '\n', '>', '+', '~']

/-- The text does not go on with a chain. -/
abbrev Unlinked (s : List Char) : Prop := Ahead (· ∉ linkSigns) s

/-- No space is next where a chain does not go on. -/
theorem Unlinked.spaceless {s : List Char} (h : Unlinked s) :
  Spaceless s
  := by
  apply h.mono
  intro c hc
  simp only [linkSigns, List.mem_cons, not_or] at hc
  simp [Reader.isSpace, hc]

/-- There is no sign of a combinator where a chain does not go on. -/
theorem refuses_combinatorSign {s : List Char} (h : Unlinked s) :
  Refuses combinatorSign s
  := by
  apply Refuses.bind
  apply Reader.refuses_satisfying
  apply h.mono
  intro c hc
  simp only [linkSigns, List.mem_cons, not_or] at hc
  simp [hc]

/-- There is no combinator where a chain does not go on. -/
theorem refuses_combinator {s : List Char} (h : Unlinked s) :
  Refuses combinator s
  := by
  apply Refuses.or
  · apply Reader.refuses_bind_of_ok (Reader.spaces_of_spaceless h.spaceless)
    exact (refuses_combinatorSign h).located
  · apply Refuses.located
    apply Refuses.bind
    apply Reader.refuses_spaces1 h.spaceless

/-- A combinator is at its sign, or at the first of the spaces that count as one. -/
theorem combinator_eq_ok {s t : List Char} {p : List Char × Char} (h : combinator s = .ok (p, t)) :
  ∃ c u, p.1 = c :: u ∧ t = u.dropWhile Reader.isSpace
    ∧ (s = c :: u ∧ Reader.isSpace c = true ∧ p.2 = ' '
      ∨ s.dropWhile Reader.isSpace = c :: u ∧ p.2 = c ∧ c ∈ ['>', '+', '~'])
  := by
  cases hsign : (do Reader.spaces; combinatorSign.located : Reader (List Char × Char)) s with
  | ok q =>
    rw [combinator, Reader.or_of_ok hsign] at h
    rw [h, Reader.bind_ok (Reader.spaces_apply s)] at hsign
    obtain ⟨hstart, hsign⟩ := Reader.eq_of_located hsign
    obtain ⟨c, u, hc, hspaces⟩ := Reader.bind_eq_ok hsign
    obtain ⟨hleft, hmem⟩ := Reader.satisfying_eq_ok hc
    rw [Reader.bind_ok (Reader.spaces_apply u)] at hspaces
    obtain ⟨rfl, rfl⟩ := Prod.mk.inj (Except.ok.inj hspaces)
    use p.2, u, hstart.trans hleft, rfl
    exact .inr ⟨hleft, rfl, List.contains_iff_mem.mp hmem⟩
  | error v =>
    rw [combinator, Reader.or_of_error hsign] at h
    obtain ⟨heq, hspaces⟩ := Reader.eq_of_located h
    obtain ⟨_, v, hspaces1, hpure⟩ := Reader.bind_eq_ok hspaces
    obtain ⟨hp, rfl⟩ := Prod.mk.inj (Except.ok.inj hpure)
    obtain ⟨c, u, hstart, hc, hleft⟩ := Reader.spaces1_eq_ok hspaces1
    use c, u, heq.trans hstart, hleft
    exact .inl ⟨hstart, hc, hp.symm⟩

/-- A space before what is no sign is the combinator that counts as one. -/
theorem combinator_space {s : List Char} (h : Unlinked s) :
  combinator (' ' :: s) = .ok ((' ' :: s, ' '), s)
  := by
  have hsign : Refuses (do Reader.spaces; combinatorSign.located) (' ' :: s) := by
    apply Reader.refuses_bind_of_ok (Reader.spaces_cons_of_spaceless h.spaceless)
    exact (refuses_combinatorSign h).located
  rw [combinator, Reader.or_of_refuses hsign]
  apply Reader.located_of_ok
  apply Reader.bind_ok (Reader.spaces1_cons_of_spaceless h.spaceless)

/-- The text goes on with what may start a compound selector. -/
def Opening (s : List Char) : Prop := ∃ c u, s = c :: u ∧ c ∉ ',' :: linkSigns

/-- There is no combinator where a compound selector may start. -/
theorem Opening.unlinked {s : List Char} (h : Opening s) :
  Unlinked s
  := by
  obtain ⟨c, u, rfl, hc⟩ := h
  apply Ahead.cons
  intro hmem
  apply hc (.tail _ hmem)

/-- No compound selector starts with a comma. -/
theorem Opening.not_comma {s : List Char} (h : Opening s) :
  Ahead (· ≠ ',') s
  := by
  obtain ⟨c, u, rfl, hc⟩ := h
  apply Ahead.cons
  rintro rfl
  apply hc (.head _)

/-- The sign of a simple selector may start a compound selector. -/
theorem Signed.opening {s : List Char} (h : Signed s) :
  Opening s
  := by
  obtain ⟨c, u, hs, hc⟩ := h
  have hsigns : ∀ d ∈ subclassSigns, d ∉ ',' :: linkSigns :=
    Reader.forall_mem_of_all (by decide)
  exact ⟨c, u, hs, hsigns c hc⟩

/-- What is printed for a compound selector starts as one may. -/
theorem opening_compound {c : Compound} (h : Compound.IsCanonical c) (s : List Char) :
  Opening ((Compound.print c).toList ++ s)
  := by
  rw [Compound.print_toList]
  rcases Compound.parts_cases h with ⟨t, ps, hparts, ht, htype, -⟩ | ⟨p, ps, hparts, hps⟩
  · rw [hparts, List.flatMap_cons, List.append_assoc]
    match t with
    | .universal => exact ⟨'*', _, rfl, by decide⟩
    | .element name =>
      obtain ⟨d, u, hu, hd⟩ := printIdentifier_head ht
      have hnames : ∀ e ∈ ',' :: linkSigns, isNameChar e = false :=
        Reader.forall_mem_of_all (by decide)
      refine ⟨d, u ++ (ps.flatMap (fun p => p.print.toList) ++ s), ?_, ?_⟩
      · rw [Simple.print, hu]
        rfl
      · rcases hd with rfl | hd
        · decide
        · intro hmem
          rw [hnames d hmem] at hd
          cases hd
  · rw [hparts, List.flatMap_cons, List.append_assoc]
    exact ((hps p (.head ps)).signed _).opening

/-! ### Chains -/

namespace Complex

/-- A chain is printed as its first compound selector, and each other one with a space before it. -/
theorem print_toList (c : Compound) (cs : Complex) (s : List Char) :
  (Complex.print (c :: cs)).toList ++ s
    = (Compound.print c).toList
      ++ (cs.flatMap (fun d => ' ' :: (Compound.print d).toList) ++ s)
  := by
  rw [print, List.map_cons, intercalate_toList, List.flatMap_map, List.append_assoc]
  rfl

end Complex

section

variable {c : Compound} (h : Compound.IsCanonical c) {s : List Char} (hs : Ends s)

include h hs

/-- A link that is printed is read back with U+FFFD for U+0000. -/
theorem link_print (hhyphen : ¬Compound.HasHyphen c) :
  ∃ l, link (' ' :: ((Compound.print c).toList ++ s)) = .ok (l, s)
    ∧ checkLink l = .ok (Compound.cleared c)
  := by
  have hcombinator := combinator_space (opening_compound h s).unlinked
  obtain ⟨w, hw, hcheck⟩ := compound_print h hs hhyphen
  use ((' ' :: ((Compound.print c).toList ++ s), ' '), w)
  constructor
  · rw [link, Reader.bind_ok hcombinator, Reader.bind_ok hw]
    rfl
  · apply hcheck

/-- After a link with a name that is a hyphen the text goes on with a sign. -/
theorem link_print_hyphen (hhyphen : Compound.HasHyphen c) {l : (List Char × Char) × WrittenCompound}
    {u : List Char} (hread : link (' ' :: ((Compound.print c).toList ++ s)) = .ok (l, u)) :
  Signed u
  := by
  have hcombinator := combinator_space (opening_compound h s).unlinked
  rw [link, Reader.bind_ok hcombinator] at hread
  obtain ⟨w, v, hw, hpure⟩ := Reader.bind_eq_ok hread
  obtain ⟨-, rfl⟩ := Prod.mk.inj (Except.ok.inj hpure)
  apply compound_print_hyphen h hs hhyphen w v hw

end

/-- The text goes on with another alternative or is at its end. -/
abbrev Closes (s : List Char) : Prop := Ahead (· = ',') s

/-- A compound selector ends where an alternative does. -/
theorem Closes.ends {s : List Char} (h : Closes s) :
  Ends s
  := by
  apply h.mono
  rintro c rfl
  decide

/-- A chain does not go on where an alternative ends. -/
theorem Closes.unlinked {s : List Char} (h : Closes s) :
  Unlinked s
  := by
  apply h.mono
  rintro c rfl
  decide

/-- No link is read where a chain does not go on. -/
theorem refuses_link {s : List Char} (h : Unlinked s) :
  Refuses link s
  := (refuses_combinator h).bind

/-- What is left of the text does not go on with an alternative, and not only with spaces. -/
def Stuck (s : List Char) : Prop := Opening (s.dropWhile Reader.isSpace)

/-- What may start a compound selector is neither an alternative nor spaces only. -/
theorem Opening.stuck {s : List Char} (h : Opening s) :
  Stuck s
  := by
  rw [Stuck, h.unlinked.spaceless.dropWhile]
  apply h

/-- A space before what may start a compound selector changes nothing of this. -/
theorem Opening.stuck_cons {s : List Char} (h : Opening s) :
  Stuck (' ' :: s)
  := h.stuck

section

variable {cs : Complex} (hcs : ∀ d ∈ cs, Compound.IsCanonical d) {s : List Char} (hs : Closes s)

include hcs hs

omit hcs in
/-- A compound selector ends before the links that are printed after it. -/
theorem links_end :
  Ends (cs.flatMap (fun d => ' ' :: (Compound.print d).toList) ++ s)
  := Reader.after_flatMap (fun _ _ _ => .cons (by decide)) hs.ends

/-- The links that are printed are read back, one after the other. -/
theorem repetition_links (hhyphen : ∀ d ∈ cs, ¬Compound.HasHyphen d) :
  ∃ ls, ls.mapM checkLink = .ok (cs.map Compound.cleared)
    ∧ Reader.repetition link (cs.flatMap (fun d => ' ' :: (Compound.print d).toList) ++ s)
      = (ls, s)
  := by
  apply Reader.repetition_mapM _ hs.ends _ (refuses_link hs.unlinked)
  · intro d _ u
    exact .cons (by decide)
  · intro d hd u hu
    apply link_print (hcs d hd) hu (hhyphen d hd)

/-- Links in which a name is a hyphen are not read to their end. -/
theorem repetition_links_hyphen (hhyphen : ∃ d ∈ cs, Compound.HasHyphen d) :
  Stuck (Reader.repetition link
    (cs.flatMap (fun d => ' ' :: (Compound.print d).toList) ++ s)).2
  := by
  apply Reader.repetition_jams _ hs.ends _ _ hhyphen
  · intro d _ u
    exact .cons (by decide)
  · intro d hd u hu hgood
    obtain ⟨l, hl, -⟩ := link_print (hcs d hd) hu hgood
    exact ⟨l, hl⟩
  · intro d hd u hu hbad
    constructor
    · exact (opening_compound (hcs d hd) u).stuck_cons
    · intro l v hread
      have hsigned := link_print_hyphen (hcs d hd) hu hbad hread
      exact ⟨hsigned.opening.stuck, refuses_link hsigned.opening.unlinked⟩

end

section

variable {c : Complex} (h : Complex.IsCanonical c) {s : List Char}

include h

/-- What is printed for a complex selector starts as a compound selector may. -/
theorem opening_complex (s : List Char) :
  Opening ((Complex.print c).toList ++ s)
  := by
  obtain ⟨d, ds, rfl⟩ := List.exists_cons_of_ne_nil h.1
  rw [Complex.print_toList]
  apply opening_compound (h.2 d (.head ds))

/-- A canonical complex selector reads back, unless a name in it is a hyphen. -/
theorem complex_print (hs : Closes s) (hhyphen : ¬Complex.HasHyphen c) :
  ∃ w, complex ((Complex.print c).toList ++ s) = .ok (w, s)
    ∧ w.check = .ok (Complex.cleared c)
  := by
  obtain ⟨d, ds, rfl⟩ := List.exists_cons_of_ne_nil h.1
  have htail : ∀ e ∈ ds, Compound.IsCanonical e := fun e he => h.2 e (.tail d he)
  have hgood : ∀ e ∈ d :: ds, ¬Compound.HasHyphen e := fun e he hbad => hhyphen ⟨e, he, hbad⟩
  obtain ⟨w, hw, hcheck⟩ := compound_print (h.2 d (.head ds)) (links_end hs)
    (hgood d (.head ds))
  obtain ⟨ls, hls, hrep⟩ := repetition_links htail hs fun e he => hgood e (.tail d he)
  use ⟨w, ls⟩
  constructor
  · have hmany : Reader.many link
        (ds.flatMap (fun d => ' ' :: (Compound.print d).toList) ++ s) = .ok (ls, s) :=
      congrArg Except.ok hrep
    rw [Complex.print_toList, complex, Reader.bind_ok hw, Reader.bind_ok hmany]
    rfl
  · rw [WrittenComplex.check, hcheck, hls]
    rfl

/-- A canonical complex selector in which a name is a hyphen is not read to its end. -/
theorem complex_print_hyphen (hs : Closes s) (hhyphen : Complex.HasHyphen c) {w : WrittenComplex}
    {u : List Char} (hread : complex ((Complex.print c).toList ++ s) = .ok (w, u)) :
  Stuck u
  := by
  obtain ⟨d, ds, rfl⟩ := List.exists_cons_of_ne_nil h.1
  have hhead := h.2 d (.head ds)
  have htail : ∀ e ∈ ds, Compound.IsCanonical e := fun e he => h.2 e (.tail d he)
  rw [Complex.print_toList] at hread
  obtain ⟨w', v, hw, hrest⟩ := Reader.bind_eq_ok hread
  obtain ⟨ls, v', hls, hpure⟩ := Reader.bind_eq_ok hrest
  obtain ⟨-, rfl⟩ := Prod.mk.inj (Except.ok.inj hpure)
  have hleft : (Reader.repetition link v).2 = v' := congrArg Prod.snd (Except.ok.inj hls)
  by_cases hfirst : Compound.HasHyphen d
  · have hopening :=
      (compound_print_hyphen hhead (links_end hs) hfirst w' v hw).opening
    rw [← hleft, Reader.repetition_of_refuses (refuses_link hopening.unlinked)]
    apply hopening.stuck
  · obtain ⟨w'', hw'', -⟩ := compound_print hhead (links_end hs) hfirst
    rw [hw''] at hw
    obtain ⟨-, rfl⟩ := Prod.mk.inj (Except.ok.inj hw)
    rw [← hleft]
    have hothers := ((List.exists_mem_cons_iff _ _ _).mp hhyphen).resolve_left hfirst
    apply repetition_links_hyphen htail hs hothers

end

/-! ### Alternatives -/

/-- A selector is printed as its first alternative, and each other one with a comma and a space
before it. -/
theorem print_toList (c : Complex) (cs : Selector) :
  (print (c :: cs)).toList
    = (Complex.print c).toList ++ cs.flatMap (fun d => ',' :: ' ' :: (Complex.print d).toList)
  := by
  rw [print, List.map_cons, intercalate_toList, List.flatMap_map]
  rfl

/-- After a comma and a space an alternative is read as a complex selector. -/
theorem alternative_apply {s : List Char} (hs : Opening s) :
  alternative (',' :: ' ' :: s) = complex s
  := by
  have hspaces : Reader.spaces (',' :: ' ' :: s) = .ok ((), ',' :: ' ' :: s) :=
    Reader.spaces_of_spaceless (.cons (by decide))
  rw [alternative, Reader.bind_ok hspaces, Reader.bind_ok (Reader.char_cons ','),
    Reader.bind_ok (Reader.spaces_cons_of_spaceless hs.unlinked.spaceless)]

/-- No alternative is read where no comma comes after the spaces. -/
theorem refuses_alternative {s : List Char} (h : Ahead (· ≠ ',') (s.dropWhile Reader.isSpace)) :
  Refuses alternative s
  := by
  apply Reader.refuses_bind_of_ok (Reader.spaces_apply s)
  apply Refuses.bind
  apply Reader.refuses_char h

/-- Something other than spaces is left of the text. -/
def Leftover (s : List Char) : Prop := s.dropWhile Reader.isSpace ≠ []

/-- What does not go on only with spaces leaves something. -/
theorem Stuck.leftover {s : List Char} (h : Stuck s) :
  Leftover s
  := by
  obtain ⟨c, u, hu, -⟩ := h
  rw [Leftover, hu]
  apply List.cons_ne_nil

section

variable {cs : Selector} (hcs : ∀ c ∈ cs, Complex.IsCanonical c)

include hcs

/-- The alternatives that are printed are read back, one after the other. -/
theorem repetition_alternatives (hhyphen : ∀ c ∈ cs, ¬Complex.HasHyphen c) :
  ∃ ws, ws.mapM WrittenComplex.check = .ok (cs.map Complex.cleared)
    ∧ Reader.repetition alternative
        (cs.flatMap (fun c => ',' :: ' ' :: (Complex.print c).toList) ++ [])
      = (ws, [])
  := by
  apply Reader.repetition_mapM _ (.nil : Closes []) _ (refuses_alternative .nil)
  · intro c _ u
    exact .cons rfl
  · intro c hc u hu
    rw [List.cons_append, List.cons_append, alternative_apply (opening_complex (hcs c hc) u)]
    apply complex_print (hcs c hc) hu (hhyphen c hc)

/-- Alternatives in which a name is a hyphen are not read to their end. -/
theorem repetition_alternatives_hyphen (hhyphen : ∃ c ∈ cs, Complex.HasHyphen c) :
  Leftover (Reader.repetition alternative
    (cs.flatMap (fun c => ',' :: ' ' :: (Complex.print c).toList) ++ [])).2
  := by
  apply Reader.repetition_jams _ (.nil : Closes []) _ _ hhyphen
  · intro c _ u
    exact .cons rfl
  · intro c hc u hu hgood
    rw [List.cons_append, List.cons_append, alternative_apply (opening_complex (hcs c hc) u)]
    obtain ⟨w, hw, -⟩ := complex_print (hcs c hc) hu hgood
    exact ⟨w, hw⟩
  · intro c hc u hu hbad
    rw [List.cons_append, List.cons_append, alternative_apply (opening_complex (hcs c hc) u)]
    constructor
    · rw [Leftover, List.dropWhile_cons_of_neg (by decide)]
      apply List.cons_ne_nil
    · intro w v hread
      have hstuck := complex_print_hyphen (hcs c hc) hu hbad hread
      exact ⟨hstuck.leftover, refuses_alternative hstuck.not_comma⟩

omit hcs in
/-- An alternative ends before those that are printed after it. -/
theorem alternatives_close :
  Closes (cs.flatMap fun c => ',' :: ' ' :: (Complex.print c).toList)
  := by
  rw [← List.append_nil (cs.flatMap _)]
  apply Reader.after_flatMap (fun _ _ _ => .cons rfl) .nil

end

/-- A selector is read if the whole text is read as a group and the group passes the checks. -/
theorem parse_of_group {input : String} {ws : List WrittenComplex} {a : Selector}
    (h : group input.toList = .ok (ws, [])) (hcheck : ws.mapM WrittenComplex.check = .ok a) :
  parse input = .ok a
  := by
  rw [parse_eq_of_group h, hcheck]
  rfl

/-- Nothing is read if something is left of the text after every reading of a group. -/
theorem parse_ne_ok {input : String}
    (h : ∀ ws rest, group input.toList = .ok (ws, rest) → rest ≠ []) (a : Selector) :
  parse input ≠ .ok a
  := by
  delta parse
  split
  · nofun
  · next ws rest hgroup =>
    rw [if_neg (by simpa using h ws rest hgroup)]
    nofun

section

variable {a : Selector} (h : a.IsCanonical)

include h

/-- A canonical selector reads back with U+FFFD for U+0000, unless a name in it is a hyphen. -/
theorem parse_print_of_isCanonical (hhyphen : ¬a.HasHyphen) :
  parse a.print = .ok a.cleared
  := by
  obtain ⟨c, cs, rfl⟩ := List.exists_cons_of_ne_nil h.1
  have hhead := h.2 c (.head cs)
  have htail : ∀ d ∈ cs, Complex.IsCanonical d := fun d hd => h.2 d (.tail c hd)
  have hgood : ∀ d ∈ c :: cs, ¬Complex.HasHyphen d := fun d hd hbad => hhyphen ⟨d, hd, hbad⟩
  obtain ⟨w, hw, hcheck⟩ := complex_print hhead alternatives_close (hgood c (.head cs))
  obtain ⟨ws, hws, hrep⟩ := repetition_alternatives htail fun d hd => hgood d (.tail c hd)
  have hmany : Reader.many alternative
      (cs.flatMap fun c => ',' :: ' ' :: (Complex.print c).toList) = .ok (ws, []) := by
    rw [List.append_nil] at hrep
    apply congrArg Except.ok hrep
  have hspaces := Reader.spaces_of_spaceless (opening_complex hhead
    (cs.flatMap fun c => ',' :: ' ' :: (Complex.print c).toList)).unlinked.spaceless
  have hgroup : group (print (c :: cs)).toList = .ok (w :: ws, []) := by
    rw [print_toList, group, Reader.bind_ok hspaces, Reader.bind_ok hw, Reader.bind_ok hmany]
    rfl
  apply parse_of_group hgroup
  rw [List.mapM_cons, hcheck, hws]
  rfl

/-- A canonical selector in which a name is a hyphen alone does not read back at all. -/
theorem parse_print_hyphen (hhyphen : a.HasHyphen) (b : Selector) :
  parse a.print ≠ .ok b
  := by
  obtain ⟨c, cs, rfl⟩ := List.exists_cons_of_ne_nil h.1
  have hhead := h.2 c (.head cs)
  have htail : ∀ d ∈ cs, Complex.IsCanonical d := fun d hd => h.2 d (.tail c hd)
  have hclose : Closes (cs.flatMap fun d => ',' :: ' ' :: (Complex.print d).toList) :=
    alternatives_close
  have hspaces := Reader.spaces_of_spaceless (opening_complex hhead
    (cs.flatMap fun c => ',' :: ' ' :: (Complex.print c).toList)).unlinked.spaceless
  apply parse_ne_ok
  intro written rest hgroup
  rw [print_toList, group, Reader.bind_ok hspaces] at hgroup
  obtain ⟨w, u, hw, hgroup⟩ := Reader.bind_eq_ok hgroup
  obtain ⟨ws, v, hws, hgroup⟩ := Reader.bind_eq_ok hgroup
  obtain ⟨_, v', hspaces', hpure⟩ := Reader.bind_eq_ok hgroup
  obtain ⟨-, rfl⟩ := Prod.mk.inj (Except.ok.inj hpure)
  obtain ⟨-, rfl⟩ := Prod.mk.inj (Except.ok.inj hspaces')
  have hleft : (Reader.repetition alternative u).2 = v := congrArg Prod.snd (Except.ok.inj hws)
  rw [← hleft]
  by_cases hfirst : Complex.HasHyphen c
  · have hstuck := complex_print_hyphen hhead hclose hfirst hw
    rw [Reader.repetition_of_refuses (refuses_alternative hstuck.not_comma)]
    apply hstuck.leftover
  · obtain ⟨w', hw', -⟩ := complex_print hhead hclose hfirst
    rw [hw'] at hw
    obtain ⟨-, rfl⟩ := Prod.mk.inj (Except.ok.inj hw)
    have hothers := ((List.exists_mem_cons_iff _ _ _).mp hhyphen).resolve_left hfirst
    have hjam := repetition_alternatives_hyphen htail hothers
    rw [List.append_nil] at hjam
    apply hjam

/-- A canonical selector reads back exactly if no name in it is a hyphen alone and U+0000 does
not occur in it. -/
theorem parse_print_eq_iff_of_isCanonical :
  parse a.print = .ok a ↔ ¬a.HasHyphen ∧ ¬a.HasNull
  := by
  constructor
  · intro hread
    have hhyphen : ¬a.HasHyphen := fun hbad => parse_print_hyphen h hbad a hread
    use hhyphen
    rw [parse_print_of_isCanonical h hhyphen] at hread
    apply cleared_eq_self_iff.mp (Except.ok.inj hread)
  · rintro ⟨hhyphen, hnull⟩
    rw [parse_print_of_isCanonical h hhyphen, cleared_eq_self_iff.mpr hnull]

end

/-! ### Round trips -/

/-- A selector that was read and printed is read again with U+FFFD for U+0000, but it is not read
at all if a name in it is a hyphen alone. -/
theorem parse_print_of_parse {input : String} {a : Selector} (h : parse input = .ok a) :
  (parse a.print = .ok a ↔ ¬a.HasHyphen ∧ ¬a.HasNull)
    ∧ (¬a.HasHyphen → parse a.print = .ok a.cleared)
    ∧ (a.HasHyphen → ∀ b, parse a.print ≠ .ok b)
  := by
  have hcanonical := isCanonical_of_parse h
  refine ⟨?_, ?_, ?_⟩
  · apply parse_print_eq_iff_of_isCanonical hcanonical
  · apply parse_print_of_isCanonical hcanonical
  · apply parse_print_hyphen hcanonical

/-- A selector with a descendant reads back. -/
theorem parse_print_of_parse_descendant :
  let a : Selector := [[[.element "ul", .className "menu"], [.element "li"]]]
  parse "ul.menu li" = .ok a ∧ parse a.print = .ok a
  := by
  intro a
  have hread : parse "ul.menu li" = .ok a := by
    have hcanonical : a.IsCanonical := by decide
    have hprint : a.print = "ul.menu li" := by decide
    rw [← hprint]
    exact (parse_print_eq_iff_of_isCanonical hcanonical).mpr ⟨by decide, by decide⟩
  exact ⟨hread, (parse_print_of_parse hread).1.mpr ⟨by decide, by decide⟩⟩

/-- An escaped hyphen is a name, which is printed without the backslash and is then no name. -/
theorem not_parse_print_hyphen :
  ¬∀ (input : String) (a : Selector), parse input = .ok a → parse a.print = .ok a
  := by
  intro h
  have hsome : (parse "\\-").toOption = some [[[.element "-"]]] := by decide +kernel
  cases hread : parse "\\-" with
  | error e =>
    rw [hread] at hsome
    cases hsome
  | ok a =>
    rw [hread] at hsome
    obtain rfl := Option.some.inj hsome
    have hcanonical : IsCanonical [[[.element "-"]]] := by decide
    apply parse_print_hyphen hcanonical (by decide) _ (h _ _ hread)

/-- What is read is canonical, and a selector reads back exactly if it is canonical, no name in it
is a hyphen alone, and U+0000 does not occur in it. -/
theorem isCanonical_and_parse_print_eq_iff :
  (∀ (input : String) (a : Selector), parse input = .ok a → a.IsCanonical)
    ∧ ∀ a : Selector, parse a.print = .ok a ↔ a.IsCanonical ∧ ¬a.HasHyphen ∧ ¬a.HasNull
  := by
  constructor
  · intro input a h
    apply isCanonical_of_parse h
  · intro a
    constructor
    · intro h
      have hcanonical := isCanonical_of_parse h
      exact ⟨hcanonical, (parse_print_eq_iff_of_isCanonical hcanonical).mp h⟩
    · rintro ⟨hcanonical, hgood⟩
      exact (parse_print_eq_iff_of_isCanonical hcanonical).mpr hgood

/-- A selector with a scope, flags, a run of pseudo-classes and an alternative reads back. -/
theorem isCanonical_and_parse_print_attribute :
  let test : AttributeTest := ⟨"href", some "xlink", .dash, "a 'b'", some "i"⟩
  let a : Selector :=
    [[[.universal, .attribute test, .pseudo [.firstChild, .empty]]],
      [[.element "p"], [.universal, .id "1"]]]
  parse a.print = .ok a ∧ a.IsCanonical
  := by
  intro test a
  have hread : parse a.print = .ok a :=
    (isCanonical_and_parse_print_eq_iff.2 a).mpr ⟨by decide, by decide, by decide⟩
  exact ⟨hread, isCanonical_and_parse_print_eq_iff.1 _ a hread⟩

end Selector

end Hypertext
