import Hypertext.Proofs.Selector.Attribute

/-!
# Simple selectors read back

A simple selector is printed in parts: pseudo-classes that stand next to each other are written
one by one, everything else is one part.  A canonical part reads back before anything that ends
it, with U+FFFD for U+0000, unless one of its names is a hyphen alone: then it is refused.
-/

namespace Hypertext.Selector

open Grammar
open Reader (Ahead Refuses Spaceless)

/-! ### The ends of parts -/

/-- The characters that may follow a part of a compound selector. -/
def delimiters : List Char := ['#', '.', '[', ':', ' ', ',']

/-- The text does not go on with the part before it. -/
abbrev Delimited (s : List Char) : Prop := Ahead (· ∈ delimiters) s

theorem Delimited.nameless {s : List Char} (h : Delimited s) :
  Nameless s
  := by
  apply h.of_all
  decide

/-- The first characters of the parts that are not the name of an element. -/
def subclassSigns : List Char := ['#', '.', '[', ':']

/-! ### Parts -/

namespace Simple

/-- The parts in which a simple selector is written. -/
def parts : Simple → List Simple
  | .pseudo kinds => kinds.map fun kind => .pseudo [kind]
  | s => [s]

/-- A simple selector is printed part by part. -/
theorem print_toList (p : Simple) :
  p.print.toList = p.parts.flatMap fun q => q.print.toList
  := by
  match p with
  | .pseudo kinds => simp [print, parts, String.toList_join, List.flatMap_map]
  | .element _ | .universal | .className _ | .id _ | .attribute _ => simp [parts]

/-- The parts of a simple selector come back as the parts do. -/
theorem parts_cleared (p : Simple) :
  p.cleared.parts = p.parts.map cleared
  := by
  match p with
  | .pseudo kinds => simp [parts, cleared]
  | .element _ | .universal | .className _ | .id _ | .attribute _ => rfl

theorem exists_kind {kinds : List PseudoClass} (h : (pseudo kinds).parts = [pseudo kinds]) :
  ∃ kind, kinds = [kind]
  := by
  match kinds, h with
  | [kind], _ => exact ⟨kind, rfl⟩

/-- A part of a simple selector is written as one, and has what the selector has. -/
theorem of_mem_parts {p q : Simple} (h : q ∈ p.parts) :
  q.parts = [q] ∧ (p.IsCanonical → q.IsCanonical) ∧ q.isType = p.isType
    ∧ q.identifiers = p.identifiers
  := by
  match p with
  | .pseudo kinds =>
    obtain ⟨kind, -, rfl⟩ := List.mem_map.mp h
    exact ⟨rfl, fun _ => nofun, rfl, rfl⟩
  | .element _ | .universal | .className _ | .id _ | .attribute _ =>
    obtain rfl := List.mem_singleton.mp h
    exact ⟨rfl, fun hp => hp, rfl, rfl⟩

/-- What has a name that is an identifier is one part. -/
theorem parts_of_mem_identifiers {s : Simple} {text : String} (h : text ∈ s.identifiers) :
  s.parts = [s] ∧ s ≠ .universal
  := by
  match s with
  | .element _ | .className _ | .attribute _ => exact ⟨rfl, nofun⟩

/-- A type in which a name is a hyphen is that hyphen. -/
theorem eq_hyphen_of_isType {s : Simple} (htype : s.isType = true) (h : "-" ∈ s.identifiers) :
  s = .element "-"
  := by
  match s with
  | .element name => rw [List.mem_singleton.mp h]

/-- The sign in front of a simple selector; a type has none. -/
def sign? : Simple → Option Char
  | .element _ => none
  | .universal => none
  | .className _ => some '.'
  | .id _ => some '#'
  | .attribute _ => some '['
  | .pseudo _ => some ':'

/-- Every simple selector but a type has a sign. -/
theorem exists_sign {p : Simple} (h : p.isType = false) :
  ∃ c ∈ subclassSigns, p.sign? = some c
  := by
  match p with
  | .className _ | .id _ | .attribute _ | .pseudo _ => exact ⟨_, by decide, rfl⟩

/-- A part with a sign starts with it. -/
theorem print_sign {p : Simple} {c : Char} (h : p.sign? = some c) (hpart : p.parts = [p]) :
  ∃ u, p.print.toList = c :: u
  := by
  match p with
  | .className name =>
    obtain rfl := Option.some.inj h
    exact ⟨_, String.toList_append⟩
  | .id name =>
    obtain rfl := Option.some.inj h
    exact ⟨_, String.toList_append⟩
  | .attribute test =>
    obtain rfl := Option.some.inj h
    exact ⟨test.print.toList ++ [']'], by simp [print]⟩
  | .pseudo kinds =>
    obtain rfl := Option.some.inj h
    obtain ⟨kind, rfl⟩ := exists_kind hpart
    exact ⟨kind.name.toList, by simp [print]⟩

theorem ahead_print {p : Simple} {c : Char} {test : Char → Prop} (h : p.sign? = some c)
    (hpart : p.parts = [p]) (hc : test c) (s : List Char) :
  Ahead test (p.print.toList ++ s)
  := by
  obtain ⟨u, hu⟩ := print_sign h hpart
  rw [hu]
  apply Ahead.cons hc

end Simple

/-! ### Reading parts -/

/-- A reader of parts with a sign stops before any other character. -/
theorem refuses_sign {α : Type} {sign : Char} (f : Unit → Reader α) {s : List Char}
    (h : Ahead (· ≠ sign) s) :
  Refuses (Reader.char sign >>= f) s
  := Refuses.bind (Reader.refuses_char h)

/-- No simple selector is read where no sign is next. -/
theorem refuses_subclassSelector {s : List Char} (h : Ahead (· ∉ subclassSigns) s) :
  Refuses subclassSelector s
  := by
  have hsign : ∀ c ∈ subclassSigns, Ahead (· ≠ c) s := by
    intro c hc
    apply h.mono
    rintro d hd rfl
    apply hd hc
  apply Refuses.or (Refuses.or (Refuses.or _ _) _) _
  · apply refuses_sign _ (hsign '#' (by decide))
  · apply refuses_sign _ (hsign '.' (by decide))
  · apply refuses_sign _ (hsign '[' (by decide))
  · apply refuses_sign _ (hsign ':' (by decide))

section

variable {s : List Char} (hs : Delimited s)

include hs

theorem idSelector_print {text : String} (h : text ≠ "") :
  idSelector ((Simple.id text).print.toList ++ s) = .ok (.id (clearedText text), s)
  := by
  have hprint : (Simple.id text).print.toList ++ s = '#' :: ((printName text).toList ++ s) := by
    simp [Simple.print]
  rw [hprint, idSelector, Reader.bind_ok (Reader.char_cons '#'),
    Reader.bind_ok (name_printName h hs.nameless)]
  rfl

/-- A class other than a hyphen is read back with U+FFFD for U+0000. -/
theorem classSelector_print {text : String} (h : text ≠ "") (hhyphen : text ≠ "-") :
  classSelector ((Simple.className text).print.toList ++ s) = .ok (.className (clearedText text), s)
  := by
  have hprint : (Simple.className text).print.toList ++ s
      = '.' :: ((printIdentifier text).toList ++ s) := by
    simp [Simple.print]
  rw [hprint, classSelector, Reader.bind_ok (Reader.char_cons '.'),
    Reader.bind_ok (identifier_printIdentifier h hhyphen hs.nameless)]
  rfl

/-- A class that is a hyphen is not read. -/
theorem refuses_classSelector_hyphen :
  Refuses classSelector ((Simple.className "-").print.toList ++ s)
  := by
  apply Reader.refuses_bind_of_ok (Reader.char_cons '.')
  apply Refuses.bind
  apply refuses_identifier_hyphen hs.nameless

omit hs in
/-- A test is read back with its brackets, unless a name in it is a hyphen. -/
theorem attributeSelector_print {t : AttributeTest} (ht : t.IsCanonical)
    (hhyphen : "-" ∉ (Simple.attribute t).identifiers) :
  ∃ w, attributeSelector ((Simple.attribute t).print.toList ++ s) = .ok (w, s)
    ∧ w.check = .ok (.attribute t.cleared)
  := by
  have hprint : (Simple.attribute t).print.toList ++ s = '[' :: (t.print.toList ++ ']' :: s) := by
    simp [Simple.print]
  obtain ⟨w, hw, hcheck⟩ := attributeTest_print ht s hhyphen
  use w
  constructor
  · rw [hprint, attributeSelector, Reader.bind_ok (Reader.char_cons '['), Reader.bind_ok hw,
      Reader.bind_ok (Reader.char_cons ']')]
    rfl
  · apply hcheck

omit hs in
/-- A test with its brackets is not read if a name in it is a hyphen. -/
theorem refuses_attributeSelector_hyphen {t : AttributeTest} (ht : t.IsCanonical)
    (hhyphen : "-" ∈ (Simple.attribute t).identifiers) :
  Refuses attributeSelector ((Simple.attribute t).print.toList ++ s)
  := by
  have hprint : (Simple.attribute t).print.toList ++ s = '[' :: (t.print.toList ++ ']' :: s) := by
    simp [Simple.print]
  rw [hprint]
  apply Reader.refuses_bind_of_ok (Reader.char_cons '[')
  apply Refuses.bind
  apply refuses_attributeTest ht s hhyphen

theorem pseudoSelector_print (kind : PseudoClass) :
  pseudoSelector ((Simple.pseudo [kind]).print.toList ++ s)
    = .ok (.pseudo false kind.name none, s)
  := by
  have hname : printIdentifier kind.name = kind.name ∧ kind.name ≠ "" ∧ kind.name ≠ "-"
      ∧ clearedText kind.name = kind.name := by
    cases kind <;> decide
  obtain ⟨hident, hne, hhyphen, hcleared⟩ := hname
  have hread := identifier_printIdentifier hne hhyphen hs.nameless
  rw [hident, hcleared] at hread
  have hprint : (Simple.pseudo [kind]).print.toList ++ s = ':' :: (kind.name.toList ++ s) := by
    simp [Simple.print]
  have hsecond : (Reader.char ':').option (kind.name.toList ++ s)
      = .ok (none, kind.name.toList ++ s) := by
    apply Reader.option_of_refuses
    apply Reader.refuses_char
    cases kind <;> exact .cons (by decide)
  have hargument : argument.option s = .ok (none, s) := by
    apply Reader.option_of_refuses
    apply refuses_sign
    apply hs.of_all
    decide
  rw [hprint, pseudoSelector, Reader.bind_ok (Reader.char_cons ':'), Reader.bind_ok hsecond,
    Reader.bind_ok hread, Reader.bind_ok hargument]
  rfl

/-- A part that is not the name of an element reads back, unless a name in it is a hyphen. -/
theorem subclassSelector_print {p : Simple} (hp : p.IsCanonical) (htype : p.isType = false)
    (hpart : p.parts = [p]) (hhyphen : "-" ∉ p.identifiers) :
  ∃ w, subclassSelector (p.print.toList ++ s) = .ok (w, s) ∧ w.check = .ok p.cleared
  := by
  match p with
  | .id text =>
    have hread := idSelector_print hs hp
    exact ⟨_, Reader.or_of_ok (Reader.or_of_ok (Reader.or_of_ok hread)), rfl⟩
  | .className text =>
    have hne : text ≠ "-" := by
      rintro rfl
      apply hhyphen (.head [])
    have hid : Refuses idSelector ((Simple.className text).print.toList ++ s) :=
      refuses_sign _ (Simple.ahead_print rfl hpart (by decide) s)
    have hread := (Reader.or_of_refuses hid).trans (classSelector_print hs hp hne)
    exact ⟨_, Reader.or_of_ok (Reader.or_of_ok hread), rfl⟩
  | .attribute test =>
    obtain ⟨w, hw, hcheck⟩ := attributeSelector_print (s := s) hp hhyphen
    have hid : Refuses idSelector ((Simple.attribute test).print.toList ++ s) :=
      refuses_sign _ (Simple.ahead_print rfl hpart (by decide) s)
    have hclass : Refuses classSelector ((Simple.attribute test).print.toList ++ s) :=
      refuses_sign _ (Simple.ahead_print rfl hpart (by decide) s)
    have hread := (Reader.or_of_refuses (hid.or hclass)).trans hw
    exact ⟨w, Reader.or_of_ok hread, hcheck⟩
  | .pseudo kinds =>
    have hid : Refuses idSelector ((Simple.pseudo kinds).print.toList ++ s) :=
      refuses_sign _ (Simple.ahead_print rfl hpart (by decide) s)
    have hclass : Refuses classSelector ((Simple.pseudo kinds).print.toList ++ s) :=
      refuses_sign _ (Simple.ahead_print rfl hpart (by decide) s)
    have hattribute : Refuses attributeSelector ((Simple.pseudo kinds).print.toList ++ s) :=
      refuses_sign _ (Simple.ahead_print rfl hpart (by decide) s)
    obtain ⟨kind, rfl⟩ := Simple.exists_kind hpart
    use .pseudo false kind.name none
    constructor
    · have hothers := (hid.or hclass).or hattribute
      exact (Reader.or_of_refuses hothers).trans (pseudoSelector_print hs kind)
    · rw [WrittenSimple.check, PseudoClass.ofName?_name]
      rfl

/-- A part that is not the name of an element is refused if a name in it is a hyphen. -/
theorem refuses_subclassSelector_hyphen {p : Simple} (hp : p.IsCanonical)
    (htype : p.isType = false) (hpart : p.parts = [p]) (hhyphen : "-" ∈ p.identifiers) :
  Refuses subclassSelector (p.print.toList ++ s)
  := by
  match p with
  | .className text =>
    obtain rfl := List.mem_singleton.mp hhyphen
    apply Refuses.or (Refuses.or (Refuses.or _ _) _) _
    · apply refuses_sign _ (Simple.ahead_print rfl hpart (by decide) s)
    · apply refuses_classSelector_hyphen hs
    · apply refuses_sign _ (Simple.ahead_print rfl hpart (by decide) s)
    · apply refuses_sign _ (Simple.ahead_print rfl hpart (by decide) s)
  | .attribute test =>
    apply Refuses.or (Refuses.or (Refuses.or _ _) _) _
    · apply refuses_sign _ (Simple.ahead_print rfl hpart (by decide) s)
    · apply refuses_sign _ (Simple.ahead_print rfl hpart (by decide) s)
    · apply refuses_attributeSelector_hyphen hp hhyphen
    · apply refuses_sign _ (Simple.ahead_print rfl hpart (by decide) s)

end

/-! ### Reading types -/

/-- No type is read where a sign is next. -/
theorem refuses_typeSelector {s : List Char} (h : Ahead (· ∈ subclassSigns) s) :
  Refuses typeSelector s
  := by
  apply Refuses.or
  · apply refuses_sign
    apply h.of_all
    decide
  · apply Refuses.bind
    apply refuses_identifier
    apply h.of_all
    decide

section

variable {s : List Char} (hs : Delimited s)

include hs

/-- A type reads back, unless it is a hyphen. -/
theorem typeSelector_print {p : Simple} (hp : p.IsCanonical) (htype : p.isType = true)
    (hhyphen : "-" ∉ p.identifiers) :
  ∃ w, typeSelector (p.print.toList ++ s) = .ok (w, s) ∧ w.check = .ok p.cleared
  := by
  match p with
  | .universal =>
    use .universal
    constructor
    · apply Reader.or_of_ok
      apply Reader.bind_ok (Reader.char_cons '*')
    · rfl
  | .element text =>
    have hne : text ≠ "-" := by
      rintro rfl
      apply hhyphen (.head [])
    have hread := identifier_printIdentifier hp hne hs.nameless
    have hstar : Refuses (do Reader.char '*'; return WrittenSimple.universal)
        ((printIdentifier text).toList ++ s) := by
      apply refuses_sign
      apply (ahead_identifier hp s).mono
      rintro c (rfl | hc)
      · decide
      · rintro rfl
        cases hc
    use .element (clearedText text)
    constructor
    · rw [Simple.print, typeSelector, Reader.or_of_refuses hstar, Reader.bind_ok hread]
      rfl
    · rfl

/-- A type that is a hyphen is not read. -/
theorem refuses_typeSelector_hyphen :
  Refuses typeSelector ((Simple.element "-").print.toList ++ s)
  := by
  apply Refuses.or
  · apply refuses_sign _ (.cons (by decide))
  · apply Refuses.bind
    apply refuses_identifier_hyphen hs.nameless

end

end Hypertext.Selector
