import Hypertext.Html.Entity
import Hypertext.Proofs.Digits
import Hypertext.Proofs.Reader

/-!
# Encoded texts read back

`IsReference c ref` says that a text is a reference to a character, complete from its `&` to its
`;`, and by `entity_eq_ok_iff` these are the texts that `entity` reads.  So `decode` takes back
every way to encode a text character by character, among them `escapeText` and `escapeAttribute`,
and it leaves alone exactly the texts without a reference.  What is escaped holds none of the
characters that would end it.
-/

namespace Hypertext.Html

open Reader (Ahead Refuses)

/-! ### References -/

/-- The digits of a reference by number, which are hexadecimal after an `x`. -/
inductive WritesNumber (n : Nat) : List Char → Prop where
  | decimal {digits : List Char} (h : Text.Writes 10 n digits) : WritesNumber n digits
  | hexadecimal {x : Char} {digits : List Char} (hx : x ∈ ['x', 'X'])
      (h : Text.Writes 16 n digits) : WritesNumber n (x :: digits)

/-- A reference to a character, by its name or by its number. -/
inductive IsReference (c : Char) : List Char → Prop where
  | named {name : List Char} (h : (name, c) ∈ entities) : IsReference c ('&' :: (name ++ [';']))
  | numbered {digits : List Char} (h : WritesNumber c.toNat digits) :
      IsReference c ('&' :: '#' :: (digits ++ [';']))

/-- A number is read up to the sign that ends the reference. -/
theorem number_append {n : Nat} {digits : List Char} (h : WritesNumber n digits) (s : List Char) :
  number (digits ++ ';' :: s) = .ok (n, ';' :: s)
  := by
  cases h with
  | decimal h =>
    obtain ⟨hne, hdigits, rfl⟩ := Text.writes_decimal_iff.mp h
    have hx : Ahead ((fun c => decide (c = 'x') || decide (c = 'X')) · = false)
        (digits ++ ';' :: s) := by
      obtain ⟨d, ds, rfl⟩ := List.exists_cons_of_ne_nil hne
      apply Ahead.cons
      rw [Bool.or_eq_false_iff, decide_eq_false_iff_not, decide_eq_false_iff_not]
      constructor
      · rintro rfl
        cases hdigits 'x' (.head ds)
      · rintro rfl
        cases hdigits 'X' (.head ds)
    rw [number, Reader.or_of_refuses (Reader.refuses_satisfying hx).bind,
      Reader.bind_ok (Reader.run1_append hne hdigits (.cons (by decide)))]
    rfl
  | @hexadecimal x digits hx h =>
    obtain ⟨hne, hdigits, rfl⟩ := Text.writes_hexadecimal_iff.mp h
    have hmark : (decide (x = 'x') || decide (x = 'X')) = true := by
      simpa using hx
    apply Reader.or_of_ok
    rw [List.cons_append, Reader.bind_ok (Reader.satisfying_cons hmark),
      Reader.bind_ok (Reader.run1_append hne hdigits (.cons (by decide)))]
    rfl

/-- The number of a reference is written by the digits that are read. -/
theorem number_eq_ok {n : Nat} {s t : List Char} (h : number s = .ok (n, t)) :
  ∃ digits, WritesNumber n digits ∧ s = digits ++ t
  := by
  rcases Reader.or_eq_ok h with h | h
  · obtain ⟨x, u, hx, hrest⟩ := Reader.bind_eq_ok h
    obtain ⟨rfl, hmark⟩ := Reader.satisfying_eq_ok hx
    obtain ⟨digits, v, hdigits, hpure⟩ := Reader.bind_eq_ok hrest
    obtain ⟨rfl, hne, hall⟩ := Reader.run1_eq_ok hdigits
    obtain ⟨rfl, rfl⟩ := Prod.mk.inj (Except.ok.inj hpure)
    refine ⟨x :: digits, .hexadecimal ?_ ?_, rfl⟩
    · simpa using hmark
    · exact Text.writes_hexadecimal_iff.mpr ⟨hne, hall, rfl⟩
  · obtain ⟨digits, v, hdigits, hpure⟩ := Reader.bind_eq_ok h
    obtain ⟨rfl, hne, hall⟩ := Reader.run1_eq_ok hdigits
    obtain ⟨rfl, rfl⟩ := Prod.mk.inj (Except.ok.inj hpure)
    exact ⟨digits, .decimal (Text.writes_decimal_iff.mpr ⟨hne, hall, rfl⟩), rfl⟩

/-- The character with the number of a character is that character. -/
theorem characterOf_toNat (c : Char) (s : List Char) :
  characterOf c.toNat s = .ok (c, s)
  := by
  have hvalid : c.toNat.isValidChar := c.valid
  rw [characterOf, if_pos hvalid, c.ofNat_toNat]
  rfl

/-- The character with a number is the one that has it. -/
theorem characterOf_eq_ok {n : Nat} {c : Char} {s t : List Char}
    (h : characterOf n s = .ok (c, t)) :
  n = c.toNat ∧ t = s
  := by
  rw [characterOf] at h
  split at h
  · next hvalid =>
    obtain ⟨rfl, rfl⟩ := Prod.mk.inj (Except.ok.inj h)
    have hnumber : (Char.ofNat n).toNat = n := by
      rw [Char.ofNat, dif_pos hvalid]
      rfl
    exact ⟨hnumber.symm, rfl⟩
  · cases h

/-- The name of a reference that is read is one of the known names. -/
theorem namedEntity_eq_ok {c : Char} {s t : List Char} (h : namedEntity s = .ok (c, t)) :
  ∃ name, (name, c) ∈ entities ∧ s = name ++ t
  := by
  rw [namedEntity] at h
  split at h
  · next name d hfind =>
    obtain ⟨rfl, rfl⟩ := Prod.mk.inj (Except.ok.inj h)
    have hprefix := List.find?_some hfind
    obtain ⟨t, rfl⟩ := List.isPrefixOf_iff_prefix.mp hprefix
    use name, List.mem_of_find?_eq_some hfind
    rw [List.drop_left]
  · cases h

section

variable {c : Char} {name : List Char} (h : (name, c) ∈ entities)

include h

/-- None of the names starts like another one or like a number. -/
theorem namedEntity_append (s : List Char) :
  namedEntity (name ++ ';' :: s) = .ok (c, ';' :: s)
  := by
  simp only [entities, List.mem_cons, Prod.mk.injEq, List.not_mem_nil, or_false] at h
  rcases h with ⟨rfl, rfl⟩ | ⟨rfl, rfl⟩ | ⟨rfl, rfl⟩ | ⟨rfl, rfl⟩ | ⟨rfl, rfl⟩ | ⟨rfl, rfl⟩
  all_goals rfl

/-- A known name is no number. -/
theorem refuses_numericEntity (s : List Char) :
  Refuses numericEntity (name ++ s)
  := by
  have hstart : ∀ e ∈ entities, e.1 ≠ [] ∧ e.1.head? ≠ some '#' := by
    decide
  obtain ⟨hne, hhead⟩ := hstart (name, c) h
  obtain ⟨d, ds, rfl⟩ := List.exists_cons_of_ne_nil hne
  apply Refuses.bind
  apply Reader.refuses_char
  exact .cons fun hd => hhead (congrArg some hd)

end

/-- A reference is read as its character, whatever follows. -/
theorem entity_append {c : Char} {ref : List Char} (h : IsReference c ref) (s : List Char) :
  entity (ref ++ s) = .ok (c, s)
  := by
  cases h with
  | @named name h =>
    have hnamed := Reader.or_of_refuses (q := namedEntity) (refuses_numericEntity h (';' :: s))
    rw [List.cons_append, List.append_assoc, List.singleton_append, entity,
      Reader.bind_ok (Reader.char_cons '&'),
      Reader.bind_ok (hnamed.trans (namedEntity_append h s)), Reader.bind_ok (Reader.char_cons ';')]
    rfl
  | @numbered digits h =>
    have hnumeric : numericEntity ('#' :: (digits ++ ';' :: s)) = .ok (c, ';' :: s) := by
      rw [numericEntity, Reader.bind_ok (Reader.char_cons '#'),
        Reader.bind_ok (number_append h s), characterOf_toNat]
    rw [List.cons_append, List.cons_append, List.append_assoc, List.singleton_append, entity,
      Reader.bind_ok (Reader.char_cons '&'), Reader.bind_ok (Reader.or_of_ok hnumeric),
      Reader.bind_ok (Reader.char_cons ';')]
    rfl

/-- What is read as a reference is one. -/
theorem entity_eq_ok_iff {c : Char} {s t : List Char} :
  entity s = .ok (c, t) ↔ ∃ ref, IsReference c ref ∧ s = ref ++ t
  := by
  constructor
  · intro h
    obtain ⟨_, u, hampersand, hinside⟩ := Reader.bind_eq_ok h
    obtain rfl := Reader.char_eq_ok hampersand
    obtain ⟨d, v, hd, hend⟩ := Reader.bind_eq_ok hinside
    obtain ⟨_, w, hsemicolon, hpure⟩ := Reader.bind_eq_ok hend
    obtain rfl := Reader.char_eq_ok hsemicolon
    obtain ⟨rfl, rfl⟩ := Prod.mk.inj (Except.ok.inj hpure)
    rcases Reader.or_eq_ok hd with hd | hd
    · obtain ⟨_, x, hsharp, hnumber⟩ := Reader.bind_eq_ok hd
      obtain rfl := Reader.char_eq_ok hsharp
      obtain ⟨n, y, hn, hcharacter⟩ := Reader.bind_eq_ok hnumber
      obtain ⟨rfl, rfl⟩ := characterOf_eq_ok hcharacter
      obtain ⟨digits, hdigits, rfl⟩ := number_eq_ok hn
      refine ⟨_, .numbered hdigits, ?_⟩
      simp only [List.cons_append, List.append_assoc, List.nil_append]
    · obtain ⟨name, hname, rfl⟩ := namedEntity_eq_ok hd
      refine ⟨_, .named hname, ?_⟩
      simp only [List.cons_append, List.append_assoc, List.nil_append]
  · rintro ⟨ref, href, rfl⟩
    apply entity_append href

/-- A reference starts with an ampersand. -/
theorem refuses_entity {s : List Char} (h : Ahead (· ≠ '&') s) :
  Refuses entity s
  := by
  apply Refuses.bind
  apply Reader.refuses_char h

/-- No text but the empty one stands for the empty text. -/
theorem decode_ne_nil {s : List Char} (h : s ≠ []) :
  decode s ≠ []
  := by
  cases hentity : entity s with
  | ok p =>
    rw [decode_of_entity hentity]
    apply List.cons_ne_nil
  | error t =>
    obtain ⟨c, s, rfl⟩ := List.exists_cons_of_ne_nil h
    rw [decode_cons hentity]
    apply List.cons_ne_nil

/-! ### Encoded texts -/

/-- The ways to write a character so that it reads back: any but `&` as itself, and each by a
reference. -/
inductive Encodes (c : Char) : List Char → Prop where
  | itself (h : c ≠ '&') : Encodes c [c]
  | reference {ref : List Char} (h : IsReference c ref) : Encodes c ref

/-- A part that stands for a character is read as it, whatever comes after. -/
theorem Encodes.decode_append {c : Char} {part : List Char} (h : Encodes c part)
    (s : List Char) :
  decode (part ++ s) = c :: decode s
  := by
  cases h with
  | itself h =>
    obtain ⟨t, ht⟩ := refuses_entity (s := c :: s) (.cons h)
    apply decode_cons ht
  | reference h => apply decode_of_entity (entity_append h s)

/-- Parts that stand for characters are read as these. -/
theorem decode_flatten {cs : List Char} {parts : List (List Char)}
    (h : List.Forall₂ Encodes cs parts) :
  decode parts.flatten = cs
  := by
  induction h with
  | nil => apply decode_nil
  | cons hpart _ ih => rw [List.flatten_cons, hpart.decode_append, ih]

/-! ### Texts without references -/

/-- Decoding does not make a text longer. -/
theorem length_decode_le (s : List Char) :
  (decode s).length ≤ s.length
  := by
  fun_induction decode s with
  | case1 s c t h hshorter ih =>
    rw [List.length_cons]
    omega
  | case2 t h => apply Nat.le_refl
  | case3 c cs t h ih =>
    rw [List.length_cons, List.length_cons]
    omega

/-- A text with a reference at its front is longer than what it is read as. -/
theorem length_lt_of_entity {s t : List Char} {c : Char} (h : entity s = .ok (c, t)) :
  (decode s).length < s.length
  := by
  obtain ⟨ref, href, rfl⟩ := entity_eq_ok_iff.mp h
  have htwo : 2 ≤ ref.length := by
    cases href <;> simp
  have hle := length_decode_le t
  rw [decode_of_entity h, List.length_cons, List.length_append]
  omega

/-- Decoding leaves a text alone if and only if no end of it starts with a reference. -/
theorem decode_eq_self_iff_forall_suffix {s : List Char} :
  decode s = s ↔ ∀ t, t <:+ s → Refuses entity t
  := by
  induction s with
  | nil =>
    constructor
    · intro _ t ht
      rw [List.suffix_nil.mp ht]
      apply refuses_entity .nil
    · exact fun _ => decode_nil
  | cons c s ih =>
    cases hentity : entity (c :: s) with
    | ok p =>
      constructor
      · intro h
        have hlt := length_lt_of_entity hentity
        rw [h] at hlt
        exact absurd hlt (Nat.lt_irrefl _)
      · intro h
        exact absurd hentity ((h _ List.suffix_rfl).ne_ok p)
    | error u =>
      rw [decode_cons hentity, List.cons.injEq, eq_self_iff_true, true_and, ih]
      constructor
      · intro h t ht
        rcases List.suffix_cons_iff.mp ht with rfl | ht
        · exact ⟨u, hentity⟩
        · apply h t ht
      · intro h t ht
        apply h t (ht.trans (List.suffix_cons c s))

/-- A text is read as itself exactly if there is no reference in it. -/
theorem decode_eq_self_iff {s : List Char} :
  decode s = s ↔ ∀ c ref, IsReference c ref → ¬ref <:+: s
  := by
  rw [decode_eq_self_iff_forall_suffix]
  constructor
  · rintro h c ref href ⟨front, back, rfl⟩
    rw [List.append_assoc] at h
    apply (h (ref ++ back) (List.suffix_append front _)).ne_ok (c, back)
    apply entity_append href
  · intro h t ht
    cases hentity : entity t with
    | ok p =>
      obtain ⟨ref, href, rfl⟩ := entity_eq_ok_iff.mp hentity
      exact absurd ((List.prefix_append ref p.2).isInfix.trans ht.isInfix) (h p.1 ref href)
    | error u => exact ⟨u, hentity⟩

/-! ### Escaped characters -/

theorem encodes_ampersand :
  Encodes '&' "&amp;".toList
  := .reference (@IsReference.named _ ['a', 'm', 'p'] (by decide))

theorem encodes_apostrophe :
  Encodes '\'' "&#x27;".toList
  := .reference (.numbered (@WritesNumber.hexadecimal _ 'x' ['2', '7'] (by decide) ⟨0, by decide⟩))

/-- What is written for a character of a text stands for it. -/
theorem encodes_escapeTextChar (c : Char) :
  Encodes c (escapeTextChar c).toList
  := by
  fun_cases escapeTextChar c with
  | case1 => exact encodes_ampersand
  | case2 => exact encodes_apostrophe
  | case3 => exact .reference (@IsReference.named _ ['q', 'u', 'o', 't'] (by decide))
  | case4 => exact .reference (@IsReference.named _ ['l', 't'] (by decide))
  | case5 => exact .reference (@IsReference.named _ ['g', 't'] (by decide))
  | case6 _ hampersand =>
    rw [String.toList_singleton]
    exact .itself hampersand

/-- What is written for a character in a text holds none of the signs that end it. -/
theorem escapeTextChar_clean (c : Char) :
  ∀ d ∈ (escapeTextChar c).toList, d ∉ ['<', '>', '\'', '"']
  := by
  fun_cases escapeTextChar c with
  | case1 => exact Reader.forall_mem_of_all (by decide)
  | case2 => exact Reader.forall_mem_of_all (by decide)
  | case3 => exact Reader.forall_mem_of_all (by decide)
  | case4 => exact Reader.forall_mem_of_all (by decide)
  | case5 => exact Reader.forall_mem_of_all (by decide)
  | case6 _ hampersand hapostrophe hquote hless hgreater =>
    rw [String.toList_singleton]
    intro d hd
    rw [List.mem_singleton.mp hd]
    simp only [List.mem_cons, List.not_mem_nil, or_false, not_or]
    exact ⟨hless, hgreater, hapostrophe, hquote⟩

/-- What two replacements one after the other make of a character of a value.  The second one does
not see the `&` that it writes itself, and the first one writes nothing for it to replace. -/
def escapeAttributeChar (c : Char) : List Char :=
  if c = '&' then "&amp;".toList else if c = '\'' then "&#x27;".toList else [c]

/-- What is written for a character of a value stands for it. -/
theorem encodes_escapeAttributeChar (c : Char) :
  Encodes c (escapeAttributeChar c)
  := by
  rw [escapeAttributeChar]
  split
  · next h => exact h ▸ encodes_ampersand
  · next hampersand =>
    split
    · next h => exact h ▸ encodes_apostrophe
    · exact .itself hampersand

/-- No single quote is written for a character of a value. -/
theorem escapeAttributeChar_clean (c : Char) :
  ∀ d ∈ escapeAttributeChar c, d ≠ '\''
  := by
  rw [escapeAttributeChar]
  split
  · exact Reader.forall_mem_of_all (by decide)
  · split
    · exact Reader.forall_mem_of_all (by decide)
    · next hapostrophe =>
      intro d hd
      rw [List.mem_singleton.mp hd]
      apply hapostrophe

/-! ### Escaped texts -/

/-- Texts that are joined are one after the other. -/
theorem toList_join_map {α : Type} (write : α → String) (as : List α) :
  (String.join (as.map write)).toList = as.flatMap fun a => (write a).toList
  := by
  simp [List.flatMap_def, Function.comp_def]

/-- Replacing a character in a text is doing so at each of its characters. -/
theorem toList_replaceChar (c : Char) (text s : String) :
  (replaceChar c text s).toList = s.toList.flatMap fun d => if d = c then text.toList else [d]
  := by
  rw [replaceChar, toList_join_map]
  congr 1
  funext d
  split
  · rfl
  · apply String.toList_singleton

/-- The two replacements in a value come to one, made at each of its characters. -/
theorem toList_escapeAttribute (s : String) :
  (escapeAttribute s).toList = s.toList.flatMap escapeAttributeChar
  := by
  rw [escapeAttribute, toList_replaceChar, toList_replaceChar, List.flatMap_assoc]
  congr 1
  funext c
  rw [escapeAttributeChar]
  split
  · rfl
  · rw [List.flatMap_singleton]

/-- A text in which each character is encoded reads back. -/
theorem decode_flatMap {write : Char → List Char} (hwrite : ∀ c, Encodes c (write c))
    (cs : List Char) :
  decode (cs.flatMap write) = cs
  := by
  rw [List.flatMap_def]
  apply decode_flatten
  rw [List.forall₂_map_right_iff, List.forall₂_same]
  exact fun c _ => hwrite c

/-- What is written for a text is read as it. -/
theorem decode_escapeText (s : String) :
  decode (escapeText s).toList = s.toList
  := by
  rw [escapeText, toList_join_map]
  apply decode_flatMap encodes_escapeTextChar

/-- What is written for a value is read as it. -/
theorem decode_escapeAttribute (s : String) :
  decode (escapeAttribute s).toList = s.toList
  := by
  rw [toList_escapeAttribute]
  apply decode_flatMap encodes_escapeAttributeChar

/-- No bracket and no quote is written for a text. -/
theorem escapeText_clean (s : String) :
  ∀ c ∈ (escapeText s).toList, c ∉ ['<', '>', '\'', '"']
  := by
  intro c hc
  rw [escapeText, toList_join_map] at hc
  obtain ⟨d, -, hd⟩ := List.mem_flatMap.mp hc
  apply escapeTextChar_clean d c hd

/-- No single quote is written for a value. -/
theorem escapeAttribute_clean (s : String) :
  ∀ c ∈ (escapeAttribute s).toList, c ≠ '\''
  := by
  intro c hc
  rw [toList_escapeAttribute] at hc
  obtain ⟨d, -, hd⟩ := List.mem_flatMap.mp hc
  apply escapeAttributeChar_clean d c hd

/-- What is written for a text is written for its parts. -/
theorem escapeText_append (s t : String) :
  escapeText (s ++ t) = escapeText s ++ escapeText t
  := by
  rw [← String.toList_inj]
  simp [escapeText]

/-- Something is written for a text that is not empty. -/
theorem escapeText_ne_nil {s : String} (h : s ≠ "") :
  (escapeText s).toList ≠ []
  := by
  intro hnil
  have hs := decode_escapeText s
  rw [hnil, decode_nil] at hs
  apply h
  rw [← String.toList_inj, ← hs]
  rfl

/-- Decoding takes back every way to encode a text, the two ways to escape one among them; what is
escaped holds none of the signs that would end it; and exactly the texts without a reference are
left alone. -/
theorem decode_of_encoded :
  (∀ cs parts, List.Forall₂ Encodes cs parts → decode parts.flatten = cs)
    ∧ (∀ s : String, decode (escapeText s).toList = s.toList
      ∧ (∀ c ∈ (escapeText s).toList, c ∉ ['<', '>', '\'', '"']))
    ∧ (∀ s : String, decode (escapeAttribute s).toList = s.toList
      ∧ '\'' ∉ (escapeAttribute s).toList)
    ∧ ∀ s, decode s = s ↔ ∀ c ref, IsReference c ref → ¬ref <:+: s
  := by
  refine ⟨?_, ?_, ?_, ?_⟩
  · intro cs parts h
    apply decode_flatten h
  · intro s
    exact ⟨decode_escapeText s, escapeText_clean s⟩
  · intro s
    exact ⟨decode_escapeAttribute s, fun h => escapeAttribute_clean s _ h rfl⟩
  · intro s
    apply decode_eq_self_iff

/-- What a reference to `&` starts is not decoded again, and what names no character, has no end or
has a number that no character has is no reference. -/
theorem decode_of_encoded_twice :
  decode "&amp;lt;&#0060;&#X0041;&nbsp;'".toList = "&lt;<A\u00a0'".toList
    ∧ ∀ c ref, IsReference c ref →
      ¬ref <:+: "R&D &nosuch; &lt &#xD800; &#1114112; &#4294967361;".toList
  := by
  have hdecimal : Encodes '<' "&#0060;".toList :=
    .reference (.numbered (@WritesNumber.decimal _ ['0', '0', '6', '0'] ⟨2, by decide⟩))
  have hhexadecimal : Encodes 'A' "&#X0041;".toList :=
    .reference (.numbered
      (@WritesNumber.hexadecimal _ 'X' ['0', '0', '4', '1'] (by decide) ⟨2, by decide⟩))
  have hname : Encodes '\xa0' "&nbsp;".toList :=
    .reference (@IsReference.named _ ['n', 'b', 's', 'p'] (by decide))
  constructor
  · exact decode_of_encoded.1 ['&', 'l', 't', ';', '<', 'A', '\xa0', '\''] _
      (.cons encodes_ampersand (.cons (.itself (by decide)) (.cons (.itself (by decide))
        (.cons (.itself (by decide)) (.cons hdecimal (.cons hhexadecimal (.cons hname
          (.cons (.itself (by decide)) .nil))))))))
  · exact (decode_of_encoded.2.2.2 _).mp (by decide +kernel)

end Hypertext.Html
