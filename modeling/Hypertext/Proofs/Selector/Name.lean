import Hypertext.Proofs.Digits
import Hypertext.Proofs.Reader
import Hypertext.Proofs.Selector.Cleared
import Hypertext.Selector.Grammar
import Hypertext.Selector.Printer

/-!
# Names read back

Printing a name escapes what would end it or change its meaning, so that `identifier`, `name` and
`string` read it back to its end.  U+0000 does not come back, because the escape with the number
zero stands for U+FFFD.  And one name is not read at all: a hyphen alone is printed as it is, which
is no identifier.
-/

namespace Hypertext.Selector

open Grammar
open Reader (Ahead Refuses)

/-! ### Escapes -/

/-- The number of a character is read as the character, but that of U+0000 as U+FFFD. -/
theorem charOfNumber_toNat (c : Char) :
  charOfNumber c.toNat = clearedChar c
  := by
  have hzero : c.toNat = 0 ↔ c = '\x00' := by
    rw [← Char.toNat_inj]
    rfl
  have hvalid : c.toNat.isValidChar := c.valid
  by_cases h : c = '\x00'
  · simp [charOfNumber, clearedChar, h]
  · simp [charOfNumber, clearedChar, hzero, h, hvalid]

theorem isAlphanum_of_isHexDigit {c : Char} (h : Text.isHexDigit c) :
  c.isAlphanum
  := by
  delta Text.isHexDigit Char.isDigit at h
  delta Char.isAlphanum Char.isAlpha Char.isUpper Char.isLower Char.isDigit
  simp only [Bool.or_eq_true, Bool.and_eq_true, decide_eq_true_eq, Char.le_def,
    UInt32.le_iff_toNat_le, Char.reduceVal, UInt32.reduceToNat, ge_iff_le] at h ⊢
  omega

theorem length_toDigits_toNat_le (c : Char) :
  (Nat.toDigits 16 c.toNat).length ≤ 6
  := by
  rw [Nat.length_toDigits_le_iff (by decide) (by decide)]
  have hvalid : c.toNat.isValidChar := c.valid
  simp only [Nat.isValidChar] at hvalid
  omega

/-- Up to six hexadecimal digits are read, up to what is none. -/
theorem hexDigits_append {digits s : List Char} (hne : digits ≠ []) (hlength : digits.length ≤ 6)
    (hdigits : ∀ d ∈ digits, Text.isHexDigit d) (hs : Ahead (Text.isHexDigit · = false) s) :
  hexDigits (digits ++ s) = .ok (digits, s)
  := by
  have hstop : (s.take (6 - digits.length)).takeWhile Text.isHexDigit = [] := by
    cases hs with
    | nil => simp
    | cons hc => cases 6 - digits.length <;> simp [hc]
  have htake : ((digits ++ s).take 6).takeWhile Text.isHexDigit = digits := by
    rw [List.take_append, List.take_of_length_le hlength, List.takeWhile_append_of_pos hdigits,
      hstop, List.append_nil]
  simp only [hexDigits, htake]
  rw [if_neg (by simpa using hne), List.drop_left]

theorem isHexDigit_of_endsDigits {c : Char} (h : endsDigits c) :
  Text.isHexDigit c = false
  := by
  simp only [endsDigits, Reader.isSpace, Bool.or_eq_true, decide_eq_true_eq] at h
  rcases h with (((rfl | rfl) | rfl) | rfl) | rfl <;> decide

/-- An escape starts with a backslash. -/
theorem refuses_escape {s : List Char} (h : Ahead (· ≠ '\\') s) :
  Refuses escape s
  := by
  apply Refuses.bind
  apply Reader.refuses_char h

/-- A backslash makes any character but a hexadecimal digit stand for itself. -/
theorem escape_cons {c : Char} (h : Text.isHexDigit c = false) (s : List Char) :
  escape ('\\' :: c :: s) = .ok (c, s)
  := by
  have hdigits : Refuses hexDigits (c :: s) := by
    use c :: s
    simp [hexDigits, h]
  have hpoint : Refuses codePoint (c :: s) := hdigits.bind
  rw [escape, Reader.bind_ok (Reader.char_cons '\\'), Reader.or_of_refuses hpoint]
  apply Reader.satisfying_cons rfl

theorem printNumber_toList (c : Char) (s : List Char) :
  (printNumber c).toList ++ s = '\\' :: (Nat.toDigits 16 c.toNat ++ ' ' :: s)
  := by
  simp [printNumber, Text.hexadecimal]

/-- Up to six digits that write a number are an escape, and so is the one space after them. -/
theorem escape_digits {n : Nat} {digits : List Char} {space : Char}
    (hdigits : Text.Writes 16 n digits) (hlength : digits.length ≤ 6) (hspace : endsDigits space)
    (s : List Char) :
  escape ('\\' :: (digits ++ space :: s)) = .ok (charOfNumber n, s)
  := by
  obtain ⟨hne, hhex, rfl⟩ := Text.writes_hexadecimal_iff.mp hdigits
  have hread : hexDigits (digits ++ space :: s) = .ok (digits, space :: s) :=
    hexDigits_append hne hlength hhex (.cons (isHexDigit_of_endsDigits hspace))
  have hend : (Reader.satisfying endsDigits).option (space :: s) = .ok (some space, s) :=
    Reader.option_of_ok (Reader.satisfying_cons hspace)
  have hpoint : codePoint (digits ++ space :: s)
      = .ok (charOfNumber (Text.numberOf 16 digits), s) := by
    rw [codePoint, Reader.bind_ok hread, Reader.bind_ok hend]
    rfl
  rw [escape, Reader.bind_ok (Reader.char_cons '\\'), Reader.or_of_ok hpoint]

/-- An escape by number is read as its character, with U+FFFD for U+0000. -/
theorem escape_printNumber (c : Char) (s : List Char) :
  escape ((printNumber c).toList ++ s) = .ok (clearedChar c, s)
  := by
  rw [printNumber_toList, ← charOfNumber_toNat]
  apply escape_digits (Text.writes_toDigits 16 c.toNat) (length_toDigits_toNat_le c) (by decide)

/-! ### Characters of names -/

/-- A reader that takes an escape, or a character that stands for itself. -/
abbrev escapeOr (p : Char → Bool) : Reader Char := escape.or (Reader.satisfying p)

theorem escapeOr_printNumber (p : Char → Bool) (c : Char) (s : List Char) :
  escapeOr p ((printNumber c).toList ++ s) = .ok (clearedChar c, s)
  := Reader.or_of_ok (escape_printNumber c s)

/-- A character that passes the test stands for itself. -/
theorem escapeOr_cons {p : Char → Bool} {c : Char} (hp : p c = true) (hc : c ≠ '\\')
    (s : List Char) :
  escapeOr p (c :: s) = .ok (c, s)
  := by
  rw [escapeOr, Reader.or_of_refuses (refuses_escape (Ahead.cons hc))]
  apply Reader.satisfying_cons hp

/-- Neither an escape nor a character is read where none is next. -/
theorem refuses_escapeOr {p : Char → Bool} {s : List Char}
    (h : Ahead (fun c => c ≠ '\\' ∧ p c = false) s) :
  Refuses (escapeOr p) s
  := by
  apply Refuses.or
  · apply refuses_escape (h.mono fun _ hc => hc.1)
  · apply Reader.refuses_satisfying (h.mono fun _ hc => hc.2)

theorem clearedChar_of_not_isControl {c : Char} (h : isControl c = false) :
  clearedChar c = c
  := by
  rw [clearedChar_eq_self_iff]
  rintro rfl
  cases h

theorem ne_backslash_of_isNameChar {c : Char} (h : isNameChar c = true) :
  c ≠ '\\'
  := by
  rintro rfl
  cases h

theorem isHexDigit_of_not_isNameChar {c : Char} (h : isNameChar c = false) :
  Text.isHexDigit c = false
  := by
  rw [Bool.eq_false_iff]
  intro hhex
  have halphanum := isAlphanum_of_isHexDigit hhex
  simp [isNameChar, halphanum] at h

/-- A character is printed as its number, as itself, or after a backslash. -/
theorem printNameChar_cases (c : Char) :
  printNameChar c = printNumber c
    ∨ printNameChar c = String.singleton c ∧ isNameChar c = true ∧ isControl c = false
    ∨ printNameChar c = "\\" ++ String.singleton c ∧ isNameChar c = false
      ∧ isControl c = false
  := by
  have hname : isNameChar c = (c.isAlphanum || c = '-' || c = '_' || 0x80 ≤ c.toNat) := by
    rw [isNameChar, Bool.or_right_comm c.isAlphanum]
  rw [printNameChar]
  split
  · left
    rfl
  · next hcontrol =>
    right
    rw [Bool.not_eq_true] at hcontrol
    split
    · next h =>
      left
      exact ⟨rfl, hname.trans (by simpa using h), hcontrol⟩
    · next h =>
      right
      exact ⟨rfl, hname.trans (by simpa using h), hcontrol⟩

theorem escapeOr_printNameChar {p : Char → Bool} {c : Char} (hp : isNameChar c → p c)
    (s : List Char) :
  escapeOr p ((printNameChar c).toList ++ s) = .ok (clearedChar c, s)
  := by
  rcases printNameChar_cases c with h | ⟨h, hname, hcontrol⟩ | ⟨h, hname, hcontrol⟩
  · rw [h]
    apply escapeOr_printNumber
  · rw [h, clearedChar_of_not_isControl hcontrol, String.toList_singleton]
    apply escapeOr_cons (hp hname) (ne_backslash_of_isNameChar hname) s
  · rw [h, clearedChar_of_not_isControl hcontrol, String.toList_append, String.toList_singleton]
    apply Reader.or_of_ok (escape_cons (isHexDigit_of_not_isNameChar hname) s)

/-! ### Names -/

/-- The text does not go on with a character of a name. -/
abbrev Nameless (s : List Char) : Prop := Ahead (fun c => c ≠ '\\' ∧ isNameChar c = false) s

/-- What is printed for a character of a name is read as it, with U+FFFD for U+0000. -/
theorem nameChar_printNameChar (c : Char) (s : List Char) :
  nameChar ((printNameChar c).toList ++ s) = .ok (clearedChar c, s)
  := escapeOr_printNameChar id s

/-- What is printed for the characters of a name is read as them, with U+FFFD for U+0000. -/
theorem many_nameChar {s : List Char} (hs : Nameless s) (cs : List Char) :
  Reader.many nameChar (cs.flatMap (fun c => (printNameChar c).toList) ++ s)
    = .ok (cs.map clearedChar, s)
  := Reader.many_flatMap nameChar_printNameChar (refuses_escapeOr hs) cs

/-- A name that is not empty reads back. -/
theorem name_printName {text : String} {s : List Char} (h : text ≠ "") (hs : Nameless s) :
  name ((printName text).toList ++ s) = .ok (clearedText text, s)
  := by
  have hprint : (printName text).toList
      = text.toList.flatMap fun c => (printNameChar c).toList := by
    rw [printName, String.toList_join, List.flatMap_map]
  obtain ⟨c, cs, hcs⟩ := List.exists_cons_of_ne_nil (mt String.toList_eq_nil_iff.mp h)
  have hfirst := nameChar_printNameChar c (cs.flatMap (fun c => (printNameChar c).toList) ++ s)
  have hmany := many_nameChar hs (c :: cs)
  rw [List.flatMap_cons, List.append_assoc] at hmany
  rw [hprint, hcs, List.flatMap_cons, List.append_assoc, name,
    Reader.bind_ok ((Reader.many1_eq_many hfirst).trans hmany), clearedText, hcs]
  rfl

/-! ### Identifiers -/

theorem nameStart_printStartChar {c : Char} (h : c ≠ '-') (s : List Char) :
  nameStart ((printStartChar c).toList ++ s) = .ok (clearedChar c, s)
  := by
  rw [printStartChar]
  split
  · apply escapeOr_printNumber isNameStart c s
  · next hdigit =>
    apply escapeOr_printNameChar
    intro hname
    simpa [isNameChar, isNameStart, Char.isAlphanum, hdigit, h] using hname

/-- The text of a character starts with a backslash or is that character. -/
theorem printStartChar_head (c : Char) :
  ∃ d u, (printStartChar c).toList = d :: u ∧ (d = '\\' ∨ d = c ∧ isNameChar c = true)
  := by
  rw [printStartChar]
  split
  · exact ⟨_, _, (List.append_nil _).symm.trans (printNumber_toList c []), .inl rfl⟩
  · rcases printNameChar_cases c with h | ⟨h, hname, -⟩ | ⟨h, -, -⟩
    · exact ⟨_, _, h ▸ (List.append_nil _).symm.trans (printNumber_toList c []), .inl rfl⟩
    · exact ⟨c, [], h ▸ String.toList_singleton c, .inr ⟨rfl, hname⟩⟩
    · exact ⟨'\\', [c], by simp [h], .inl rfl⟩

theorem nameStart_after_hyphen (c : Char) (s : List Char) :
  nameStart ((if c = '-' then "\\-" else printStartChar c).toList ++ s) = .ok (clearedChar c, s)
  := by
  split
  · next h =>
    subst h
    apply Reader.or_of_ok (escape_cons (by decide) s)
  · next h => exact nameStart_printStartChar h s

/-- Without a hyphen in front an identifier starts as a name may. -/
theorem identifier_of_not_hyphen {s t u : List Char} {c : Char} {cs : List Char}
    (hs : Ahead (· ≠ '-') s) (hstart : nameStart s = .ok (c, t))
    (hrest : Reader.many nameChar t = .ok (cs, u)) :
  identifier s = .ok (String.ofList (c :: cs), u)
  := by
  have hnone : (Reader.satisfying (· = '-')).option s = .ok (none, s) := by
    apply Reader.option_of_refuses
    apply Reader.refuses_satisfying
    apply hs.mono fun d hd => by simpa using hd
  rw [identifier, Reader.bind_ok hnone, Reader.bind_ok hstart, Reader.bind_ok hrest]
  rfl

/-- After a hyphen an identifier goes on as it may start. -/
theorem identifier_of_hyphen {s t u : List Char} {c : Char} {cs : List Char}
    (hstart : nameStart s = .ok (c, t)) (hrest : Reader.many nameChar t = .ok (cs, u)) :
  identifier ('-' :: s) = .ok (String.ofList ('-' :: c :: cs), u)
  := by
  have hsome : (Reader.satisfying (· = '-')).option ('-' :: s) = .ok (some '-', s) :=
    Reader.option_of_ok (Reader.satisfying_cons (by decide))
  rw [identifier, Reader.bind_ok hsome, Reader.bind_ok hstart, Reader.bind_ok hrest]
  rfl

theorem ahead_printStartChar {c : Char} (h : c ≠ '-') (s : List Char) :
  Ahead (· ≠ '-') ((printStartChar c).toList ++ s)
  := by
  obtain ⟨d, u, hu, hd⟩ := printStartChar_head c
  rw [hu]
  apply Ahead.cons
  rcases hd with rfl | ⟨rfl, -⟩
  · decide
  · apply h

/-- What is printed for an identifier other than a hyphen is read as it, with U+FFFD for U+0000. -/
theorem identifier_chars {cs : List Char} {s : List Char} (hne : cs ≠ []) (hhyphen : cs ≠ ['-'])
    (hs : Nameless s) :
  identifier ((printIdentifierChars cs).flatMap String.toList ++ s)
    = .ok (String.ofList (cs.map clearedChar), s)
  := by
  match cs with
  | [c] =>
    have hc : c ≠ '-' := by
      rintro rfl
      apply hhyphen rfl
    rw [printIdentifierChars, List.flatMap_singleton]
    apply identifier_of_not_hyphen
    · apply ahead_printStartChar hc s
    · apply nameStart_printStartChar hc s
    · apply many_nameChar hs []
  | c :: d :: cs =>
    rw [printIdentifierChars, List.flatMap_cons, List.append_assoc]
    by_cases hc : c = '-'
    · subst hc
      rw [if_pos rfl, List.flatMap_cons, List.append_assoc, List.flatMap_map]
      apply identifier_of_hyphen
      · apply nameStart_after_hyphen d _
      · apply many_nameChar hs cs
    · rw [if_neg hc, ← List.map_cons, List.flatMap_map]
      apply identifier_of_not_hyphen
      · apply ahead_printStartChar hc _
      · apply nameStart_printStartChar hc _
      · apply many_nameChar hs (d :: cs)

/-- An identifier reads back, unless it is a hyphen alone. -/
theorem identifier_printIdentifier {text : String} {s : List Char} (h : text ≠ "")
    (hhyphen : text ≠ "-") (hs : Nameless s) :
  identifier ((printIdentifier text).toList ++ s) = .ok (clearedText text, s)
  := by
  rw [printIdentifier, String.toList_join]
  apply identifier_chars
  · apply mt String.toList_eq_nil_iff.mp h
  · intro hlist
    apply hhyphen
    rw [← String.toList_inj, hlist]
    rfl
  · apply hs

theorem refuses_nameStart {s : List Char} (hs : Nameless s) :
  Refuses nameStart s
  := by
  apply refuses_escapeOr
  apply hs.mono
  rintro c ⟨hbackslash, hname⟩
  use hbackslash
  simp only [isNameChar, Char.isAlphanum, Bool.or_eq_false_iff] at hname
  obtain ⟨⟨⟨⟨halpha, -⟩, hunderscore⟩, -⟩, hlarge⟩ := hname
  simp only [isNameStart, halpha, hunderscore, hlarge, Bool.or_self]

/-- No identifier is read where no name goes on. -/
theorem refuses_identifier {s : List Char} (hs : Nameless s) :
  Refuses identifier s
  := by
  have hnone : (Reader.satisfying (· = '-')).option s = .ok (none, s) := by
    apply Reader.option_of_refuses
    apply Reader.refuses_satisfying
    apply hs.mono
    rintro c ⟨-, hname⟩
    rw [decide_eq_false_iff_not]
    rintro rfl
    cases hname
  apply Reader.refuses_bind_of_ok hnone
  apply Refuses.bind
  apply refuses_nameStart hs

/-- A hyphen alone is no identifier. -/
theorem refuses_identifier_hyphen {s : List Char} (hs : Nameless s) :
  Refuses identifier ((printIdentifier "-").toList ++ s)
  := by
  have hsome : (Reader.satisfying (· = '-')).option ('-' :: s) = .ok (some '-', s) :=
    Reader.option_of_ok (Reader.satisfying_cons (by decide))
  apply Reader.refuses_bind_of_ok hsome
  apply Refuses.bind
  apply refuses_nameStart hs

/-- The first character of an identifier is a backslash or a character of names. -/
theorem printIdentifier_head {text : String} (h : text ≠ "") :
  ∃ c u, (printIdentifier text).toList = c :: u ∧ (c = '\\' ∨ isNameChar c = true)
  := by
  obtain ⟨c, cs, hcs⟩ := List.exists_cons_of_ne_nil (mt String.toList_eq_nil_iff.mp h)
  obtain ⟨d, u, hu, hd⟩ := printStartChar_head c
  have hhead : d = '\\' ∨ isNameChar d = true := by
    rcases hd with hd | ⟨rfl, hd⟩
    · exact .inl hd
    · exact .inr hd
  rw [printIdentifier, String.toList_join, hcs]
  match cs with
  | [] => exact ⟨d, u, by simp [printIdentifierChars, hu], hhead⟩
  | e :: cs => exact ⟨d, _, by rw [printIdentifierChars, List.flatMap_cons, hu]; rfl, hhead⟩

/-- What is printed for an identifier starts with a backslash or a character of a name. -/
theorem ahead_identifier {text : String} (h : text ≠ "") (s : List Char) :
  Ahead (fun c => c = '\\' ∨ isNameChar c = true) ((printIdentifier text).toList ++ s)
  := by
  obtain ⟨c, u, hu, hc⟩ := printIdentifier_head h
  rw [hu]
  apply Ahead.cons hc

/-! ### Strings -/

/-- What is printed for a character of a string is read as it, with U+FFFD for U+0000. -/
theorem stringChar_printStringChar (c : Char) (s : List Char) :
  stringChar '"' ((printStringChar c).toList ++ s) = .ok (clearedChar c, s)
  := by
  simp only [printStringChar, Bool.or_eq_true, decide_eq_true_eq]
  split
  · next h =>
    have hcontrol : isControl c = false := by rcases h with rfl | rfl <;> decide
    have hhex : Text.isHexDigit c = false := by rcases h with rfl | rfl <;> decide
    rw [clearedChar_of_not_isControl hcontrol, String.toList_append, String.toList_singleton]
    apply Reader.or_of_ok (escape_cons hhex s)
  · next h =>
    split
    · apply escapeOr_printNumber _ c s
    · next hcontrol =>
      rw [clearedChar_of_not_isControl (by simpa using hcontrol), String.toList_singleton]
      apply escapeOr_cons
      · simpa [not_or] using h
      · exact fun hc => h (.inr hc)

/-- A string between double quotes reads back. -/
theorem string_printString (value : String) (s : List Char) :
  string ((printString value).toList ++ s) = .ok (clearedText value, s)
  := by
  have hprint : (printString value).toList ++ s
      = '"' :: (value.toList.flatMap (fun c => (printStringChar c).toList) ++ '"' :: s) := by
    simp [printString, String.toList_join, List.flatMap_map]
  have hend : Refuses (stringChar '"') ('"' :: s) :=
    refuses_escapeOr (.cons (by decide))
  have hmany := Reader.many_flatMap stringChar_printStringChar hend value.toList
  apply Reader.or_of_ok
  rw [hprint, quoted, Reader.bind_ok (Reader.char_cons '"'), Reader.bind_ok hmany,
    Reader.bind_ok (Reader.char_cons '"')]
  rfl

end Hypertext.Selector
