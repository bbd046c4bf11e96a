import Hypertext.Proofs.Selector.Name

/-!
# Spellings of names

A character of a name can be written in three ways: as itself, where the grammar allows that, after
a backslash, or as its number.  Whichever way is chosen for each character, `name`, `identifier` and
`string` read the characters: what one spelling consists of does not depend on what follows, so the
parts of a text are read one after the other.
-/

namespace Hypertext.Selector

open Grammar
open Reader (Ahead)

/-! ### One character -/

/-- The ways to write a character where some may stand as they are: the character itself if it is
one of these, a backslash and the character if it is no hexadecimal digit, or a backslash, one to
six digits that write its number, and a space. -/
inductive Spells (raw : Char → Bool) (c : Char) : List Char → Prop where
  | itself (h : raw c) : Spells raw c [c]
  | escaped (h : Text.isHexDigit c = false) : Spells raw c ['\\', c]
  | numbered {digits : List Char} {space : Char} (hc : c ≠ '\x00')
      (hdigits : Text.Writes 16 c.toNat digits) (hlength : digits.length ≤ 6)
      (hspace : space ∈ [' ', '\t', '\n', '\r', '\x0c']) :
      Spells raw c ('\\' :: (digits ++ [space]))

theorem endsDigits_of_mem {c : Char} (h : c ∈ [' ', '\t', '\n', '\r', '\x0c']) :
  endsDigits c
  := by
  revert c
  apply Reader.forall_mem_of_all
  decide

section

variable {raw : Char → Bool} {c : Char} {part : List Char}

/-- A spelling is read, whatever follows. -/
theorem Spells.read (hraw : raw '\\' = false) (h : Spells raw c part) (s : List Char) :
  escapeOr raw (part ++ s) = .ok (c, s)
  := by
  cases h with
  | itself h =>
    apply escapeOr_cons h
    rintro rfl
    cases hraw.symm.trans h
  | escaped h =>
    apply Reader.or_of_ok (escape_cons h s)
  | @numbered digits space hc hdigits hlength hspace =>
    have hread := escape_digits hdigits hlength (endsDigits_of_mem hspace) s
    rw [charOfNumber_toNat, clearedChar_eq_self_iff.mpr hc] at hread
    rw [List.cons_append, List.append_assoc]
    apply Reader.or_of_ok hread

/-- A spelling does not start with a hyphen where none may stand as it is. -/
theorem Spells.ahead (hraw : raw '-' = false) (h : Spells raw c part) (s : List Char) :
  Ahead (· ≠ '-') (part ++ s)
  := by
  cases h with
  | itself h =>
    apply Ahead.cons
    rintro rfl
    cases hraw.symm.trans h
  | escaped => exact .cons (by decide)
  | numbered => exact .cons (by decide)

/-- Spellings are read up to a text on which the reading of one stops. -/
theorem many_spelled {r : Reader Char} [r.Consumes] {cs s : List Char} {parts : List (List Char)}
    (hr : r = escapeOr raw) (hraw : raw '\\' = false) (h : List.Forall₂ (Spells raw) cs parts)
    (hs : r.Refuses s) :
  Reader.many r (parts.flatten ++ s) = .ok (cs, s)
  := by
  refine Reader.many_flatten (h.imp ?_) hs
  intro c part hpart
  rw [hr]
  apply hpart.read hraw

end

/-! ### Names, identifiers and strings -/

/-- The characters of an identifier are spelled one by one: the first of them, or the one after a
hyphen, in a way that starts an identifier. -/
inductive SpellsIdentifier : List Char → List (List Char) → Prop where
  | start {c : Char} {cs part : List Char} {parts : List (List Char)}
      (hstart : Spells isNameStart c part) (hrest : List.Forall₂ (Spells isNameChar) cs parts) :
      SpellsIdentifier (c :: cs) (part :: parts)
  | hyphen {c : Char} {cs part : List Char} {parts : List (List Char)}
      (hstart : Spells isNameStart c part) (hrest : List.Forall₂ (Spells isNameChar) cs parts) :
      SpellsIdentifier ('-' :: c :: cs) (['-'] :: part :: parts)

section

variable {cs s : List Char} {parts : List (List Char)}

/-- The characters of a name are read in any spelling. -/
theorem many_nameChar_spelled (h : List.Forall₂ (Spells isNameChar) cs parts) (hs : Nameless s) :
  Reader.many nameChar (parts.flatten ++ s) = .ok (cs, s)
  := many_spelled rfl rfl h (refuses_escapeOr hs)

theorem name_spelled (h : List.Forall₂ (Spells isNameChar) cs parts) (hne : cs ≠ [])
    (hs : Nameless s) :
  name (parts.flatten ++ s) = .ok (String.ofList cs, s)
  := by
  have hmany := many_nameChar_spelled h hs
  cases h with
  | nil => exact absurd rfl hne
  | @cons c part cs parts hpart hrest =>
    have hfirst : nameChar (part ++ (parts.flatten ++ s)) = .ok (c, parts.flatten ++ s) :=
      hpart.read rfl _
    rw [List.flatten_cons, List.append_assoc] at hmany ⊢
    rw [name, Reader.bind_ok ((Reader.many1_eq_many hfirst).trans hmany)]
    rfl

/-- An identifier is read in any spelling. -/
theorem identifier_spelled (h : SpellsIdentifier cs parts) (hs : Nameless s) :
  identifier (parts.flatten ++ s) = .ok (String.ofList cs, s)
  := by
  cases h with
  | start hstart hrest =>
    rw [List.flatten_cons, List.append_assoc]
    apply identifier_of_not_hyphen
    · apply hstart.ahead rfl
    · apply hstart.read rfl
    · apply many_nameChar_spelled hrest hs
  | hyphen hstart hrest =>
    rw [List.flatten_cons, List.flatten_cons, List.append_assoc, List.append_assoc]
    apply identifier_of_hyphen
    · apply hstart.read rfl
    · apply many_nameChar_spelled hrest hs

theorem quoted_spelled {quote : Char}
    (h : List.Forall₂ (Spells fun c => c ≠ quote && c ≠ '\\') cs parts) (hquote : quote ≠ '\\') :
  quoted quote (quote :: (parts.flatten ++ quote :: s)) = .ok (String.ofList cs, s)
  := by
  have hend : (stringChar quote).Refuses (quote :: s) := by
    apply refuses_escapeOr
    exact .cons ⟨hquote, by simp⟩
  have hmany : Reader.many (stringChar quote) (parts.flatten ++ quote :: s)
      = .ok (cs, quote :: s) := many_spelled rfl (by simp) h hend
  rw [quoted, Reader.bind_ok (Reader.char_cons quote), Reader.bind_ok hmany,
    Reader.bind_ok (Reader.char_cons quote)]
  rfl

/-- A string is read in any spelling, between quotes of either kind. -/
theorem string_spelled {quote : Char}
    (h : List.Forall₂ (Spells fun c => c ≠ quote && c ≠ '\\') cs parts)
    (hquote : quote ∈ ['"', '\'']) :
  string (quote :: (parts.flatten ++ quote :: s)) = .ok (String.ofList cs, s)
  := by
  have hread : quoted quote (quote :: (parts.flatten ++ quote :: s)) = .ok (String.ofList cs, s) := by
    apply quoted_spelled h
    apply Reader.forall_mem_of_all (by decide) quote hquote
  rcases List.mem_pair.mp hquote with rfl | rfl
  · apply Reader.or_of_ok hread
  · have hdouble : (quoted '"').Refuses ('\'' :: (parts.flatten ++ '\'' :: s)) := by
      apply Reader.Refuses.bind
      apply Reader.refuses_char
      exact .cons (by decide)
    rw [string, Reader.or_of_refuses hdouble, hread]

/-- However the characters of a text are spelled, they are read back as that text: as a name, if
there are any, as an identifier, if they are spelled like one, and between quotes. -/
theorem read_of_spelled (cs s : List Char) (parts : List (List Char)) :
  (cs ≠ [] → List.Forall₂ (Spells isNameChar) cs parts → Nameless s →
      name (parts.flatten ++ s) = .ok (String.ofList cs, s))
    ∧ (SpellsIdentifier cs parts → Nameless s →
      identifier (parts.flatten ++ s) = .ok (String.ofList cs, s))
    ∧ ∀ quote ∈ ['"', '\''], List.Forall₂ (Spells fun c => c ≠ quote && c ≠ '\\') cs parts →
      string (quote :: (parts.flatten ++ quote :: s)) = .ok (String.ofList cs, s)
  := by
  refine ⟨?_, identifier_spelled, ?_⟩
  · intro hne h hs
    apply name_spelled h hne hs
  · intro quote hquote h
    apply string_spelled h hquote

/-- A digit that follows the number of another one, a hyphen before a digit, and a quote between
quotes of its kind. -/
theorem read_of_spelled_mixed :
  name ("\\000031\t2\\.\\e9 a b".toList) = .ok ("12.éa", " b".toList)
    ∧ identifier ("-\\31 2\\C9\n>".toList) = .ok ("-12É", ">".toList)
    ∧ string ("'\"\\'\\22\u000c2']".toList) = .ok ("\"'\"2", "]".toList)
  := by
  have hdigit : Spells isNameChar '1' "\\000031\t".toList :=
    @Spells.numbered _ _ ['0', '0', '0', '0', '3', '1'] '\t' (by decide) ⟨4, by decide⟩ (by decide)
      (by decide)
  have hletter : Spells isNameChar 'é' "\\e9 ".toList :=
    @Spells.numbered _ _ ['e', '9'] ' ' (by decide) ⟨0, by decide⟩ (by decide) (by decide)
  have hstart : Spells isNameStart '1' "\\31 ".toList :=
    @Spells.numbered _ _ ['3', '1'] ' ' (by decide) ⟨0, by decide⟩ (by decide) (by decide)
  have hupper : Spells isNameChar 'É' "\\C9\n".toList :=
    @Spells.numbered _ _ ['C', '9'] '\n' (by decide) ⟨0, by decide⟩ (by decide) (by decide)
  have hquote : Spells (fun c => c ≠ '\'' && c ≠ '\\') '"' "\\22\u000c".toList :=
    @Spells.numbered _ _ ['2', '2'] '\x0c' (by decide) ⟨0, by decide⟩ (by decide) (by decide)
  refine ⟨?_, ?_, ?_⟩
  · exact (read_of_spelled ['1', '2', '.', 'é', 'a'] [' ', 'b'] _).1 (List.cons_ne_nil _ _)
      (.cons hdigit (.cons (.itself (by decide)) (.cons (.escaped (by decide)) (.cons hletter
        (.cons (.itself (by decide)) .nil))))) (.cons (by decide))
  · exact (read_of_spelled ['-', '1', '2', 'É'] ['>'] _).2.1
      (.hyphen hstart (.cons (.itself (by decide)) (.cons hupper .nil))) (.cons (by decide))
  · exact (read_of_spelled ['"', '\'', '"', '2'] [']'] _).2.2 '\'' (by decide)
      (.cons (.itself (by decide)) (.cons (.escaped (by decide)) (.cons hquote
        (.cons (.itself (by decide)) .nil))))

end

end Hypertext.Selector
