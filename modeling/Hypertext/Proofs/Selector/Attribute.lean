import Hypertext.Proofs.Selector.Cleared
import Hypertext.Proofs.Selector.Name
import Hypertext.Selector.Parser

/-!
# Tests of attributes read back

The test of an attribute is printed as its scope, its name and what follows the name.  It reads
back before the bracket after it; only a scope or a name that is a hyphen alone is refused.  That
the bar of an operator is not taken for the one after a scope is `refuses_bar`.
-/

namespace Hypertext.Selector

open Grammar
open Reader (Ahead Refuses Spaceless)

/-! ### Comparisons -/

/-- What is written of the flags of a comparison. -/
def printFlags (flags : Option String) : String :=
  (flags.map (" " ++ printIdentifier ·)).getD ""

/-- What is written after the name in the test of an attribute. -/
def AttributeTest.printComparison (t : AttributeTest) : String :=
  (if t.operator = .present then "" else t.operator.symbol ++ printString t.value)
    ++ printFlags t.flags

theorem AttributeTest.print_eq (t : AttributeTest) :
  t.print = printScope t.scope ++ (printIdentifier t.name ++ t.printComparison)
  := by
  simp only [print, printComparison, printFlags, String.append_assoc]

section

variable {t : AttributeTest}

/-- Nothing is printed for a test that only asks for an attribute. -/
theorem printComparison_of_present (ht : t.IsCanonical) (h : t.operator = .present) :
  t.printComparison = ""
  := by
  obtain ⟨-, -, -, hpresent⟩ := ht
  rw [AttributeTest.printComparison, if_pos h, (hpresent h).2]
  rfl

theorem printComparison_toList (h : t.operator ≠ .present) (s : List Char) :
  t.printComparison.toList ++ s
    = t.operator.symbol.toList
      ++ ((printString t.value).toList ++ ((printFlags t.flags).toList ++ s))
  := by
  simp only [AttributeTest.printComparison, if_neg h, String.toList_append, List.append_assoc]

/-- The characters with which what follows the name of an attribute starts. -/
def comparisonSigns : List Char := [']', '=', '~', '|', '^', '$', '*']

/-- What is printed after the name of an attribute starts with the sign of a comparison or ends the
test. -/
theorem ahead_comparison (ht : t.IsCanonical) (s : List Char) :
  Ahead (· ∈ comparisonSigns) (t.printComparison.toList ++ ']' :: s)
  := by
  by_cases h : t.operator = .present
  · rw [printComparison_of_present ht h]
    exact .cons (by decide)
  · rw [printComparison_toList h]
    cases ho : t.operator with
    | present => exact absurd ho h
    | _ => exact .cons (by decide)

/-- What follows the name of an attribute is not taken for the bar after a scope, as the bar of
an operator has an equals sign after it. -/
theorem refuses_bar (ht : t.IsCanonical) (scope : String) (s : List Char) :
  Refuses (do Reader.char '|'; (Reader.char '=').notAhead; return scope)
    (t.printComparison.toList ++ ']' :: s)
  := by
  by_cases h : t.operator = .present
  · rw [printComparison_of_present ht h]
    apply Refuses.bind
    apply Reader.refuses_char (.cons (by decide))
  · rw [printComparison_toList h]
    cases ho : t.operator with
    | present => exact absurd ho h
    | dash =>
      apply Reader.refuses_bind_of_ok (Reader.char_cons '|')
      apply Refuses.bind
      apply Reader.refuses_notAhead (Reader.char_cons '=')
    | _ =>
      apply Refuses.bind
      apply Reader.refuses_char (.cons (by decide))

/-- The symbol of an operator is read as it. -/
theorem operator_symbol {o : Operator} (h : o ≠ .present) (s : List Char) :
  operator (o.symbol.toList ++ s) = .ok (o.symbol, s)
  := by
  cases o with
  | present => exact absurd rfl h
  | _ => rfl

theorem spaceless_identifier {text : String} (h : text ≠ "") (s : List Char) :
  Spaceless ((printIdentifier text).toList ++ s)
  := by
  apply (ahead_identifier h s).mono
  rintro c (rfl | hname)
  · decide
  · rw [Bool.eq_false_iff]
    intro hspace
    simp only [Reader.isSpace, Bool.or_eq_true, decide_eq_true_eq] at hspace
    rcases hspace with ((rfl | rfl) | rfl) | rfl <;> cases hname

theorem flags_identifier {flags : String} (h : flags = "i" ∨ flags = "s") (s : List Char) :
  Grammar.flags ((printIdentifier flags).toList ++ ']' :: s) = .ok (flags, ']' :: s)
  := by
  have hne : flags ≠ "" := by rcases h with rfl | rfl <;> decide
  have hhyphen : flags ≠ "-" := by rcases h with rfl | rfl <;> decide
  have hcleared : clearedText flags = flags := by rcases h with rfl | rfl <;> decide
  have hread := identifier_printIdentifier hne hhyphen
    (Ahead.cons (by decide) : Nameless (']' :: s))
  rw [Grammar.flags, Reader.bind_ok hread, hcleared,
    Reader.bind_ok (Reader.spaces_of_spaceless (.cons (by decide)))]
  rfl

/-- The flags that are printed are read back, after the space before them. -/
theorem spaces_flags {flags : Option String} (h : flags ∈ [none, some "i", some "s"])
    (s : List Char) :
  ∃ u, Reader.spaces ((printFlags flags).toList ++ ']' :: s) = .ok ((), u)
    ∧ Grammar.flags.option u = .ok (flags, ']' :: s)
  := by
  match flags with
  | none =>
    use ']' :: s
    constructor
    · apply Reader.spaces_of_spaceless (.cons (by decide))
    · apply Reader.option_of_refuses
      apply Refuses.bind
      apply refuses_identifier (.cons (by decide))
  | some flags =>
    have hflags : flags = "i" ∨ flags = "s" := by simpa using h
    have hne : flags ≠ "" := by rcases hflags with rfl | rfl <;> decide
    use (printIdentifier flags).toList ++ ']' :: s
    constructor
    · have hprint : (printFlags (some flags)).toList ++ ']' :: s
          = ' ' :: ((printIdentifier flags).toList ++ ']' :: s) := by
        simp [printFlags]
      rw [hprint]
      apply Reader.spaces_cons_of_spaceless (spaceless_identifier hne _)
    · apply Reader.option_of_ok (flags_identifier hflags s)

/-- The operator, the value and the flags of a test read back. -/
theorem comparison_print (ht : t.IsCanonical) (h : t.operator ≠ .present) (s : List Char) :
  comparison (t.printComparison.toList ++ ']' :: s)
    = .ok (⟨t.operator.symbol, clearedText t.value, t.flags⟩, ']' :: s)
  := by
  obtain ⟨u, hspaces, hoption⟩ := spaces_flags ht.2.2.1 s
  have hvalue : (string.or name)
      ((printString t.value).toList ++ ((printFlags t.flags).toList ++ ']' :: s))
      = .ok (clearedText t.value, (printFlags t.flags).toList ++ ']' :: s) :=
    Reader.or_of_ok (string_printString t.value _)
  have hquote : Spaceless
      ((printString t.value).toList ++ ((printFlags t.flags).toList ++ ']' :: s)) := by
    rw [printString, String.append_assoc, String.toList_append]
    exact .cons (by decide)
  rw [printComparison_toList h, comparison, Reader.bind_ok (operator_symbol h _),
    Reader.bind_ok (Reader.spaces_of_spaceless hquote), Reader.bind_ok hvalue,
    Reader.bind_ok hspaces, Reader.bind_ok hoption]
  rfl

/-- The symbol and the flags of a canonical test pass their checks. -/
theorem check_comparison (ht : t.IsCanonical) (value name : String) (scope : Option String) :
  (WrittenComparison.mk t.operator.symbol value t.flags).check scope name
    = .ok ⟨name, scope, t.operator, value, t.flags⟩
  := by
  have hflags : t.flags ∈ [none, some "i", some "s"] := ht.2.2.1
  simp only [WrittenComparison.check, Operator.ofSymbol?_symbol]
  cases hf : t.flags with
  | none => rfl
  | some flags =>
    rw [hf] at hflags
    apply if_pos (by simpa using hflags)

/-- What follows the name in a test reads back as what makes up the rest of the test. -/
theorem option_comparison (ht : t.IsCanonical) (s : List Char) :
  ∃ c, comparison.option (t.printComparison.toList ++ ']' :: s) = .ok (c, ']' :: s)
    ∧ ∀ scope name, (WrittenSimple.attribute scope name c).check
      = .ok (.attribute ⟨name, scope, t.operator, clearedText t.value, t.flags⟩)
  := by
  by_cases h : t.operator = .present
  · obtain ⟨hvalue, hnone⟩ := ht.2.2.2 h
    use none
    rw [printComparison_of_present ht h, h, hvalue, hnone]
    constructor
    · apply Reader.option_of_refuses
      apply Refuses.bind
      exact ⟨_, rfl⟩
    · intro scope name
      rfl
  · use some ⟨t.operator.symbol, clearedText t.value, t.flags⟩
    constructor
    · apply Reader.option_of_ok
      apply comparison_print ht h s
    · intro scope name
      rw [WrittenSimple.check, check_comparison ht]
      rfl

end

/-! ### Scopes -/

/-- No scope is read where there is neither an identifier nor a star. -/
theorem refuses_scope_of_refuses {s : List Char} (h : Refuses identifier s)
    (hstar : Ahead (· ≠ '*') s) :
  Refuses scope s
  := by
  apply Refuses.bind
  apply Refuses.or h
  apply Refuses.bind
  apply Reader.refuses_char hstar

/-- A scope reads back before a name, unless it is a hyphen alone. -/
theorem scope_printScope {text : String} {s : List Char} (h : text ≠ "") (hhyphen : text ≠ "-")
    (hs : Ahead (· ≠ '=') s) :
  scope ((printScope (some text)).toList ++ s) = .ok (clearedText text, s)
  := by
  have hbar : (Reader.char '=').notAhead s = .ok ((), s) :=
    Reader.notAhead_of_refuses (Reader.refuses_char hs)
  have hread : (identifier.or (do Reader.char '*'; return "*"))
      ((printScope (some text)).toList ++ s) = .ok (clearedText text, '|' :: s) := by
    by_cases hstar : text = "*"
    · subst hstar
      have hnone : Refuses identifier ('*' :: '|' :: s) :=
        refuses_identifier (.cons (by decide))
      apply Reader.or_of_refuses hnone
    · rw [printScope, if_neg hstar, String.toList_append, List.append_assoc]
      apply Reader.or_of_ok
      apply identifier_printIdentifier h hhyphen (.cons (by decide))
  rw [scope, Reader.bind_ok hread, Reader.bind_ok (Reader.char_cons '|'), Reader.bind_ok hbar]
  rfl

theorem refuses_scope_hyphen {s : List Char} (hs : Nameless s) :
  Refuses scope ((printIdentifier "-").toList ++ s)
  := by
  apply refuses_scope_of_refuses
  · apply refuses_identifier_hyphen hs
  · exact .cons (by decide)

section

variable {t : AttributeTest} (ht : t.IsCanonical) (s : List Char)

include ht

theorem nameless_comparison :
  Nameless (t.printComparison.toList ++ ']' :: s)
  := by
  apply (ahead_comparison ht s).of_all
  decide

/-- The name of an attribute without a scope is not taken for a scope. -/
theorem refuses_scope :
  Refuses scope ((printIdentifier t.name).toList ++ (t.printComparison.toList ++ ']' :: s))
  := by
  have hs := nameless_comparison ht s
  by_cases hhyphen : t.name = "-"
  · rw [hhyphen]
    apply refuses_scope_hyphen hs
  · have hread := identifier_printIdentifier ht.1 hhyphen hs
    apply Reader.refuses_bind_of_ok (Reader.or_of_ok hread)
    apply refuses_bar ht _ s

/-- A scope that is printed is read back with U+FFFD for U+0000, unless it is a hyphen. -/
theorem option_scope (hhyphen : t.scope ≠ some "-") :
  scope.option ((printScope t.scope).toList
      ++ ((printIdentifier t.name).toList ++ (t.printComparison.toList ++ ']' :: s)))
    = .ok (t.scope.map clearedText,
      (printIdentifier t.name).toList ++ (t.printComparison.toList ++ ']' :: s))
  := by
  match hscope : t.scope with
  | none => apply Reader.option_of_refuses (refuses_scope ht s)
  | some text =>
    rw [hscope] at hhyphen
    apply Reader.option_of_ok
    apply scope_printScope
    · intro h
      apply ht.2.1 (h ▸ hscope)
    · intro h
      apply hhyphen (h ▸ rfl)
    · apply (ahead_identifier ht.1 _).mono
      rintro c (rfl | hc)
      · decide
      · rintro rfl
        cases hc

theorem spaceless_attributeTest :
  Spaceless ((printScope t.scope).toList
    ++ ((printIdentifier t.name).toList ++ (t.printComparison.toList ++ ']' :: s)))
  := by
  match hscope : t.scope with
  | none => apply spaceless_identifier ht.1 _
  | some text =>
    have hne : text ≠ "" := by
      intro h
      apply ht.2.1 (h ▸ hscope)
    rw [printScope, String.toList_append, List.append_assoc]
    split
    · exact .cons (by decide)
    · apply spaceless_identifier hne _

/-- A test that is printed is read back with U+FFFD for U+0000, unless a name in it is a hyphen. -/
theorem attributeTest_print (hhyphen : "-" ∉ (Simple.attribute t).identifiers) :
  ∃ w, attributeTest (t.print.toList ++ ']' :: s) = .ok (w, ']' :: s)
    ∧ w.check = .ok (.attribute t.cleared)
  := by
  have hname : t.name ≠ "-" := by
    intro h
    apply hhyphen
    simp [Simple.identifiers, h]
  have hscope : t.scope ≠ some "-" := by
    intro h
    apply hhyphen
    simp [Simple.identifiers, h]
  obtain ⟨c, hc, hcheck⟩ := option_comparison ht s
  have hspaceless : Spaceless (t.printComparison.toList ++ ']' :: s) := by
    apply (ahead_comparison ht s).of_all
    decide
  have hread := identifier_printIdentifier ht.1 hname (nameless_comparison ht s)
  use .attribute (t.scope.map clearedText) (clearedText t.name) c
  constructor
  · rw [AttributeTest.print_eq, String.toList_append, String.toList_append, List.append_assoc,
      List.append_assoc, attributeTest,
      Reader.bind_ok (Reader.spaces_of_spaceless (spaceless_attributeTest ht s)),
      Reader.bind_ok (option_scope ht s hscope), Reader.bind_ok hread,
      Reader.bind_ok (Reader.spaces_of_spaceless hspaceless), Reader.bind_ok hc]
    rfl
  · apply hcheck _ _

/-- A test in which a name is a hyphen is not read. -/
theorem refuses_attributeTest (hhyphen : "-" ∈ (Simple.attribute t).identifiers) :
  Refuses attributeTest (t.print.toList ++ ']' :: s)
  := by
  rw [AttributeTest.print_eq, String.toList_append, String.toList_append, List.append_assoc,
    List.append_assoc]
  apply Reader.refuses_bind_of_ok (Reader.spaces_of_spaceless (spaceless_attributeTest ht s))
  by_cases hscope : t.scope = some "-"
  · have hbar : ∀ u, Nameless ('|' :: u) := fun u => Ahead.cons (by decide)
    rw [hscope]
    apply Reader.refuses_bind_of_ok (Reader.option_of_refuses (refuses_scope_hyphen (hbar _)))
    apply Refuses.bind
    apply refuses_identifier_hyphen (hbar _)
  · have hname : t.name = "-" := by
      simp only [Simple.identifiers, List.mem_cons, Option.mem_toList] at hhyphen
      rcases hhyphen with h | h
      · apply h.symm
      · exact absurd h hscope
    apply Reader.refuses_bind_of_ok (option_scope ht s hscope)
    apply Refuses.bind
    rw [hname]
    apply refuses_identifier_hyphen (nameless_comparison ht s)

end

end Hypertext.Selector
