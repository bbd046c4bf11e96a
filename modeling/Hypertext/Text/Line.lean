import Hypertext.Text.Blank

/-!
# Lines

`lines` cuts a text at its newlines, and a text is a line, `IsLine`, if there is none in it.  What
holds of every line, and of a line with a newline and a text behind it whenever it holds of that
text, holds of every text: `line_induction`.

`indent` moves each line of a text in, and `trim` takes the blank characters off its ends.
-/

namespace Hypertext.Text

/-- Whether a text is on one line. -/
def IsLine (s : String) : Prop := '\n' ∉ s.toList

instance (s : String) : Decidable (IsLine s) := inferInstanceAs (Decidable ('\n' ∉ s.toList))

/-- The lines of a text. -/
def lines (s : String) : List String := (s.toList.splitOn '\n').map String.ofList

/-- The lines of a text, each with the newline that ends it; behind the last newline there is one
more if it is not empty. -/
def endedLines : List Char → List (List Char)
  | [] => []
  | c :: cs =>
    if c = '\n' then ['\n'] :: endedLines cs
    else
      match endedLines cs with
      | [] => [[c]]
      | line :: rest => (c :: line) :: rest

/-- A number of spaces. -/
def spaces (n : Nat) : String := String.ofList (List.replicate n ' ')

/-- A text with each line moved in by a number of spaces. -/
def indent (width : Nat) (s : String) : String :=
  String.join ((endedLines s.toList).map fun line => spaces width ++ String.ofList line)

/-- A text without the blank characters at its ends. -/
def trim (s : String) : String :=
  String.ofList ((s.toList.dropWhile isBlank).reverse.dropWhile isBlank).reverse

/-! ### Lines of a text -/

/-- Two texts make one line if each of them is on one line. -/
@[simp]
theorem isLine_append (s t : String) :
  IsLine (s ++ t) ↔ IsLine s ∧ IsLine t
  := by
  simp [IsLine]

/-- Spaces after spaces are as many as both. -/
theorem spaces_append (m n : Nat) :
  spaces m ++ spaces n = spaces (m + n)
  := by
  rw [← String.toList_inj]
  simp [spaces]

theorem isLine_spaces (n : Nat) :
  IsLine (spaces n)
  := by
  simp [IsLine, spaces]

/-- Texts on one line with others on one line between them are on one line. -/
theorem isLine_intercalate {separator : String} {list : List String} (hseparator : IsLine separator)
    (h : ∀ s ∈ list, IsLine s) :
  IsLine (separator.intercalate list)
  := by
  induction list with
  | nil =>
    rw [String.intercalate_nil]
    decide
  | cons s list ih =>
    obtain ⟨hs, hlist⟩ := List.forall_mem_cons.mp h
    cases list with
    | nil => rwa [String.intercalate_singleton]
    | cons t list =>
      rw [String.intercalate_cons_cons, isLine_append, isLine_append]
      exact ⟨⟨hs, hseparator⟩, ih hlist⟩

/-- Texts are taken apart at their first newline. -/
@[elab_as_elim]
theorem line_induction {motive : String → Prop} (line : ∀ s, IsLine s → motive s)
    (append : ∀ s t, IsLine s → motive t → motive (s ++ "\n" ++ t)) (s : String) :
  motive s
  := by
  by_cases h : '\n' ∈ s.toList
  · obtain ⟨cs, ds, hs, hcs⟩ := List.eq_append_cons_of_mem h
    have hparts : s = String.ofList cs ++ "\n" ++ String.ofList ds := by
      rw [← String.toList_inj, hs]
      simp
    have hline : IsLine (String.ofList cs) := by
      rwa [IsLine, String.toList_ofList]
    have hrest : motive (String.ofList ds) := line_induction line append (String.ofList ds)
    rw [hparts]
    apply append _ _ hline hrest
  · apply line s h
termination_by s.toList.length
decreasing_by
  rw [hs, String.toList_ofList, List.length_append, List.length_cons]
  omega

/-- A text on one line is its only line. -/
theorem lines_line {s : String} (h : IsLine s) :
  lines s = [s]
  := by
  have hpieces : s.toList.splitOn '\n' = [s.toList] := by
    rw [List.splitOn_eq_splitOnP]
    apply List.splitOnP_eq_singleton
    intro c hc
    apply beq_false_of_ne
    rintro rfl
    exact h hc
  rw [lines, hpieces, List.map_singleton, String.ofList_toList]

/-- The lines before a newline and behind it do not see each other. -/
theorem lines_append (s t : String) :
  lines (s ++ "\n" ++ t) = lines s ++ lines t
  := by
  have htext : (s ++ "\n" ++ t).toList = s.toList ++ '\n' :: t.toList := by simp
  rw [lines, htext, List.splitOn_append_cons_self, List.map_append]
  rfl

/-! ### Moving in -/

/-- A text without a newline is its only line if it is not empty. -/
theorem endedLines_line {cs : List Char} (h : '\n' ∉ cs) (hne : cs ≠ []) :
  endedLines cs = [cs]
  := by
  induction cs with
  | nil => exact absurd rfl hne
  | cons c cs ih =>
    obtain ⟨hc, hcs⟩ := not_or.mp (mt List.mem_cons.mpr h)
    rw [endedLines, if_neg (Ne.symm hc)]
    cases cs with
    | nil => rfl
    | cons d ds => rw [ih hcs (List.cons_ne_nil d ds)]

/-- The first newline ends the first line. -/
theorem endedLines_append {cs : List Char} (h : '\n' ∉ cs) (ds : List Char) :
  endedLines (cs ++ '\n' :: ds) = (cs ++ ['\n']) :: endedLines ds
  := by
  induction cs with
  | nil => rw [List.nil_append, endedLines, if_pos rfl, List.nil_append]
  | cons c cs ih =>
    obtain ⟨hc, hcs⟩ := not_or.mp (mt List.mem_cons.mpr h)
    rw [List.cons_append, endedLines, if_neg (Ne.symm hc), ih hcs, List.cons_append]

/-- A line that is not empty is moved in by spaces in front of it. -/
theorem indent_line (width : Nat) {s : String} (h : IsLine s) (hne : s ≠ "") :
  indent width s = spaces width ++ s
  := by
  have hchars : s.toList ≠ [] := by simpa using hne
  rw [indent, endedLines_line h hchars, List.map_singleton, String.ofList_toList]
  simp

/-- A line that ends in something is not empty. -/
theorem indent_line_append (width : Nat) {s b : String} (hs : IsLine s) (hb : IsLine b)
    (hne : b ≠ "") :
  indent width (s ++ b) = spaces width ++ (s ++ b)
  := by
  apply indent_line width ((isLine_append s b).mpr ⟨hs, hb⟩)
  rw [ne_eq, String.append_eq_empty_iff]
  exact fun h => hne h.2

/-- Moving in starts anew behind a newline. -/
theorem indent_append (width : Nat) {s : String} (h : IsLine s) (t : String) :
  indent width (s ++ "\n" ++ t) = spaces width ++ s ++ "\n" ++ indent width t
  := by
  have htext : (s ++ "\n" ++ t).toList = s.toList ++ '\n' :: t.toList := by simp
  have hline : spaces width ++ String.ofList (s.toList ++ ['\n']) = spaces width ++ s ++ "\n" := by
    rw [← String.toList_inj]
    simp
  rw [indent, htext, endedLines_append h, List.map_cons, String.join_cons, hline, indent]

/-- Each line of a text that is moved in stands behind spaces.  What stands behind the text stands
behind its last line. -/
theorem lines_indent_append (width : Nat) (s : String) {b t : String} (hb : IsLine b) (hne : b ≠ "")
    (ht : IsLine t) :
  lines (indent width (s ++ b) ++ t) = (lines (s ++ (b ++ t))).map (spaces width ++ ·)
  := by
  induction s using line_induction with
  | line s hs =>
    have hline : IsLine (s ++ (b ++ t)) := by
      rw [isLine_append, isLine_append]
      exact ⟨hs, hb, ht⟩
    have hmoved : IsLine (spaces width ++ (s ++ (b ++ t))) :=
      (isLine_append _ _).mpr ⟨isLine_spaces width, hline⟩
    have htext : spaces width ++ (s ++ b) ++ t = spaces width ++ (s ++ (b ++ t)) := by
      rw [String.append_assoc, String.append_assoc]
    rw [indent_line_append width hs hb hne, htext, lines_line hmoved, lines_line hline,
      List.map_singleton]
  | append s s' hs ih =>
    have hbehind : s ++ "\n" ++ s' ++ b = s ++ "\n" ++ (s' ++ b) := String.append_assoc
    have hbehind' : s ++ "\n" ++ s' ++ (b ++ t) = s ++ "\n" ++ (s' ++ (b ++ t)) :=
      String.append_assoc
    have hline : IsLine (spaces width ++ s) := (isLine_append _ _).mpr ⟨isLine_spaces width, hs⟩
    have hfirst : spaces width ++ s ++ "\n" ++ indent width (s' ++ b) ++ t
        = spaces width ++ s ++ "\n" ++ (indent width (s' ++ b) ++ t) := String.append_assoc
    rw [hbehind, hbehind', indent_append width hs, hfirst, lines_append, lines_append, ih,
      lines_line hline, lines_line hs, List.map_append, List.map_singleton]

/-- Moving in changes nothing at the end of a text. -/
theorem exists_indent_append (width : Nat) (s : String) {b : String} (hb : IsLine b)
    (hne : b ≠ "") :
  ∃ t, indent width (s ++ b) = t ++ b
  := by
  induction s using line_induction with
  | line s hs =>
    exact ⟨spaces width ++ s, by rw [indent_line_append width hs hb hne, String.append_assoc]⟩
  | append s s' hs ih =>
    obtain ⟨t, ht⟩ := ih
    exact ⟨spaces width ++ s ++ "\n" ++ t, by
      rw [String.append_assoc, indent_append width hs, ht, ← String.append_assoc]⟩

end Hypertext.Text
