import Hypertext.Proofs.Digits
import Hypertext.Proofs.Walk.Stack
import Hypertext.Tree.Display
import Hypertext.Tree.Every
import Mathlib.Data.List.TakeWhile

/-!
# Laid-out trees

A tree that is laid out has one line for each node, in document order, and says what the tree says
on one line: `Element.layout_lines`.  The line of a node, `Visit.line`, has two spaces for each
element above the node, what stands in front of its children, and an ending that depends on the
depth of the node that comes next: the brackets of all elements that end before that one.
-/

namespace Hypertext

/-! ### Quoted texts -/

namespace Text

/-- The number of a character is on one line. -/
theorem isLine_hexadecimal (c : Char) :
  IsLine (hexadecimal c)
  := by
  intro hmem
  rw [hexadecimal, String.toList_ofList] at hmem
  obtain ⟨v, hv, hdigit⟩ := exists_of_mem_toDigits (by decide) hmem
  revert v
  decide

/-- A character that is shown as it is is no newline. -/
theorem isLine_singleton {c : Char} (h : isVisible c) :
  IsLine (String.singleton c)
  := by
  intro hmem
  rw [String.toList_singleton, List.mem_singleton] at hmem
  rw [← hmem, isVisible_newline] at h
  cases h

/-- A newline is not quoted by itself, and no other character by one. -/
theorem isLine_quoteChar (c : Char) :
  IsLine (quoteChar c)
  := by
  unfold quoteChar
  split
  case h_7 =>
    split
    · next hvisible => apply isLine_singleton hvisible
    · rw [isLine_append, isLine_append]
      exact ⟨⟨by decide, isLine_hexadecimal c⟩, by decide⟩
  all_goals decide

/-- A quoted text is on one line. -/
theorem isLine_quote (s : String) :
  IsLine (quote s)
  := by
  have hchars : IsLine (String.join (s.toList.map quoteChar)) := by
    rw [IsLine, String.toList_join, List.mem_flatMap]
    rintro ⟨quoted, hquoted, hmem⟩
    obtain ⟨c, -, rfl⟩ := List.mem_map.mp hquoted
    apply isLine_quoteChar c hmem
  rw [quote, isLine_append, isLine_append]
  exact ⟨⟨by decide, hchars⟩, by decide⟩

end Text

/-- Attributes are shown on one line. -/
theorem Attributes.isLine_inspect (a : Attributes) :
  Text.IsLine a.inspect
  := by
  have hpairs : Text.IsLine (", ".intercalate (a.pairs.map fun p =>
      Text.quote p.1 ++ "=>" ++ Text.quote p.2)) := by
    apply Text.isLine_intercalate (by decide)
    intro s hs
    obtain ⟨p, -, rfl⟩ := List.mem_map.mp hs
    rw [Text.isLine_append, Text.isLine_append]
    exact ⟨⟨Text.isLine_quote p.1, by decide⟩, Text.isLine_quote p.2⟩
  rw [Attributes.inspect, Text.isLine_append, Text.isLine_append]
  exact ⟨⟨by decide, hpairs⟩, by decide⟩

/-- What is written behind a tag is on one line. -/
theorem Attributes.isLine_behindTag (a : Attributes) :
  Text.IsLine a.behindTag
  := by
  rw [Attributes.behindTag]
  split
  · decide
  · rw [Text.isLine_append]
    exact ⟨by decide, a.isLine_inspect⟩

/-- What is written in front of the children is on one line if the tag is. -/
theorem Element.isLine_head {e : Element} (h : Text.IsLine e.tag) :
  Text.IsLine e.head
  := by
  rw [Element.head, Text.isLine_append, Text.isLine_append]
  exact ⟨⟨by decide, h⟩, e.attributes.isLine_behindTag⟩

/-! ### Written elements -/

/-- A text with something behind it ends as that does. -/
theorem Text.getLast?_append (s : String) {t : String} (hne : t ≠ "") :
  (s ++ t).toList.getLast? = t.toList.getLast?
  := by
  have hchars : t.toList ≠ [] := by simpa using hne
  rw [String.toList_append, List.getLast?_append_of_ne_nil _ hchars]

/-- An element without children ends behind its attributes. -/
theorem Element.inspect_of_isEmpty {e : Element} (h : e.children = []) :
  e.inspect = e.head ++ "]"
  := by
  obtain ⟨tag, attributes, children⟩ := e
  obtain rfl : children = [] := h
  simp [Element.inspect]

/-- The children of an element are shown in brackets behind its attributes. -/
theorem Element.inspect_of_children {e : Element} (h : e.children ≠ []) :
  e.inspect = e.head ++ ", [" ++ ", ".intercalate (Node.inspects e.children) ++ "]]"
  := by
  obtain ⟨tag, attributes, children⟩ := e
  have hempty : children.isEmpty = false := by simpa using h
  rw [← String.toList_inj]
  simp [Element.inspect, hempty, bracketed]

namespace Text

/-- What holds of the first element, if there is one, holds of the element at zero. -/
theorem getElem_zero_of_head? {α : Type} {p : α → Prop} {as : List α} (h : ∀ a ∈ as.head?, p a)
    (hpos : 0 < as.length) :
  p as[0]
  := h as[0] (List.head?_eq_getElem?.trans (List.getElem?_eq_getElem hpos))

/-- Spaces in front of a text that starts and ends with other characters than blank ones go. -/
theorem trim_spaces_append (n : Nat) {s : String} (hfirst : ∀ c ∈ s.toList.head?, isBlank c = false)
    (hlast : ∀ c ∈ s.toList.getLast?, isBlank c = false) :
  trim (spaces n ++ s) = s
  := by
  have hspaces : ∀ c ∈ List.replicate n ' ', isBlank c := by
    intro c hc
    rw [List.eq_of_mem_replicate hc]
    decide
  have htext : (spaces n ++ s).toList = List.replicate n ' ' ++ s.toList := by
    simp [spaces]
  have hfront : s.toList.dropWhile isBlank = s.toList := by
    rw [List.dropWhile_eq_self_iff]
    intro hpos
    apply Bool.eq_false_iff.mp (getElem_zero_of_head? hfirst hpos)
  have hback : s.toList.reverse.dropWhile isBlank = s.toList.reverse := by
    rw [List.getLast?_eq_head?_reverse] at hlast
    rw [List.dropWhile_eq_self_iff]
    intro hpos
    apply Bool.eq_false_iff.mp (getElem_zero_of_head? hlast hpos)
  rw [trim, htext, List.dropWhile_append_of_pos hspaces, hfront, hback, List.reverse_reverse,
    String.ofList_toList]

end Text

/-- What is written behind a tag does not start with a blank character. -/
theorem Attributes.isBlank_head_behindTag (a : Attributes) {s : String}
    (h : ∀ c ∈ s.toList.head?, Text.isBlank c = false) :
  ∀ c ∈ (a.behindTag ++ s).toList.head?, Text.isBlank c = false
  := by
  rw [Attributes.behindTag]
  split
  · rwa [String.empty_append]
  · have hcomma : (", " ++ a.inspect ++ s).toList.head? = some ',' := by simp
    rw [hcomma]
    rintro c ⟨⟩
    decide

/-- What is written behind a tag is moved in and then back, whatever else is moved in behind it. -/
theorem Attributes.trim_indent (a : Attributes) {s t : String}
    (hindent : Text.indent 2 (a.behindTag ++ s) = Text.spaces 2 ++ (a.behindTag ++ t))
    (hfirst : ∀ c ∈ t.toList.head?, Text.isBlank c = false)
    (hlast : ∀ c ∈ t.toList.getLast?, Text.isBlank c = false) (hne : t ≠ "") :
  Text.trim (Text.indent 2 (a.behindTag ++ s)) = a.behindTag ++ t
  := by
  have hlast' : ∀ c ∈ (a.behindTag ++ t).toList.getLast?, Text.isBlank c = false := by
    rwa [Text.getLast?_append _ hne]
  rw [hindent, Text.trim_spaces_append 2 (a.isBlank_head_behindTag hfirst) hlast']

/-- Without children there is only one line, and nothing to move in. -/
theorem Element.layout_of_isEmpty {e : Element} (h : e.children = []) :
  e.layout = e.inspect
  := by
  rw [Element.inspect_of_isEmpty h]
  obtain ⟨tag, attributes, children⟩ := e
  obtain rfl : children = [] := h
  have hindent : Text.indent 2 (attributes.behindTag ++ "]")
      = Text.spaces 2 ++ (attributes.behindTag ++ "]") :=
    Text.indent_line_append 2 attributes.isLine_behindTag (by decide) (by decide)
  have hblank : Text.isBlank ']' = false := by decide
  have htrim := attributes.trim_indent hindent (by rintro c ⟨⟩; exact hblank)
    (by rintro c ⟨⟩; exact hblank) (by decide)
  rw [Element.layout, List.isEmpty_nil, if_pos rfl, htrim, Element.head, ← String.append_assoc]

/-- The lines behind the first are moved in. -/
theorem Element.layout_of_children {e : Element} (h : e.children ≠ []) :
  e.layout = e.head ++ ", [" ++ "\n"
    ++ Text.indent 2 (",\n".intercalate (Node.layouts e.children) ++ "]]")
  := by
  obtain ⟨tag, attributes, children⟩ := e
  have hempty : children.isEmpty = false := by simpa using h
  let inner := ",\n".intercalate (Node.layouts children)
  have hbreak : ", [\n" = ", [" ++ "\n" := rfl
  have hindent : Text.indent 2 (attributes.behindTag ++ (", [\n" ++ (inner ++ "]]")))
      = Text.spaces 2 ++ (attributes.behindTag ++ (", [\n" ++ Text.indent 2 (inner ++ "]]"))) := by
    have hline : Text.IsLine (attributes.behindTag ++ ", [") := by
      rw [Text.isLine_append]
      exact ⟨attributes.isLine_behindTag, by decide⟩
    have hmoved := Text.indent_append 2 hline (inner ++ "]]")
    rw [hbreak]
    simp only [String.append_assoc] at hmoved ⊢
    exact hmoved
  have hfirst : ∀ c ∈ (", [\n" ++ Text.indent 2 (inner ++ "]]")).toList.head?,
      Text.isBlank c = false := by
    have hcomma : (", [\n" ++ Text.indent 2 (inner ++ "]]")).toList.head? = some ',' := by simp
    rw [hcomma]
    rintro c ⟨⟩
    decide
  have hlast : ∀ c ∈ (", [\n" ++ Text.indent 2 (inner ++ "]]")).toList.getLast?,
      Text.isBlank c = false := by
    obtain ⟨front, hfront⟩ := Text.exists_indent_append 2 inner (b := "]]") (by decide) (by decide)
    rw [hfront, ← String.append_assoc, Text.getLast?_append _ (by decide)]
    rintro c ⟨⟩
    decide
  have hne : ", [\n" ++ Text.indent 2 (inner ++ "]]") ≠ "" := by simp
  have hlayout : Element.layout ⟨tag, attributes, children⟩ = "H[:" ++ tag
      ++ Text.trim (Text.indent 2 (attributes.behindTag ++ (", [\n" ++ (inner ++ "]]")))) := by
    have hrest : ", [\n" ++ inner ++ "]]" = ", [\n" ++ (inner ++ "]]") := String.append_assoc
    rw [Element.layout, hempty, if_neg Bool.false_ne_true, hrest]
  rw [hlayout, attributes.trim_indent hindent hfirst hlast hne, Element.head, hbreak]
  simp only [String.append_assoc]
  rfl

/-! ### Lines of nodes -/

/-- What stands in front of the children of a node, and all of a text. -/
def Node.head : Node → String
  | .element e => e.head
  | .text content => Text.quote content

/-- The brackets that close a number of elements with children. -/
def brackets (n : Nat) : String := String.join (List.replicate n "]]")

/-- What stands between a node and the next one, given the numbers of elements above them: the
brackets of the elements that end with the first, and a comma if there is a next one. -/
def closing (depth : Nat) : Option Nat → String
  | some next => brackets (depth - next) ++ ","
  | none => brackets depth

namespace Visit

/-- What stands on the line of a node behind its head, given the number of elements above the next
node. -/
def ending (v : Visit) (next : Option Nat) : String :=
  match v.node with
  | .element ⟨_, _, _ :: _⟩ => ", ["
  | .element ⟨_, _, []⟩ => "]" ++ closing v.above.length next
  | .text _ => closing v.above.length next

/-- The line of a node, given the number of elements above the next node. -/
def line (v : Visit) (next : Option Nat) : String :=
  Text.spaces (2 * v.above.length) ++ (v.node.head ++ v.ending next)

/-- The number of elements above the first of several nodes, if there is one. -/
def firstDepth? (vs : List Visit) : Option Nat := vs.head?.map (·.above.length)

/-- The lines of nodes that follow each other, given the number of elements above the node that
comes after them. -/
def lines : List Visit → Option Nat → List String
  | [], _ => []
  | v :: vs, next => v.line ((firstDepth? vs).or next) :: lines vs next

/-- The lines of nodes are those of a first part, up to the depth of what follows it, and those of
the rest. -/
theorem lines_append (vs ws : List Visit) (next : Option Nat) :
  lines (vs ++ ws) next = lines vs ((firstDepth? ws).or next) ++ lines ws next
  := by
  induction vs with
  | nil => rfl
  | cons v vs ih =>
    have hdepth : (firstDepth? (vs ++ ws)).or next
        = (firstDepth? vs).or ((firstDepth? ws).or next) := by
      rw [firstDepth?, List.head?_append, Option.map_or, Option.or_assoc]
      rfl
    rw [List.cons_append, lines, lines, hdepth, ih, List.cons_append]

/-- There is a line for each node. -/
theorem length_lines (vs : List Visit) (next : Option Nat) :
  (lines vs next).length = vs.length
  := by
  induction vs with
  | nil => rfl
  | cons v vs ih => rw [lines, List.length_cons, List.length_cons, ih]

/-- The line of a node depends on the depth of the one after it only. -/
theorem getElem?_lines (vs : List Visit) (next : Option Nat) (k : Nat) :
  (lines vs next)[k]? = vs[k]?.map fun v => v.line ((vs[k + 1]?.map (·.above.length)).or next)
  := by
  induction vs generalizing k with
  | nil => simp [lines]
  | cons v vs ih =>
    cases k with
    | zero =>
      rw [lines, List.getElem?_cons_zero, List.getElem?_cons_zero, List.getElem?_cons_succ,
        firstDepth?, List.head?_eq_getElem?]
      rfl
    | succ k =>
      rw [lines, List.getElem?_cons_succ, List.getElem?_cons_succ, ih, List.getElem?_cons_succ]

end Visit

/-! ### Endings -/

theorem brackets_succ (n : Nat) :
  brackets (n + 1) = "]]" ++ brackets n
  := by
  rw [brackets, List.replicate_succ, String.join_cons]
  rfl

theorem isLine_brackets (n : Nat) :
  Text.IsLine (brackets n)
  := by
  induction n with
  | zero => decide
  | succ n ih =>
    rw [brackets_succ, Text.isLine_append]
    exact ⟨by decide, ih⟩

/-- What is written behind a node is on one line. -/
theorem isLine_closing (depth : Nat) (next : Option Nat) :
  Text.IsLine (closing depth next)
  := by
  cases next with
  | none => apply isLine_brackets
  | some next =>
    rw [closing, Text.isLine_append]
    exact ⟨isLine_brackets _, by decide⟩

/-- The brackets of the children of an element are closed before those of the elements above. -/
theorem closing_succ {depth : Nat} {next : Option Nat} (h : ∀ d ∈ next, d ≤ depth) :
  closing (depth + 1) next = "]]" ++ closing depth next
  := by
  cases next with
  | none => apply brackets_succ
  | some next =>
    rw [closing, Nat.succ_sub (h next rfl), brackets_succ, String.append_assoc]
    rfl

/-- Between siblings there is only a comma. -/
theorem closing_self (depth : Nat) :
  closing depth (some depth) = ","
  := by
  rw [closing, Nat.sub_self]
  rfl

/-! ### Lines of a tree -/

namespace Visit

/-- A node with nothing in it has one line. -/
theorem lines_below_of_isEmpty {n : Node} (h : n.children = []) (place : Option Nat) (above : Path)
    (next : Option Nat) :
  lines (below ⟨n, place, above⟩) next
    = [Text.spaces (2 * above.length) ++ (n.inspect ++ closing above.length next)]
  := by
  cases n with
  | element e =>
    obtain ⟨tag, attributes, children⟩ := e
    obtain rfl : children = [] := h
    rw [Node.inspect, Element.inspect_of_isEmpty rfl, String.append_assoc]
    rfl
  | text content => rfl

/-- The line of an element with children comes before theirs. -/
theorem lines_below_of_children {e : Element} (h : e.children ≠ []) (place : Option Nat)
    (above : Path) (next : Option Nat) :
  lines (below ⟨.element e, place, above⟩) next
    = (Text.spaces (2 * above.length) ++ (e.head ++ ", ["))
      :: lines (Node.visitsFrom (⟨e, place⟩ :: above) 0 e.children) next
  := by
  obtain ⟨tag, attributes, children⟩ := e
  obtain ⟨n, ns, hchildren⟩ := List.exists_cons_of_ne_nil h
  obtain rfl : children = n :: ns := hchildren
  rw [below_eq]
  rfl

/-- The lines of a single node are those of what is below it. -/
theorem lines_singleton (above : Path) (place : Nat) (n : Node) (next : Option Nat) :
  lines (Node.visitsFrom above place [n]) next = lines (below ⟨n, some place, above⟩) next
  := by
  rw [Node.visitsFrom_cons, Node.visitsFrom, List.append_nil]

/-- Behind a node with a sibling after it comes a node with as many elements above it. -/
theorem lines_siblings (above : Path) (place : Nat) (n m : Node) (ms : List Node)
    (next : Option Nat) :
  lines (Node.visitsFrom above place (n :: m :: ms)) next
    = lines (below ⟨n, some place, above⟩) (some above.length)
      ++ lines (Node.visitsFrom above (place + 1) (m :: ms)) next
  := by
  have hfirst : firstDepth? (Node.visitsFrom above (place + 1) (m :: ms)) = some above.length := by
    rw [Node.visitsFrom_cons, below_eq]
    rfl
  rw [Node.visitsFrom_cons above place, lines_append, hfirst, Option.some_or]

end Visit

/-- Whether the lines of a node, wherever it is in a tree, are those of the nodes in it. -/
def Node.LaidOut (n : Node) : Prop :=
  ∀ (place : Option Nat) (above : Path) (next : Option Nat), (∀ d ∈ next, d ≤ above.length) →
    (Text.lines (n.layout ++ closing above.length next)).map (Text.spaces (2 * above.length) ++ ·)
      = Visit.lines (Visit.below ⟨n, place, above⟩) next

/-- A node without children is laid out if it is shown on one line. -/
theorem Node.laidOut_of_isEmpty {n : Node} (hline : Text.IsLine n.inspect) (h : n.children = []) :
  n.LaidOut
  := by
  intro place above next _
  have hlayout : n.layout = n.inspect := by
    cases n with
    | element e => apply Element.layout_of_isEmpty h
    | text content => rfl
  have hlines : Text.IsLine (n.inspect ++ closing above.length next) := by
    rw [Text.isLine_append]
    exact ⟨hline, isLine_closing above.length next⟩
  rw [Visit.lines_below_of_isEmpty h, hlayout, Text.lines_line hlines, List.map_singleton]

/-- The lines of siblings that are laid out are those of the nodes in them. -/
theorem Node.lines_layouts {above : Path} {next : Option Nat} (hnext : ∀ d ∈ next, d < above.length)
    (place : Nat) {n : Node} {ns : List Node} (h : ∀ m ∈ n :: ns, m.LaidOut) :
  (Text.lines (",\n".intercalate (Node.layouts (n :: ns)) ++ closing above.length next)).map
      (Text.spaces (2 * above.length) ++ ·)
    = Visit.lines (Node.visitsFrom above place (n :: ns)) next
  := by
  obtain ⟨hn, hns⟩ := List.forall_mem_cons.mp h
  induction ns generalizing n place with
  | nil =>
    rw [Visit.lines_singleton, ← hn (some place) above next fun d hd => Nat.le_of_lt (hnext d hd)]
    simp only [Node.layouts, String.intercalate_singleton]
  | cons m ms ih =>
    obtain ⟨hm, hms⟩ := List.forall_mem_cons.mp hns
    have hfirst := hn (some place) above (some above.length) fun d hd =>
      Nat.le_of_eq (Option.some.inj hd).symm
    have hrest := ih (place + 1) hns hm hms
    let rest := ",\n".intercalate (Node.layouts (m :: ms)) ++ closing above.length next
    have hbreak : ",\n".intercalate (Node.layouts (n :: m :: ms)) ++ closing above.length next
        = n.layout ++ "," ++ "\n" ++ rest := by
      rw [← String.toList_inj]
      simp [Node.layouts, rest]
    rw [closing_self] at hfirst
    rw [hbreak, Text.lines_append, List.map_append, hfirst, hrest, Visit.lines_siblings]

/-- An element is laid out if its children are.  They are moved in by the spaces of the element, and
then by those of its depth. -/
theorem Node.laidOut_of_children {e : Element} (htag : Text.IsLine e.tag) (hne : e.children ≠ [])
    (h : ∀ n ∈ e.children, n.LaidOut) :
  (Node.element e).LaidOut
  := by
  intro place above next hnext
  obtain ⟨tag, attributes, children⟩ := e
  obtain ⟨n, ns, hchildren⟩ := List.exists_cons_of_ne_nil hne
  obtain rfl : children = n :: ns := hchildren
  let e : Element := ⟨tag, attributes, n :: ns⟩
  let path : Path := ⟨e, place⟩ :: above
  have hnext' : ∀ d ∈ next, d < path.length := fun d hd => Nat.lt_succ_of_le (hnext d hd)
  have hrest : (Text.lines (",\n".intercalate (Node.layouts (n :: ns))
          ++ closing (above.length + 1) next)).map (Text.spaces (2 * (above.length + 1)) ++ ·)
      = Visit.lines (Node.visitsFrom path 0 (n :: ns)) next :=
    Node.lines_layouts hnext' 0 h
  have hhead : Text.IsLine (e.head ++ ", [") := by
    rw [Text.isLine_append]
    exact ⟨Element.isLine_head htag, by decide⟩
  have hspaces : (Text.spaces (2 * above.length) ++ ·) ∘ (Text.spaces 2 ++ ·)
      = (Text.spaces (2 * (above.length + 1)) ++ ·) := by
    funext line
    rw [Function.comp_apply, ← String.append_assoc, Text.spaces_append, Nat.mul_succ]
  rw [Visit.lines_below_of_children hne, Node.layout, Element.layout_of_children hne,
    String.append_assoc, Text.lines_append, Text.lines_line hhead,
    Text.lines_indent_append 2 _ (by decide) (by decide) (isLine_closing above.length next),
    ← closing_succ hnext, List.map_append, List.map_map, hspaces, hrest]
  rfl

/-- A tree is laid out if all its tags are on one line. -/
theorem Element.laidOut {e : Element} (h : e.Every fun e => Text.IsLine e.tag) :
  (Node.element e).LaidOut
  := by
  induction h with
  | @intro e htag _ ih =>
    by_cases hne : e.children = []
    · have hline : Text.IsLine e.inspect := by
        rw [Element.inspect_of_isEmpty hne, Text.isLine_append]
        exact ⟨Element.isLine_head htag, by decide⟩
      apply Node.laidOut_of_isEmpty (n := .element e) hline hne
    · apply Node.laidOut_of_children htag hne
      intro n hn
      cases n with
      | element child => apply ih child hn
      | text content =>
        apply Node.laidOut_of_isEmpty (n := .text content) (Text.isLine_quote content) rfl

/-! ### Lines put together -/

namespace Text

/-- The number of spaces in front of a line. -/
def indentation (line : String) : Nat := (line.toList.takeWhile (· = ' ')).length

/-- A line without the spaces in front of it. -/
def unindent (line : String) : String := String.ofList (line.toList.dropWhile (· = ' '))

/-- Whether a line ends in an opening bracket or a comma. -/
def IsOpen (line : String) : Prop :=
  line.toList.getLast? = some '[' ∨ line.toList.getLast? = some ','

/-- What is put behind a line: a space if it ends in a comma. -/
def gapAfter (line : String) : String := if line.toList.getLast? = some ',' then " " else ""

/-- Lines without the spaces in front of them, put together on one line. -/
def joined (list : List String) : String :=
  String.join (list.map fun line => unindent line ++ gapAfter line)

section

variable (n : Nat) {s : String} (h : ∀ c ∈ s.toList.head?, c ≠ ' ')

include h

/-- A line that is moved in is moved in by the spaces in front of it. -/
theorem indentation_spaces_append :
  indentation (spaces n ++ s) = n
  := by
  have hnone : s.toList.takeWhile (· = ' ') = [] := by
    rw [List.takeWhile_eq_nil_iff]
    intro hpos
    rw [decide_eq_true_eq]
    apply getElem_zero_of_head? h hpos
  rw [indentation, String.toList_append, spaces, String.toList_ofList,
    List.takeWhile_append_of_pos (by simp), hnone, List.append_nil, List.length_replicate]

/-- Without the spaces in front of it a line is as it was before it was moved in. -/
theorem unindent_spaces_append :
  unindent (spaces n ++ s) = s
  := by
  have hall : s.toList.dropWhile (· = ' ') = s.toList := by
    rw [List.dropWhile_eq_self_iff]
    intro hpos
    rw [decide_eq_true_eq]
    apply getElem_zero_of_head? h hpos
  rw [unindent, String.toList_append, spaces, String.toList_ofList,
    List.dropWhile_append_of_pos (by simp), hall, String.ofList_toList]

end

theorem joined_cons (line : String) (list : List String) :
  joined (line :: list) = unindent line ++ gapAfter line ++ joined list
  := by
  rw [joined, List.map_cons, String.join_cons]
  rfl

theorem joined_singleton (line : String) :
  joined [line] = unindent line ++ gapAfter line
  := by
  rw [joined_cons]
  apply String.append_empty

/-- Lines are put together part by part. -/
theorem joined_append (list list' : List String) :
  joined (list ++ list') = joined list ++ joined list'
  := by
  rw [joined, List.map_append, String.join_append]
  rfl

/-- What is put behind a text is decided by its last character. -/
theorem gapAfter_append (s : String) {t : String} (hne : t ≠ "") :
  gapAfter (s ++ t) = gapAfter t
  := by
  rw [gapAfter, getLast?_append s hne, gapAfter]

/-- How a text ends is decided by its last part. -/
theorem isOpen_append (s : String) {t : String} (hne : t ≠ "") (h : IsOpen t) :
  IsOpen (s ++ t)
  := by
  rwa [IsOpen, getLast?_append s hne]

end Text

/-- Before another node, a line ends in an opening bracket or a comma. -/
theorem Visit.isOpen_line (v : Visit) (depth : Nat) :
  Text.IsOpen (v.line (some depth))
  := by
  have hopen : ∀ s : String, Text.IsOpen (s ++ ", [") := fun s =>
    Text.isOpen_append s (by decide) (.inl rfl)
  have hclosing : ∀ s : String, Text.IsOpen (s ++ closing v.above.length (some depth)) := by
    intro s
    rw [closing, ← String.append_assoc]
    apply Text.isOpen_append _ (by decide) (.inr rfl)
  rw [line, ← String.append_assoc]
  unfold ending
  split
  · apply hopen
  · rw [← String.append_assoc]
    apply hclosing
  · apply hclosing

/-- All lines but the last come before another node. -/
theorem Visit.isOpen_of_mem_dropLast {vs : List Visit} {line : String}
    (h : line ∈ (Visit.lines vs none).dropLast) :
  Text.IsOpen line
  := by
  induction vs with
  | nil => cases h
  | cons v vs ih =>
    cases vs with
    | nil => cases h
    | cons w ws =>
      obtain rfl | hrest := List.mem_cons.mp h
      · apply Visit.isOpen_line
      · apply ih hrest

/-- What is put behind a line that ends with a node, given the number of elements above the next
node. -/
def gap : Option Nat → String
  | some _ => " "
  | none => ""

/-- No space is put behind closing brackets. -/
theorem gapAfter_append_brackets {s : String} (h : Text.gapAfter s = "") (n : Nat) :
  Text.gapAfter (s ++ brackets n) = ""
  := by
  cases n with
  | zero =>
    have hnone : brackets 0 = "" := rfl
    rwa [hnone, String.append_empty]
  | succ n =>
    have hlast : brackets (n + 1) = brackets n ++ "]]" := by
      rw [brackets, List.replicate_succ', String.join_append]
      rfl
    rw [hlast, ← String.append_assoc, Text.gapAfter_append _ (by decide)]
    rfl

/-- A space is put behind what is written after a node if another one follows at its depth. -/
theorem gapAfter_append_closing {s : String} (h : Text.gapAfter s = "") (depth : Nat)
    (next : Option Nat) :
  Text.gapAfter (s ++ closing depth next) = gap next
  := by
  cases next with
  | none => apply gapAfter_append_brackets h
  | some next =>
    rw [closing, ← String.append_assoc, Text.gapAfter_append _ (by decide)]
    rfl

/-- What is written for a node does not start with a space. -/
theorem Node.head_ne_space (n : Node) (s : String) :
  ∀ c ∈ (n.head ++ s).toList.head?, c ≠ ' '
  := by
  cases n with
  | element e =>
    have hfirst : ((Node.element e).head ++ s).toList.head? = some 'H' := by
      simp [Node.head, Element.head]
    rw [hfirst]
    rintro c ⟨⟩
    decide
  | text content =>
    have hfirst : ((Node.text content).head ++ s).toList.head? = some '"' := by
      simp [Node.head, Text.quote]
    rw [hfirst]
    rintro c ⟨⟩
    decide

/-- A node with nothing in it starts with its head, and does not end in a comma. -/
theorem Node.inspect_of_isEmpty {n : Node} (h : n.children = []) :
  (∃ rest, n.inspect = n.head ++ rest) ∧ ∀ s, Text.gapAfter (s ++ n.inspect) = ""
  := by
  cases n with
  | element e =>
    have hinspect : e.inspect = e.head ++ "]" := Element.inspect_of_isEmpty h
    refine ⟨⟨"]", hinspect⟩, ?_⟩
    intro s
    rw [Node.inspect, hinspect, ← String.append_assoc, Text.gapAfter_append _ (by decide)]
    rfl
  | text content =>
    refine ⟨⟨"", String.append_empty.symm⟩, ?_⟩
    intro s
    rw [Node.inspect, Text.quote, ← String.append_assoc, Text.gapAfter_append _ (by decide)]
    rfl

/-- The line of a node with nothing in it, among others that are put together. -/
theorem Node.joined_lines_of_isEmpty {n : Node} (h : n.children = []) (place : Option Nat)
    (above : Path) (next : Option Nat) :
  Text.joined (Visit.lines (Visit.below ⟨n, place, above⟩) next)
    = n.inspect ++ closing above.length next ++ gap next
  := by
  obtain ⟨⟨rest, hinspect⟩, hgap⟩ := Node.inspect_of_isEmpty h
  have hline : Text.unindent (Text.spaces (2 * above.length)
      ++ (n.inspect ++ closing above.length next)) = n.inspect ++ closing above.length next := by
    apply Text.unindent_spaces_append
    rw [hinspect, String.append_assoc]
    apply Node.head_ne_space
  have hbehind : Text.gapAfter (Text.spaces (2 * above.length)
      ++ (n.inspect ++ closing above.length next)) = gap next := by
    rw [← String.append_assoc]
    apply gapAfter_append_closing (hgap _)
  rw [Visit.lines_below_of_isEmpty h, Text.joined_singleton, hline, hbehind]

/-- The line of an element with children, among others that are put together. -/
theorem Element.joined_lines_of_children {e : Element} (h : e.children ≠ []) (place : Option Nat)
    (above : Path) (next : Option Nat) :
  Text.joined (Visit.lines (Visit.below ⟨.element e, place, above⟩) next)
    = e.head ++ ", ["
      ++ Text.joined (Visit.lines (Node.visitsFrom (⟨e, place⟩ :: above) 0 e.children) next)
  := by
  have hline : Text.unindent (Text.spaces (2 * above.length) ++ (e.head ++ ", ["))
      = e.head ++ ", [" := by
    apply Text.unindent_spaces_append
    apply Node.head_ne_space (.element e)
  have hbehind : Text.gapAfter (Text.spaces (2 * above.length) ++ (e.head ++ ", [")) = "" := by
    rw [← String.append_assoc, Text.gapAfter_append _ (by decide)]
    rfl
  rw [Visit.lines_below_of_children h, Text.joined_cons, hline, hbehind, String.append_empty]

mutual

/-- The lines of a node put together are the node on one line, and what stands between it and the
next one. -/
theorem Node.joined_lines (n : Node) (place : Option Nat) (above : Path) {next : Option Nat}
    (hnext : ∀ d ∈ next, d ≤ above.length) :
  Text.joined (Visit.lines (Visit.below ⟨n, place, above⟩) next)
    = n.inspect ++ closing above.length next ++ gap next
  := by
  match n with
  | .text content => apply Node.joined_lines_of_isEmpty rfl
  | .element ⟨tag, attributes, children⟩ =>
    let e : Element := ⟨tag, attributes, children⟩
    by_cases hne : children = []
    · apply Node.joined_lines_of_isEmpty (n := .element e) hne
    · have hnext' : ∀ d ∈ next, d ≤ above.length + 1 := fun d hd => Nat.le_succ_of_le (hnext d hd)
      have hchildren := Node.joined_linesFrom children hne (⟨e, place⟩ :: above) 0 hnext'
      rw [Element.joined_lines_of_children hne, hchildren, Node.inspect,
        Element.inspect_of_children hne, List.length_cons, closing_succ hnext]
      simp only [String.append_assoc]

/-- The lines of siblings put together are the siblings on one line, with commas between them. -/
theorem Node.joined_linesFrom (ns : List Node) (hne : ns ≠ []) (above : Path) (place : Nat)
    {next : Option Nat} (hnext : ∀ d ∈ next, d ≤ above.length) :
  Text.joined (Visit.lines (Node.visitsFrom above place ns) next)
    = ", ".intercalate (Node.inspects ns) ++ closing above.length next ++ gap next
  := by
  match ns with
  | [] => exact absurd rfl hne
  | [n] =>
    rw [Visit.lines_singleton, Node.joined_lines n (some place) above hnext]
    simp only [Node.inspects, String.intercalate_singleton]
  | n :: m :: ms =>
    have hfirst := Node.joined_lines n (some place) above fun d hd =>
      Nat.le_of_eq (Option.some.inj hd).symm
    have hrest := Node.joined_linesFrom (m :: ms) (List.cons_ne_nil m ms) above (place + 1) hnext
    rw [Visit.lines_siblings, Text.joined_append, hfirst, hrest, closing_self]
    simp only [Node.inspects, String.intercalate_cons_cons, gap, String.append_assoc]
    rfl

end

/-! ### The whole tree -/

/-- The lines of a tree that is laid out are those of its nodes in document order. -/
theorem Element.lines_layout {e : Element} (h : e.Every fun e => Text.IsLine e.tag) :
  Text.lines e.layout = Visit.lines e.visits none
  := by
  have hlines := Element.laidOut h none [] none fun d hd => nomatch hd
  have hclosing : closing 0 none = "" := rfl
  have hspaces : (Text.spaces 0 ++ ·) = id := by
    funext line
    apply String.empty_append
  rw [Node.layout, List.length_nil, Nat.mul_zero, hclosing, String.append_empty, hspaces,
    List.map_id] at hlines
  apply hlines

/-- A tree that is laid out has one line for each node, in document order, with two spaces for each
element above the node in front of it.  All lines but the last end in an opening bracket or a comma.
Without the spaces in front of them, and with a space behind each line that ends in a comma, the
lines put together are the tree on one line. -/
theorem Element.layout_lines {e : Element} (h : e.Every fun e => Text.IsLine e.tag) :
  (Text.lines e.layout).length = e.size
    ∧ (∀ (k : Nat) (v : Visit), e.visits[k]? = some v →
      ∃ line, (Text.lines e.layout)[k]? = some line
        ∧ Text.indentation line = 2 * v.above.length
        ∧ Text.unindent line = v.node.head ++ v.ending (e.visits[k + 1]?.map (·.above.length)))
    ∧ (∀ line ∈ (Text.lines e.layout).dropLast, Text.IsOpen line)
    ∧ Text.joined (Text.lines e.layout) = e.inspect
  := by
  rw [Element.lines_layout h]
  refine ⟨?length, ?nodes, fun line => Visit.isOpen_of_mem_dropLast, ?joined⟩
  case length =>
    rw [Visit.length_lines]
    apply e.length_visitsBelow [] none
  case nodes =>
    intro k v hv
    have hspace := v.node.head_ne_space (v.ending (e.visits[k + 1]?.map (·.above.length)))
    refine ⟨v.line (e.visits[k + 1]?.map (·.above.length)), ?_, ?_, ?_⟩
    · rw [Visit.getElem?_lines, hv, Option.map_some, Option.or_none]
    · apply Text.indentation_spaces_append _ hspace
    · apply Text.unindent_spaces_append _ hspace
  case joined =>
    have hjoined := Node.joined_lines (.element e) none [] fun d (hd : d ∈ none) => nomatch hd
    have hclosing : closing 0 none = "" := rfl
    have hgap : gap none = "" := rfl
    rw [List.length_nil, hclosing, hgap, String.append_empty, String.append_empty] at hjoined
    apply hjoined

/-- A paragraph is laid out with its children moved in, twice where there are two above. -/
theorem Element.layout_lines_paragraph :
  let b : Element := ⟨"b", .ofList [("title", "x")], [.text "s", .element (.ofTag "br")]⟩
  let e : Element := ⟨"p", .empty, [.element b, .text "t"]⟩
  let v : Visit := ⟨.element (.ofTag "br"), some 1, [⟨b, some 0⟩, ⟨e, none⟩]⟩
  let list := ["H[:p, [", "  H[:b, \x7b\"title\"=>\"x\"\x7d, [", "    \"s\",", "    H[:br]]],", "  \"t\"]]"]
  let text := "H[:p, [H[:b, \x7b\"title\"=>\"x\"\x7d, [\"s\", H[:br]]], \"t\"]]"
  (e.Every fun e => Text.IsLine e.tag)
    ∧ Text.lines e.layout = list
    ∧ list.length = e.size
    ∧ e.visits[3]? = some v
    ∧ list[3]? = some "    H[:br]]],"
    ∧ Text.indentation "    H[:br]]]," = 2 * v.above.length
    ∧ (∀ line ∈ list.dropLast, Text.IsOpen line)
    ∧ Text.joined list = e.inspect
    ∧ e.inspect = text
  := by
  intro b e v list text
  have hbr : (Element.ofTag "br").Every fun e => Text.IsLine e.tag := .intro (by decide) nofun
  have hb : b.Every fun e => Text.IsLine e.tag := by
    apply Every.intro (by decide)
    intro child hchild
    obtain rfl : child = .ofTag "br" := by simpa [b] using hchild
    exact hbr
  have he : e.Every fun e => Text.IsLine e.tag := by
    apply Every.intro (by decide)
    intro child hchild
    obtain rfl : child = b := by simpa [e] using hchild
    exact hb
  have hlist : Text.lines e.layout = list := by decide +kernel
  have hinspect : e.inspect = text := by decide +kernel
  obtain ⟨hlength, hnodes, hopen, hjoined⟩ := layout_lines he
  obtain ⟨line, hline, hindentation, -⟩ := hnodes 3 v rfl
  rw [hlist] at hlength hopen hjoined hline
  obtain rfl : "    H[:br]]]," = line := Option.some.inj hline
  exact ⟨he, hlist, hlength, rfl, hline, hindentation, hopen, hjoined, hinspect⟩

end Hypertext
