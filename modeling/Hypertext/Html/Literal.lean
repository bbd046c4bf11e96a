import Hypertext.Html.Parser
import Hypertext.Literal.Normal

/-!
# HTML as literals

`Html.parseLiteral` reads a document as a literal, a list of tag, attributes and children for each
element, with all attributes that are written in its opening tag.  `Html.parseByLiteral` reads the
document that way and the literal as an element, so that it can fail for either reason.
-/

namespace Hypertext.Html

namespace Grammar

/-- An opening tag with its attributes as they are written, of which several may have one name. -/
structure WrittenTag where
  name : String
  pairs : List (String × String)
  isClosed : Bool

/-- Whether an element ends with its opening tag. -/
def WrittenTag.isLeaf (tag : WrittenTag) : Bool := tag.isClosed || voidTags.contains tag.name

/-- The literal of an opening tag with the literals of its children. -/
def WrittenTag.literal (tag : WrittenTag) (children : List Literal) : Literal :=
  .list [.tag tag.name, .map (tag.pairs.map fun p => (p.1, .str p.2)), .list children]

/-- Reads an opening tag with its attributes as they are written. -/
def writtenTag : Reader WrittenTag := do
  Reader.char '<'
  let name ← tagName
  let pairs ← Reader.many tagAttribute
  Reader.spaces
  let isClosed ← tagEnd
  return ⟨name, pairs, isClosed⟩

instance : writtenTag.Consumes := by
  unfold writtenTag
  infer_instance

mutual

/-- Reads the literal of an element from the front of a text; what is left is shorter. -/
def elementLiteralFrom (s : List Char) :
    Except (List Char) (Literal × { t : List Char // t.length < s.length }) :=
  match h : writtenTag s with
  | .error t => .error t
  | .ok (tag, t) =>
    have ht := Reader.Consumes.shorter h
    if tag.isLeaf then .ok (tag.literal [], ⟨t, ht⟩)
    else if rawTags.contains tag.name then
      match hu : rawBody tag.name t with
      | .error u => .error u
      | .ok (children, u) =>
        have hut := (Reader.Forward.suffix_of_ok hu).length_le
        .ok (tag.literal (children.map Literal.ofChild), ⟨u, by omega⟩)
    else
      let (children, ⟨u, hut⟩) := contentLiteralsFrom t
      match hv : closeTagOf tag.name u with
      | .error v => .error v
      | .ok (_, v) =>
        have hvu := (Reader.Forward.suffix_of_ok hv).length_le
        .ok (tag.literal children, ⟨v, by omega⟩)
termination_by (s.length, 0)

/-- Reads the literals of the children of an element from the front of a text, up to where there is
neither a comment nor an element nor text. -/
def contentLiteralsFrom (s : List Char) :
    List Literal × { t : List Char // t.length ≤ s.length } :=
  match h : comment s with
  | .ok (_, t) =>
    have ht := Reader.Consumes.shorter h
    let (ls, ⟨u, hu⟩) := contentLiteralsFrom t
    (ls, ⟨u, by omega⟩)
  | .error _ =>
    match elementLiteralFrom s with
    | .ok (l, ⟨t, ht⟩) =>
      let (ls, ⟨u, hu⟩) := contentLiteralsFrom t
      (l :: ls, ⟨u, by omega⟩)
    | .error _ =>
      match h : text s with
      | .ok (n, t) =>
        have ht := Reader.Consumes.shorter h
        let (ls, ⟨u, hu⟩) := contentLiteralsFrom t
        (.ofChild n :: ls, ⟨u, by omega⟩)
      | .error _ => ([], ⟨s, Nat.le_refl _⟩)
termination_by (s.length, 1)

end

/-- Reads an element as a literal. -/
def elementLiteral : Reader Literal := fun s =>
  (elementLiteralFrom s).map fun p => (p.1, p.2.1)

/-- Reads the children of an element as literals. -/
def contentLiterals : Reader (List Literal) := fun s =>
  .ok ((contentLiteralsFrom s).1, (contentLiteralsFrom s).2.1)

end Grammar

/-- Reads the root element of a document as a literal, and what stands around it. -/
def documentLiteral : Reader Literal := do
  Grammar.misc
  let root ← Grammar.elementLiteral
  Grammar.misc
  return root

/-- Reads a document as a literal. -/
def parseLiteral (input : String) : Except ParseError Literal :=
  match documentLiteral input.toList with
  | .error rest => .error (.stopped .document input rest)
  | .ok (root, rest) =>
    if rest.isEmpty then .ok root else .error (.before .document input rest .afterRoot)

/-- Reads a document as a literal, and the literal as an element. -/
def parseByLiteral (input : String) : Except Error Element := do
  let l ← (parseLiteral input).mapError .parse
  l.toElement.mapError .format

end Hypertext.Html
