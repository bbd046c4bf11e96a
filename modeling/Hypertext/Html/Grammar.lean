import Hypertext.Html.Entity
import Hypertext.Tree

/-!
# The grammar of HTML

The readers of this module take the parts of an HTML document: `misc` what may stand around the
root element and `element` an element with all it holds.  Tags are read in lower case.  Void
elements and elements that are closed in their opening tag have no children, and the text of a
raw element goes up to its closing tag.

`element_eq` and `content_eq` give the two readers that call each other as equations.
-/

namespace Hypertext.Html.Grammar

/-- The tags of the elements that have neither children nor a closing tag. -/
def voidTags : List String :=
  ["area", "base", "br", "col", "embed", "hr", "img", "input", "link", "meta", "source", "track",
    "wbr"]

/-- The tags of the elements whose content is taken as text up to the closing tag. -/
def rawTags : List String := ["script", "style"]

/-- No raw element is void. -/
theorem not_mem_voidTags_of_raw :
  ∀ tag ∈ rawTags, tag ∉ voidTags
  := by
  decide

/-! ### Around the root -/

/-- The part of a text before the first place where a test passes, and what is left there. -/
def splitWhere (p : List Char → Bool) : List Char → Option (List Char × List Char)
  | [] => if p [] then some ([], []) else none
  | c :: cs =>
    if p (c :: cs) then some ([], c :: cs)
    else (splitWhere p cs).map fun r => (c :: r.1, r.2)

/-- The two parts of a text make up the text. -/
theorem append_of_splitWhere {p : List Char → Bool} {s t u : List Char}
    (h : splitWhere p s = some (t, u)) :
  t ++ u = s
  := by
  induction s generalizing t with
  | nil =>
    simp only [splitWhere] at h
    split at h <;> simp_all
  | cons c cs ih =>
    simp only [splitWhere] at h
    split at h
    · simp_all
    · obtain ⟨r, hr, h⟩ := Option.map_eq_some_iff.1 h
      obtain ⟨rfl, rfl⟩ := Prod.mk.inj h
      rw [List.cons_append, ih hr]

/-- Reads the text before the first place where a test passes. -/
def upTo (p : List Char → Bool) : Reader (List Char) := fun s =>
  match splitWhere p s with
  | some r => .ok r
  | none => .error s

instance (p : List Char → Bool) : (upTo p).Forward where
  suffix_of_ok {s t a} h := by
    cases hs : splitWhere p s with
    | none => simp [upTo, hs] at h
    | some r =>
      simp only [upTo, hs] at h
      obtain rfl := Except.ok.inj h
      exact ⟨a, append_of_splitWhere hs⟩
  suffix_of_error {s t} h := by
    cases hs : splitWhere p s with
    | none => simp_all [upTo]
    | some r => simp [upTo, hs] at h

/-- Whether a text starts with another one, which is in lower case, in any case. -/
def startsWithAnyCase (text s : List Char) : Bool :=
  (s.take text.length).map Char.toLower == text

/-- Reads a given text, which is in lower case, in any case. -/
def exactlyAnyCase (text : List Char) : Reader Unit := fun s =>
  if startsWithAnyCase text s then .ok ((), s.drop text.length) else .error s

instance (text : List Char) : (exactlyAnyCase text).Forward where
  suffix_of_ok {s t a} h := by
    by_cases hp : startsWithAnyCase text s
    · simp only [exactlyAnyCase, hp, if_true] at h
      obtain ⟨-, rfl⟩ := Prod.mk.inj (Except.ok.inj h)
      apply List.drop_suffix
    · simp [exactlyAnyCase, hp] at h
  suffix_of_error {s t} h := by
    by_cases hp : startsWithAnyCase text s
    · simp [exactlyAnyCase, hp] at h
    · simp_all [exactlyAnyCase]

/-- Reads a comment. -/
def comment : Reader Unit := do
  Reader.exactly ['<', '!', '-', '-']
  let _ ← upTo (['-', '-', '>'].isPrefixOf ·)
  Reader.exactly ['-', '-', '>']

instance : comment.Consumes := by
  unfold comment
  infer_instance

/-- Reads a doctype. -/
def doctype : Reader Unit := do
  exactlyAnyCase ['<', '!', 'd', 'o', 'c', 't', 'y', 'p', 'e']
  let _ ← Reader.run1 (· ≠ '>')
  Reader.char '>'

instance : doctype.Consumes := by
  unfold doctype
  infer_instance

/-- Reads spaces, comments and doctypes, all of which are dropped. -/
def misc : Reader Unit := do
  let _ ← Reader.many ((Reader.spaces1.or comment).or doctype)

instance : misc.Forward := by
  unfold misc
  infer_instance

/-! ### Tags -/

/-- Whether a character may follow the first letter of a tag. -/
def isTagChar (c : Char) : Bool := c.isAlphanum || c = '-' || c = ':'

/-- Reads a tag. -/
def tagName : Reader String := do
  let c ← Reader.satisfying Char.isAlpha
  let cs ← Reader.run isTagChar
  return String.ofList ((c :: cs).map Char.toLower)

instance : tagName.Consumes := by
  unfold tagName
  infer_instance

/-- Whether a character may stand in the name of an attribute. -/
def isAttributeChar (c : Char) : Bool :=
  !(Reader.isSpace c || ['"', '\'', '>', '/', '='].contains c)

/-- Whether a character may stand in a value without quotes. -/
def isBareChar (c : Char) : Bool :=
  !(Reader.isSpace c || ['"', '\'', '=', '<', '>', '\x60'].contains c)

/-- Reads a value between quotes. -/
def quotedValue (quote : Char) : Reader (List Char) := do
  Reader.char quote
  let cs ← Reader.run (· ≠ quote)
  Reader.char quote
  return cs

instance (quote : Char) : (quotedValue quote).Forward := by
  unfold quotedValue
  infer_instance

/-- Reads an equals sign among spaces and the value after it. -/
def assignedValue : Reader (List Char) := do
  Reader.spaces
  Reader.char '='
  Reader.spaces
  ((quotedValue '\'').or (quotedValue '"')).or (Reader.run1 isBareChar)

instance : assignedValue.Forward := by
  unfold assignedValue
  infer_instance

/-- Reads spaces and an attribute; one without a value has the empty value. -/
def tagAttribute : Reader (String × String) := do
  Reader.spaces1
  let name ← Reader.run1 isAttributeChar
  let value ← assignedValue.option
  return (String.ofList name, String.ofList (decode (value.getD [])))

instance : tagAttribute.Consumes := by
  unfold tagAttribute
  infer_instance

/-- An opening tag. -/
structure OpenTag where
  name : String
  attributes : Attributes
  isClosed : Bool

/-- The element of an opening tag with its children. -/
def OpenTag.element (tag : OpenTag) (children : List Node) : Element :=
  ⟨tag.name, tag.attributes, children⟩

/-- Whether an element ends with its opening tag. -/
def OpenTag.isLeaf (tag : OpenTag) : Bool := tag.isClosed || voidTags.contains tag.name

/-- Reads the end of an opening tag and tells whether it also closes the element. -/
def tagEnd : Reader Bool :=
  Reader.or (do Reader.exactly ['/', '>']; return true) (do Reader.char '>'; return false)

instance : tagEnd.Forward := by
  unfold tagEnd
  infer_instance

/-- Reads an opening tag; of several attributes of one name the last value counts. -/
def openTag : Reader OpenTag := do
  Reader.char '<'
  let name ← tagName
  let attributes ← Reader.many tagAttribute
  Reader.spaces
  let isClosed ← tagEnd
  return ⟨name, .ofList attributes, isClosed⟩

instance : openTag.Consumes := by
  unfold openTag
  infer_instance

/-- Reads a closing tag. -/
def closeTag : Reader String := do
  Reader.exactly ['<', '/']
  let name ← tagName
  Reader.spaces
  Reader.char '>'
  return name

instance : closeTag.Forward := by
  unfold closeTag
  infer_instance

/-- Reads the closing tag of a given name; another closing tag is not taken. -/
def closeTagOf (name : String) : Reader Unit := fun s =>
  match closeTag s with
  | .ok (closed, t) => if closed = name then .ok ((), t) else .error s
  | .error t => .error t

instance (name : String) : (closeTagOf name).Forward where
  suffix_of_ok {s t a} h := by
    cases hc : closeTag s with
    | ok p =>
      simp only [closeTagOf, hc] at h
      split at h
      · obtain ⟨-, rfl⟩ := Prod.mk.inj (Except.ok.inj h)
        exact Reader.Forward.suffix_of_ok hc
      · simp at h
    | error u => simp [closeTagOf, hc] at h
  suffix_of_error {s t} h := by
    cases hc : closeTag s with
    | ok p =>
      simp only [closeTagOf, hc] at h
      split at h
      · simp at h
      · obtain rfl := Except.error.inj h
        exact List.suffix_rfl
    | error u =>
      simp only [closeTagOf, hc] at h
      obtain rfl := Except.error.inj h
      exact Reader.Forward.suffix_of_error hc

/-! ### Elements -/

/-- Reads a run of text. -/
def text : Reader Node := do
  let cs ← Reader.run1 (· ≠ '<')
  return .text (String.ofList (decode cs))

instance : text.Consumes := by
  unfold text
  infer_instance

/-- Reads the text of a raw element, up to what looks like its closing tag. -/
def rawText (name : String) : Reader (List Node) := do
  let cs ← upTo (startsWithAnyCase ('<' :: '/' :: name.toList))
  return if cs.isEmpty then [] else [.text (String.ofList cs)]

instance (name : String) : (rawText name).Forward := by
  unfold rawText
  infer_instance

/-- Reads the text of a raw element and the closing tag. -/
def rawBody (name : String) : Reader (List Node) := do
  let children ← rawText name
  closeTagOf name
  return children

instance (name : String) : (rawBody name).Forward := by
  unfold rawBody
  infer_instance

mutual

/-- Reads an element from the front of a text; what is left is shorter. -/
def elementFrom (s : List Char) :
    Except (List Char) (Element × { t : List Char // t.length < s.length }) :=
  match h : openTag s with
  | .error t => .error t
  | .ok (tag, t) =>
    have ht := Reader.Consumes.shorter h
    if tag.isLeaf then .ok (tag.element [], ⟨t, ht⟩)
    else if rawTags.contains tag.name then
      match hu : rawBody tag.name t with
      | .error u => .error u
      | .ok (children, u) =>
        have hut := (Reader.Forward.suffix_of_ok hu).length_le
        .ok (tag.element children, ⟨u, by omega⟩)
    else
      let (children, ⟨u, hut⟩) := contentFrom t
      match hv : closeTagOf tag.name u with
      | .error v => .error v
      | .ok (_, v) =>
        have hvu := (Reader.Forward.suffix_of_ok hv).length_le
        .ok (tag.element children, ⟨v, by omega⟩)
termination_by (s.length, 0)

/-- Reads the children of an element from the front of a text, up to where there is neither a
comment nor an element nor text. -/
def contentFrom (s : List Char) : List Node × { t : List Char // t.length ≤ s.length } :=
  match h : comment s with
  | .ok (_, t) =>
    have ht := Reader.Consumes.shorter h
    let (ns, ⟨u, hu⟩) := contentFrom t
    (ns, ⟨u, by omega⟩)
  | .error _ =>
    match elementFrom s with
    | .ok (e, ⟨t, ht⟩) =>
      let (ns, ⟨u, hu⟩) := contentFrom t
      (.element e :: ns, ⟨u, by omega⟩)
    | .error _ =>
      match h : text s with
      | .ok (n, t) =>
        have ht := Reader.Consumes.shorter h
        let (ns, ⟨u, hu⟩) := contentFrom t
        (n :: ns, ⟨u, by omega⟩)
      | .error _ => ([], ⟨s, Nat.le_refl _⟩)
termination_by (s.length, 1)

end

/-- Reads an element. -/
def element : Reader Element := fun s => (elementFrom s).map fun p => (p.1, p.2.1)

/-- Reads the children of an element. -/
def content : Reader (List Node) := fun s => .ok ((contentFrom s).1, (contentFrom s).2.1)

/-- Reads the children of an element and its closing tag. -/
def body (name : String) : Reader (List Node) := do
  let children ← content
  closeTagOf name
  return children

/-- An element is an opening tag and, unless that ends it, a body. -/
theorem element_eq :
  element = (do
    let tag ← openTag
    if tag.isLeaf then return tag.element []
    else if rawTags.contains tag.name then return tag.element (← rawBody tag.name)
    else return tag.element (← body tag.name))
  := by
  funext s
  rw [element, elementFrom]
  split
  · next h => rw [Reader.bind_error h]; rfl
  · next tag t h =>
    rw [Reader.bind_ok h]
    split
    · rfl
    · split
      · split
        · next hu => rw [Reader.bind_error hu]; rfl
        · next hu => rw [Reader.bind_ok hu]; rfl
      · have hc : content t = .ok ((contentFrom t).1, (contentFrom t).2.1) := rfl
        simp only
        split
        · next hv =>
          rw [Reader.bind_error (by rw [body, Reader.bind_ok hc, Reader.bind_error hv])]
          rfl
        · next hv =>
          rw [Reader.bind_ok (by rw [body, Reader.bind_ok hc, Reader.bind_ok hv]; rfl)]
          rfl

/-- Reads an element or a run of text. -/
def item : Reader Node := Reader.or (do return .element (← element)) text

/-- A comment in content is dropped. -/
theorem content_of_comment {s t : List Char} {a : Unit} (h : comment s = .ok (a, t)) :
  content s = content t
  := by
  rw [content, contentFrom]
  split
  · next h' =>
    obtain ⟨-, rfl⟩ := Prod.mk.inj (Except.ok.inj (h'.symm.trans h))
    rfl
  · next h' => cases h'.symm.trans h

/-- An element or a text in content is one of its nodes. -/
theorem content_of_item {s t u : List Char} {n : Node} (hc : comment s = .error u)
    (h : item s = .ok (n, t)) :
  content s = (do return n :: (← content)) t
  := by
  rw [content, contentFrom]
  split
  · next h' => cases h'.symm.trans hc
  · split
    · next e v hv he =>
      have he : element s = .ok (e, v) := by rw [element, he]; rfl
      rw [item, Reader.or_of_ok (Reader.bind_ok he)] at h
      obtain ⟨rfl, rfl⟩ := Prod.mk.inj (Except.ok.inj h)
      rfl
    · next v he =>
      have he : element s = .error v := by rw [element, he]; rfl
      rw [item, Reader.or_of_error (Reader.bind_error he)] at h
      split
      · next h' =>
        obtain ⟨rfl, rfl⟩ := Prod.mk.inj (Except.ok.inj (h'.symm.trans h))
        rfl
      · next h' => cases h'.symm.trans h

/-- Content ends where there is nothing that belongs to it. -/
theorem content_of_error {s t u : List Char} (hc : comment s = .error u)
    (h : item s = .error t) :
  content s = .ok ([], s)
  := by
  rw [content, contentFrom]
  split
  · next h' => cases h'.symm.trans hc
  · split
    · next e v hv he =>
      have he : element s = .ok (e, v) := by rw [element, he]; rfl
      rw [item, Reader.or_of_ok (Reader.bind_ok he)] at h
      cases h
    · next v he =>
      have he : element s = .error v := by rw [element, he]; rfl
      rw [item, Reader.or_of_error (Reader.bind_error he)] at h
      split
      · next h' => cases h'.symm.trans h
      · rfl

end Hypertext.Html.Grammar
