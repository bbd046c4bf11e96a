import Hypertext.Literal

/-!
# Errors

An `Error` says what went wrong as a value; `Error.message` puts it into words, and the words
are written nowhere else.

A text that cannot be read is reported with the place where reading stopped, as an offset in
bytes.  `ParseError.at` takes that place as the part of the input that was left, and
`ParseError.stopped` names what stands there.
-/

namespace Hypertext

/-! ### Literals -/

/-- Why a value does not describe a tree. -/
inductive FormatError where
  | emptyElement
  | noTag (got : Literal)
  | attributeValue (name : String) (got : Literal)
  | child (position : Nat) (got : Literal)
  | notElement (got : Literal)
  | objectIsText (content : String)
  | notChildren (got : Literal)
  | noAnswer
  | rootNotOneElement (got : List Node)
  | other (reason : String)

/-- The words for a value that does not describe a tree. -/
def FormatError.message : FormatError → String
  | .emptyElement => "empty node literal"
  | .noTag got => "a node literal must start with a tag, got " ++ got.inspect
  | .attributeValue name got =>
    "attribute " ++ Text.quote name ++ " must have a scalar value, got " ++ got.inspect
  | .child position got =>
    "invalid value in node literal at position " ++ toString position ++ ": " ++ got.inspect
      ++ " is not a string, a node or a node literal"
  | .notElement got => "expected a node literal, got " ++ got.inspect
  | .objectIsText content =>
    "expected a node, but the object converted to text " ++ Text.quote content
  | .notChildren got => "expected a node or a list of nodes, got " ++ got.inspect
  | .noAnswer => "a rewrite must return a node or a list of nodes, got nothing"
  | .rootNotOneElement got =>
    "the root must be replaced by exactly one element, got " ++ bracketed (Node.inspects got)
  | .other reason => reason

/-! ### Texts -/

/-- What a text is read as. -/
inductive Reading where
  | selector
  | document
deriving DecidableEq, Repr

/-- The name of what a text is read as. -/
def Reading.name : Reading → String
  | .selector => "selector"
  | .document => "HTML document"

/-- Why a text cannot be read. -/
inductive ParseFault where
  | unexpectedEnd
  | unexpected (rest : List Char)
  | trailing (rest : List Char)
  | afterRoot
  | combinator (symbol : Char)
  | operator (symbol : String)
  | flag (name : String)
  | pseudoElement (name : String)
  | pseudoFunction (name : String)
  | pseudoClass (name : String)
  | other (reason : String)
deriving DecidableEq, Repr

/-- The words for what makes a text unreadable; of the input that is unexpected, they show the
first sixteen characters. -/
def ParseFault.message : ParseFault → String
  | .unexpectedEnd => "unexpected end of input"
  | .unexpected rest => "unexpected input " ++ Text.quote (String.ofList (rest.take 16))
  | .trailing rest => "unexpected trailing input " ++ Text.quote (String.ofList rest)
  | .afterRoot => "unexpected trailing input after the root element"
  | .combinator symbol =>
    "unsupported combinator '" ++ String.singleton symbol
      ++ "', only descendant selectors are supported"
  | .operator symbol => "unknown attribute operator " ++ Text.quote symbol
  | .flag name => "unknown attribute selector flag " ++ Text.quote name
  | .pseudoElement name => "pseudo-element ::" ++ name ++ " is not supported"
  | .pseudoFunction name => "pseudo-class :" ++ name ++ "() is not supported"
  | .pseudoClass name => "pseudo-class :" ++ name ++ " is not supported"
  | .other reason => reason

/-- A text that cannot be read, the place where that shows, and the reason. -/
structure ParseError where
  reading : Reading
  input : String
  offset : Nat
  fault : ParseFault
deriving DecidableEq, Repr

/-- The number of bytes of a text in UTF-8. -/
def byteLength (cs : List Char) : Nat := (String.ofList cs).utf8ByteSize

namespace ParseError

/-- The error at a number of bytes from the start of the input; a place outside the input counts
as its end. -/
def atPosition (reading : Reading) (input : String) (position : Int) (fault : ParseFault) :
    ParseError :=
  let inside := 0 ≤ position ∧ position ≤ input.utf8ByteSize
  ⟨reading, input, if inside then position.toNat else input.utf8ByteSize, fault⟩

/-- The error at the place where `rest` is left of the input. -/
def before (reading : Reading) (input : String) (rest : List Char) (fault : ParseFault) :
    ParseError :=
  atPosition reading input (input.utf8ByteSize - byteLength rest) fault

/-- The bytes of a text are those of its two parts. -/
theorem utf8ByteSize_eq {input : String} {start rest : List Char}
    (h : input.toList = start ++ rest) :
  input.utf8ByteSize = byteLength start + byteLength rest
  := by
  rw [byteLength, byteLength, ← String.utf8ByteSize_append, ← String.ofList_append, ← h,
    String.ofList_toList]

/-- The error where the rest of the input is left is at the number of bytes before it. -/
theorem before_eq {reading : Reading} {input : String} {start rest : List Char}
    (h : input.toList = start ++ rest) (fault : ParseFault) :
  before reading input rest fault = ⟨reading, input, byteLength start, fault⟩
  := by
  have hsize := utf8ByteSize_eq h
  have hposition : (input.utf8ByteSize : Int) - byteLength rest = byteLength start := by
    omega
  have hinside : (0 : Int) ≤ byteLength start ∧ (byteLength start : Int) ≤ input.utf8ByteSize := by
    omega
  rw [before, hposition, atPosition]
  simp only [hinside, and_self, if_true, Int.toNat_natCast]

/-- What is wrong where a text cannot be read on: it ends there, or something else is there. -/
def faultBefore (rest : List Char) : ParseFault :=
  if rest.isEmpty then .unexpectedEnd else .unexpected rest

/-- The error of a text that cannot be read on from where `rest` is left. -/
def stopped (reading : Reading) (input : String) (rest : List Char) : ParseError :=
  before reading input rest (faultBefore rest)

/-- The error of a text that is too short. -/
def incomplete (reading : Reading) (input : String) : ParseError :=
  before reading input [] .unexpectedEnd

/-- The words for a text that cannot be read. -/
def message (e : ParseError) : String :=
  "could not parse " ++ e.reading.name ++ " " ++ Text.quote e.input ++ " at offset "
    ++ toString e.offset ++ ": " ++ e.fault.message

end ParseError

/-! ### Requests -/

/-- Why a request makes no sense. -/
inductive RequestError where
  | walkEnded
  | walkStopped
  | noRewriter
  | rewriteOfText (content : String)
  | rewriteOfSomeText
  | attributeOnText (name content : String)
  | noAttributeName
  | undecodableInput
  | other (reason : String)
deriving DecidableEq, Repr

/-- The words for a request that makes no sense. -/
def RequestError.message : RequestError → String
  | .walkEnded => "the walk has ended"
  | .walkStopped => "the walk stopped before the end of the tree"
  | .noRewriter => "this walk has no rewriter"
  | .rewriteOfText content => "cannot rewrite text node " ++ Text.quote content
  | .rewriteOfSomeText => "cannot rewrite a text node"
  | .attributeOnText name content =>
    "cannot set attribute " ++ Text.quote name ++ " on text node " ++ Text.quote content
  | .noAttributeName => "attribute name must not be nil"
  | .undecodableInput => "could not read stdin: stream did not contain valid UTF-8"
  | .other reason => reason

/-! ### All errors -/

/-- What can go wrong when a tree is built, written, searched or rewritten. -/
inductive Error where
  | format (e : FormatError)
  | parse (e : ParseError)
  | illegalRequest (e : RequestError)
  /-- A call with `got` arguments where one or two are expected. -/
  | arity (got : Nat)

/-- The words for an error. -/
def Error.message : Error → String
  | .format e => "invalid node literal: " ++ e.message
  | .parse e => e.message
  | .illegalRequest e => "illegal request: " ++ e.message
  | .arity got => "wrong number of arguments (" ++ toString got ++ " for 1..2)"

end Hypertext
