import Hypertext.CommandLine.Arguments
import Hypertext.Html.Parser
import Hypertext.Html.Writer
import Hypertext.Selection

/-!
# The command

The command reads a document, finds the elements that match a selector, and writes the elements,
their number, or the document with all of them changed.  `Invocation.ofArguments` understands
the arguments and `Invocation.run` does the work on the bytes of the input; both are functions,
so that a program has only to bring the bytes and to write the `Outcome`.
-/

namespace Hypertext

/-- What is done with the elements that a selector finds. -/
inductive Action where
  | print
  | count
  | remove
  | addClass (names : String)
  | wrap (tag : String)
deriving DecidableEq, Repr

/-- What a command was asked to do. -/
structure Invocation where
  selector : String
  action : Action
  options : HtmlOptions

/-- What a command writes, and the code with which it ends. -/
structure Outcome where
  code : Nat
  output : String
  errors : String
deriving DecidableEq, Repr

namespace Invocation

open CommandLine

/-- Understands the arguments of the command. -/
def ofArguments (arguments : List Argument) : Except UsageError Invocation := do
  let (_, arguments) := takeFlag ["-t", "--trace"] arguments
  let (plain, arguments) := takeFlag ["--no-doctype"] arguments
  let (charset, arguments) ← takeOption "--encoding" arguments
  let (counts, arguments) := takeFlag ["--count"] arguments
  let (removes, arguments) := takeFlag ["--remove"] arguments
  let (names, arguments) ← takeOption "--add-class" arguments
  let (tag, arguments) ← takeOption "--wrap" arguments
  let given : List (String × Action) :=
    (if counts then [("--count", .count)] else [])
      ++ (if removes then [("--remove", .remove)] else [])
      ++ (names.map fun names => ("--add-class", .addClass names)).toList
      ++ (tag.map fun tag => ("--wrap", .wrap tag)).toList
  let action ←
    match given with
    | [] => .ok .print
    | [(_, action)] => .ok action
    | _ => .error (.conflict (given.map Prod.fst))
  let (selector, arguments) ← takeFree arguments
  if arguments.isEmpty then
    let defaults : HtmlOptions := {}
    return ⟨selector, action,
      { defaults with doctype := !plain, charset := charset.getD defaults.charset }⟩
  else .error (.unexpected (arguments.map Utf8.toTextLossy))

/-- What the command writes for a document. -/
def answer (i : Invocation) (document : Element) : Except Error String := do
  let selection ← (Selection.ofText i.selector document).mapError .parse
  match i.action with
  | .print => return "\n".intercalate (selection.toList.map Element.toFragment)
  | .count => return toString selection.toList.length
  | .remove => return (← selection.remove).toHtml i.options
  | .addClass names => return (← selection.addClass names).toHtml i.options
  | .wrap tag => return (← selection.wrap tag .empty).toHtml i.options

/-- What the command writes for the bytes of a document. -/
def answerBytes (i : Invocation) (input : List UInt8) : Except Error String := do
  match Utf8.toText? input with
  | none => .error (.illegalRequest .undecodableInput)
  | some text =>
    let document ← (Html.parse text).mapError .parse
    i.answer document

/-- The outcome of the command for the bytes of a document. -/
def run (i : Invocation) (input : List UInt8) : Outcome :=
  match i.answerBytes input with
  | .ok text => ⟨0, text ++ "\n", ""⟩
  | .error e => ⟨1, "", "error: " ++ e.message ++ "\n"⟩

end Invocation

/-- How the command is used. -/
def usage : String :=
  "usage: hexp [--trace] [--count|--remove|--add-class C|--wrap T] [--no-doctype] [--encoding E]"
    ++ " SELECTOR < input.html"

/-- The outcome for arguments that cannot be understood. -/
def CommandLine.UsageError.outcome (e : CommandLine.UsageError) : Outcome :=
  ⟨2, "", "error: " ++ e.message ++ "\n" ++ usage ++ "\n"⟩

/-- The outcome of the command for its arguments and the bytes of its input. -/
def command (arguments : List CommandLine.Argument) (input : List UInt8) : Outcome :=
  match Invocation.ofArguments arguments with
  | .error e => e.outcome
  | .ok i => i.run input

end Hypertext
