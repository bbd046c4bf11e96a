import Hypertext.Text.Utf8

/-!
# Arguments

Arguments of a command are taken out of their list one kind after the other.  A flag is taken
once.  An option has its value in the next argument, or in the same one after an equals sign,
where it may stand between quotes.  What is left of the list then is free.
-/

namespace Hypertext.CommandLine

/-- The bytes of an argument. -/
abbrev Argument : Type := List UInt8

/-- Why arguments cannot be understood. -/
inductive UsageError where
  | noValue (option : String)
  | undecodable
  | missing
  | conflict (options : List String)
  | unexpected (arguments : List String)

/-- The words for arguments that cannot be understood. -/
def UsageError.message : UsageError → String
  | .noValue option => "the '" ++ option ++ "' option doesn't have an associated value"
  | .undecodable => "argument is not a UTF-8 string"
  | .missing => "free-standing argument is missing"
  | .conflict options => "only one of " ++ ", ".intercalate options ++ " can be given"
  | .unexpected arguments => "unexpected arguments: " ++ " ".intercalate arguments

/-- The bytes of a name. -/
def bytes (name : String) : Argument := name.toUTF8.toList

/-- Takes a flag, which may have several names, and tells whether it was there; the first name
is looked for first. -/
def takeFlag : List String → List Argument → Bool × List Argument
  | [], arguments => (false, arguments)
  | name :: names, arguments =>
    if arguments.contains (bytes name) then (true, arguments.erase (bytes name))
    else takeFlag names arguments

/-- The value that an argument assigns to an option, if it assigns one to it. -/
def assigned? (option : String) (a : Argument) : Option (List Char) :=
  match Utf8.toText? a with
  | some text =>
    let start := option.toList ++ ['=']
    if start.isPrefixOf text.toList then some (text.toList.drop start.length) else none
  | none => none

/-- The text between quotes, or a text that does not start with one; it may not be empty. -/
def unquote? (value : List Char) : Option String :=
  let inner :=
    match value with
    | '"' :: rest => if rest.getLast? = some '"' then rest.dropLast else []
    | '\'' :: rest => if rest.getLast? = some '\'' then rest.dropLast else []
    | value => value
  if inner.isEmpty then none else some (String.ofList inner)

/-- Takes an option with its value, if it is there. -/
def takeOption (option : String) (arguments : List Argument) :
    Except UsageError (Option String × List Argument) :=
  let (before, here) := arguments.span (· ≠ bytes option)
  match here with
  | _ :: value :: rest =>
    match Utf8.toText? value with
    | some value => .ok (some value, before ++ rest)
    | none => .error .undecodable
  | [_] => .error (.noValue option)
  | [] =>
    match arguments.findSome? fun a => (assigned? option a).map fun value => (a, value) with
    | none => .ok (none, arguments)
    | some (a, value) =>
      match unquote? value with
      | some value => .ok (some value, arguments.erase a)
      | none => .error (.noValue option)

/-- Takes the first argument that is left. -/
def takeFree : List Argument → Except UsageError (String × List Argument)
  | [] => .error .missing
  | a :: rest =>
    match Utf8.toText? a with
    | some text => .ok (text, rest)
    | none => .error .undecodable

end Hypertext.CommandLine
