import Hypertext.Error
import Hypertext.Html.Grammar

/-!
# Reading HTML

`Html.parse` reads a document with a single root element, around which there may be spaces,
comments and doctypes.  An error is reported at the place where the grammar stops.
-/

namespace Hypertext.Html

/-- Reads the root element of a document and what stands around it. -/
def document : Reader Element := do
  Grammar.misc
  let root ← Grammar.element
  Grammar.misc
  return root

/-- Reads a document. -/
def parse (input : String) : Except ParseError Element :=
  match document input.toList with
  | .error rest => .error (.stopped .document input rest)
  | .ok (root, rest) =>
    if rest.isEmpty then .ok root else .error (.before .document input rest .afterRoot)

end Hypertext.Html
