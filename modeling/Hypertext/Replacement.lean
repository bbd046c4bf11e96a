import Hypertext.Literal.Normal

/-!
# Replacements

What a function that rewrites a tree may answer with: a node, a text, a literal, a list of such
answers, an answer that may be missing, or one that may have failed.  `ToReplacement` turns each
of them into the nodes that take the place of the node that was rewritten.
-/

namespace Hypertext

/-- An answer that stands for a list of nodes, or for an error. -/
class ToReplacement (α : Type) where
  replacement : α → Except Error (List Node)

namespace ToReplacement

instance : ToReplacement Element := ⟨fun e => .ok [.element e]⟩

instance : ToReplacement Node := ⟨fun n => .ok [n]⟩

instance : ToReplacement String := ⟨fun content => .ok [.text content]⟩

instance : ToReplacement Literal := ⟨fun l => l.toNodes.mapError .format⟩

variable {α : Type} [ToReplacement α]

/-- The replacements of several answers, in order. -/
def replacements : List α → Except Error (List Node)
  | [] => .ok []
  | a :: as => do
    let ns ← replacement a
    let more ← replacements as
    return ns ++ more

instance : ToReplacement (List α) := ⟨replacements⟩

/-- A missing answer is an error: to keep a node, it is not selected. -/
instance : ToReplacement (Option α) :=
  ⟨fun
    | some a => replacement a
    | none => .error (.format .noAnswer)⟩

instance : ToReplacement (Except Error α) := ⟨fun x => x.bind replacement⟩

/-- A list of nodes is its own replacement. -/
theorem replacements_nodes (ns : List Node) :
  replacement ns = .ok ns
  := by
  change replacements ns = .ok ns
  induction ns with
  | nil => rfl
  | cons n ns ih =>
    rw [replacements, ih]
    rfl

end ToReplacement

end Hypertext
