import Hypertext.Error

/-!
# Effects

An `Effect` may change a state and may fail, and the changes made before a failure stay.  Functions
that rewrite a tree are effects: they see the state that earlier ones left.
-/

namespace Hypertext

/-- A computation that may fail and that changes a state either way. -/
def Effect (σ α : Type) : Type := σ → Except Error α × σ

namespace Effect

variable {σ α β : Type}

instance : Monad (Effect σ) where
  pure a := fun m => (.ok a, m)
  bind x f := fun m =>
    match x m with
    | (.ok a, m') => f a m'
    | (.error e, m') => (.error e, m')

/-- Fails. -/
def fail (e : Error) : Effect σ α := fun m => (.error e, m)

/-- An answer that does not depend on the state. -/
def ofExcept (x : Except Error α) : Effect σ α := fun m => (x, m)

/-- Doing nothing gives its value and keeps the memory. -/
theorem pure_apply (a : α) (m : σ) :
  (pure a : Effect σ α) m = (.ok a, m)
  := rfl

/-- What comes second goes on with the value and the memory of what came first. -/
theorem bind_ok {x : Effect σ α} {f : α → Effect σ β} {m m' : σ} {a : α}
    (h : x m = (.ok a, m')) :
  (x >>= f) m = f a m'
  := by
  simp [bind, h]

/-- What comes second is not done if what comes first fails. -/
theorem bind_error {x : Effect σ α} {f : α → Effect σ β} {m m' : σ} {e : Error}
    (h : x m = (.error e, m')) :
  (x >>= f) m = (.error e, m')
  := by
  simp [bind, h]

theorem id_map (x : Effect σ α) :
  id <$> x = x
  := by
  funext m
  simp only [Functor.map]
  rcases x m with ⟨e | a, m'⟩
  · rfl
  · rfl

/-- It does not matter how actions one after the other are put in brackets. -/
theorem bind_assoc {γ : Type} (x : Effect σ α) (f : α → Effect σ β) (g : β → Effect σ γ) :
  x >>= f >>= g = x >>= fun a => f a >>= g
  := by
  funext m
  simp only [bind]
  rcases x m with ⟨e | a, m'⟩
  · rfl
  · rfl

instance : LawfulMonad (Effect σ) :=
  LawfulMonad.mk' (Effect σ) id_map (fun _ _ => rfl) bind_assoc

/-- A check after an action does not change the memory. -/
theorem bind_ofExcept (x : Effect σ α) (f : α → Except Error β) (m : σ) :
  (x >>= fun a => ofExcept (f a)) m = ((x m).1.bind f, (x m).2)
  := by
  simp only [bind, ofExcept]
  rcases x m with ⟨e | a, m'⟩
  · rfl
  · rfl

/-- A value that is changed afterwards comes with the same memory. -/
theorem map_ok {x : Effect σ α} (f : α → β) {m m' : σ} {a : α} (h : x m = (.ok a, m')) :
  (f <$> x) m = (.ok (f a), m')
  := bind_ok h

/-- There is nothing to be changed where an action fails. -/
theorem map_error {x : Effect σ α} (f : α → β) {m m' : σ} {e : Error}
    (h : x m = (.error e, m')) :
  (f <$> x) m = (.error e, m')
  := bind_error h

end Effect

end Hypertext
