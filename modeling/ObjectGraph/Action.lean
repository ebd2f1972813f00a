/-!
# Actions

An action reads and changes a state and ends with a result or an error. The state it
leaves is kept in both cases, so nothing that a failing action did is undone.
-/
namespace ObjectGraph

def Action (S ε α : Type) : Type := S → Except ε α × S

namespace Action

variable {S ε δ α β : Type}

instance : Monad (Action S ε) where
  pure a := fun s => (.ok a, s)
  bind a f := fun s =>
    match a s with
    | (.ok x, s') => f x s'
    | (.error e, s') => (.error e, s')

def fail (e : ε) : Action S ε α := fun s => (.error e, s)

/-- A result that is known without looking at the state. -/
def ofExcept (result : Except ε α) : Action S ε α := fun s => (result, s)

def get : Action S ε S := fun s => (.ok s, s)

def modify (f : S → S) : Action S ε Unit := fun s => (.ok (), f s)

/-- A step that cannot fail. -/
def step (f : S → α × S) : Action S ε α := fun s => (.ok (f s).1, (f s).2)

/-- Turns an error into a result. -/
def attempt (a : Action S ε α) : Action S δ (Except ε α) := fun s => (.ok (a s).1, (a s).2)

def mapError (f : ε → δ) (a : Action S ε α) : Action S δ α := fun s =>
  ((a s).1.mapError f, (a s).2)

@[simp] theorem pure_apply (a : α) (s : S) : (pure a : Action S ε α) s = (.ok a, s) := rfl

theorem bind_apply (a : Action S ε α) (f : α → Action S ε β) (s : S) :
    (a >>= f) s =
      match a s with
      | (.ok x, s') => f x s'
      | (.error e, s') => (.error e, s') := rfl

theorem bind_of_ok {a : Action S ε α} {f : α → Action S ε β} {s s' : S} {x : α}
    (h : a s = (.ok x, s')) : (a >>= f) s = f x s' := by
  simp [bind_apply, h]

theorem bind_of_error {a : Action S ε α} {f : α → Action S ε β} {s s' : S} {e : ε}
    (h : a s = (.error e, s')) : (a >>= f) s = (.error e, s') := by
  simp [bind_apply, h]

@[simp] theorem fail_apply (e : ε) (s : S) : (fail e : Action S ε α) s = (.error e, s) := rfl

@[simp] theorem ofExcept_apply (result : Except ε α) (s : S) :
    (ofExcept result : Action S ε α) s = (result, s) := rfl

@[simp] theorem get_apply (s : S) : (get : Action S ε S) s = (.ok s, s) := rfl

@[simp] theorem modify_apply (f : S → S) (s : S) :
    (modify f : Action S ε Unit) s = (.ok (), f s) := rfl

@[simp] theorem step_apply (f : S → α × S) (s : S) :
    (step f : Action S ε α) s = (.ok (f s).1, (f s).2) := rfl

@[simp] theorem attempt_apply (a : Action S ε α) (s : S) :
    (attempt a : Action S δ (Except ε α)) s = (.ok (a s).1, (a s).2) := rfl

theorem id_map (a : Action S ε α) : id <$> a = a := by
  funext s
  change (match a s with | (.ok x, s') => (.ok x, s') | (.error e, s') => (.error e, s')) = a s
  rcases a s with ⟨_ | _, _⟩ <;> rfl

theorem bind_assoc {γ : Type} (a : Action S ε α) (f : α → Action S ε β) (g : β → Action S ε γ) :
    a >>= f >>= g = a >>= fun x => f x >>= g := by
  funext s
  simp only [bind_apply]
  rcases a s with ⟨_ | _, _⟩ <;> rfl

instance : LawfulMonad (Action S ε) :=
  LawfulMonad.mk' _ id_map (fun _ _ => rfl) bind_assoc

end Action
end ObjectGraph
