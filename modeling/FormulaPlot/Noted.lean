/-!
# Outcomes with notes

A computation of type `Noted ν ε α` ends with a value or an error, and leaves notes of what it did,
the oldest first. The notes stay when it fails.
-/

namespace FormulaPlot

/-- An outcome and the notes that were left on the way to it. -/
structure Noted (ν ε α : Type) where
  notes : List ν
  outcome : Except ε α

namespace Noted

variable {ν μ ε δ α β : Type}

/-- A value without notes. -/
def value (a : α) : Noted ν ε α := ⟨[], .ok a⟩

/-- Goes on after a value, keeping the notes of both parts. -/
def andThen (x : Noted ν ε α) (f : α → Noted ν ε β) : Noted ν ε β :=
  match x.outcome with
  | .ok a => ⟨x.notes ++ (f a).notes, (f a).outcome⟩
  | .error e => ⟨x.notes, .error e⟩

instance : Monad (Noted ν ε) where
  pure := value
  bind := andThen

/-- Leaves one note. -/
def note (n : ν) : Noted ν ε Unit := ⟨[n], .ok ()⟩

/-- Fails without notes. -/
def fail (e : ε) : Noted ν ε α := ⟨[], .error e⟩

/-- An outcome without notes. -/
def ofExcept (x : Except ε α) : Noted ν ε α := ⟨[], x⟩

/-- Changes the notes as a whole. -/
def mapNotes (f : List ν → List μ) (x : Noted ν ε α) : Noted μ ε α := ⟨f x.notes, x.outcome⟩

/-- Changes the error. -/
def mapError (f : ε → δ) (x : Noted ν ε α) : Noted ν δ α := ⟨x.notes, x.outcome.mapError f⟩

@[simp] theorem notes_pure (a : α) : (pure a : Noted ν ε α).notes = [] := rfl

@[simp] theorem outcome_pure (a : α) : (pure a : Noted ν ε α).outcome = .ok a := rfl

@[simp] theorem notes_note (n : ν) : (note n : Noted ν ε Unit).notes = [n] := rfl

@[simp] theorem outcome_note (n : ν) : (note n : Noted ν ε Unit).outcome = .ok () := rfl

@[simp] theorem notes_fail (e : ε) : (fail e : Noted ν ε α).notes = [] := rfl

@[simp] theorem outcome_fail (e : ε) : (fail e : Noted ν ε α).outcome = .error e := rfl

@[simp] theorem notes_ofExcept (x : Except ε α) : (ofExcept x : Noted ν ε α).notes = [] := rfl

@[simp] theorem outcome_ofExcept (x : Except ε α) : (ofExcept x : Noted ν ε α).outcome = x := rfl

/-- The outcome of two parts is that of the second after the value of the first. -/
@[simp] theorem outcome_bind (x : Noted ν ε α) (f : α → Noted ν ε β) :
    (x >>= f).outcome = x.outcome >>= fun a => (f a).outcome := by
  obtain ⟨notes, outcome⟩ := x
  cases outcome <;> rfl

/-- After a value, the outcome of two parts is that of the second. -/
theorem outcome_bind_of_ok {x : Noted ν ε α} {a : α} (h : x.outcome = .ok a)
    (f : α → Noted ν ε β) : (x >>= f).outcome = (f a).outcome := by
  rw [outcome_bind, h]
  rfl

/-- After an error, the outcome of two parts is that error. -/
theorem outcome_bind_of_error {x : Noted ν ε α} {e : ε} (h : x.outcome = .error e)
    (f : α → Noted ν ε β) : (x >>= f).outcome = .error e := by
  rw [outcome_bind, h]
  rfl

/-- A value of two parts is one of the second after a value of the first. -/
theorem exists_of_outcome_bind {x : Noted ν ε α} {f : α → Noted ν ε β} {b : β}
    (h : (x >>= f).outcome = .ok b) : ∃ a, x.outcome = .ok a ∧ (f a).outcome = .ok b := by
  cases hx : x.outcome with
  | ok a => exact ⟨a, rfl, by rwa [outcome_bind_of_ok hx] at h⟩
  | error e =>
    rw [outcome_bind_of_error hx] at h
    cases h

/-- After a value, the notes of two parts are those of both. -/
theorem notes_bind_of_ok {x : Noted ν ε α} {a : α} (h : x.outcome = .ok a)
    (f : α → Noted ν ε β) : (x >>= f).notes = x.notes ++ (f a).notes := by
  obtain ⟨notes, outcome⟩ := x
  cases h
  rfl

/-- After an error, the notes of two parts are those of the first. -/
theorem notes_bind_of_error {x : Noted ν ε α} {e : ε} (h : x.outcome = .error e)
    (f : α → Noted ν ε β) : (x >>= f).notes = x.notes := by
  obtain ⟨notes, outcome⟩ := x
  cases h
  rfl

end Noted

end FormulaPlot
