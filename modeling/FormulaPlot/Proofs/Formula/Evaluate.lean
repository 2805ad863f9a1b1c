import FormulaPlot.Formula.Basic

/-!
# The engine behind a formula

A formula has a value where its prepared text has one, under the lower of the two limits on nesting
(`Formula.toOption_evaluate`). The steps are the same too (`Formula.notes_evaluate`). The two differ
in the words of one error only.
-/

namespace FormulaPlot

/-- A change of the error leaves the values. -/
theorem Noted.toOption_mapError {ν ε δ α : Type} (f : ε → δ) (x : Noted ν ε α) :
    (x.mapError f).outcome.toOption = x.outcome.toOption := by
  obtain ⟨notes, outcome⟩ := x
  cases outcome <;> rfl

namespace Formula

/-- The deepest nesting that is followed under some settings. -/
def depthLimit (cfg : Settings) : Int :=
  if cfg.maxNestingDepth ≤ reach cfg then cfg.maxNestingDepth else reach cfg

variable {cfg : Settings} {f : Formula} {v : Quantity}

/-- For a double, only the length of the text can keep it from being reduced. -/
theorem prepare_real (cfg : Settings) (f : Formula) (x : Float) :
    f.prepare cfg (.real x) =
      (normalize cfg.maxInputLength f.text.toList).map (substitute · f.unknown (plainText x)) := by
  rw [prepare]
  cases normalize cfg.maxInputLength f.text.toList <;> rfl

/-- A formula whose text is not prepared has no value. -/
theorem evaluate_of_error {e : EvalError} (h : f.prepare cfg v = .error e) :
    (f.evaluate cfg v).outcome = .error e := by
  rw [evaluate, h]
  rfl

/-- The value of a formula is that of its text. -/
theorem toOption_evaluate {t : Text} (h : f.prepare cfg v = .ok t) :
    (f.evaluate cfg v).outcome.toOption = (reduce (depthLimit cfg) 0 t).outcome.toOption := by
  unfold evaluate depthLimit
  rw [h, Noted.outcome_bind, Noted.outcome_ofExcept]
  change Except.toOption (ite _ _ _ : Run Float).outcome = _
  split
  · rfl
  · exact Noted.toOption_mapError _ _

/-- The steps of a formula are those of its text. -/
theorem notes_evaluate {t : Text} (h : f.prepare cfg v = .ok t) :
    (f.evaluate cfg v).notes = (reduce (depthLimit cfg) 0 t).notes := by
  unfold evaluate depthLimit
  rw [Noted.notes_bind_of_ok h, Noted.notes_ofExcept, List.nil_append]
  split <;> rfl

end Formula

end FormulaPlot
