import FormulaPlot.Proofs.Answer.Sample
import FormulaPlot.Proofs.Formula.Evaluate
import FormulaPlot.Proofs.Report.Document

/-!
# Printed answers

Answers are printed as documents of JSON, but not all of them (`printed_isDocument`). A plot is, as
its report has no numbers. The answer to an evaluation is one unless the value is infinite or NaN,
and that to a sampling unless the width of the interval is past the largest double, where the only
point is at NaN. The grammar has no number for these doubles.
-/

namespace FormulaPlot

open Json

/-- Texts hold no doubles. -/
theorem EvalReport.not_holds_optional {name : String} {v : Option String} {x : Float} :
    ¬ ∃ f ∈ optional name v, f.2.Holds x := by
  rintro ⟨f, hf, hx⟩
  obtain ⟨s, -, rfl⟩ := List.mem_map.1 hf
  cases hx

/-- The only double in a report is its value. -/
theorem EvalReport.holds_fields {r : EvalReport} {x : Float} :
    (Value.record r.fields).Holds x ↔ r.value = some x := by
  simp [-Prod.exists, fields, or_and_right, exists_or, not_holds_optional]

/-- The doubles in a report of samples are those of its points. -/
theorem SampleReport.holds_fields {r : SampleReport} {x : Float} :
    (Value.record r.fields).Holds x ↔ r.ok = true ∧ ∃ p ∈ r.points, x = p.x ∨ x = p.y := by
  cases hok : r.ok <;>
    simp [-Prod.exists, fields, or_and_right, exists_or, EvalReport.not_holds_optional, pair, hok]

namespace Answer

/-! ## Where answers come from -/

/-- What is answered after a failure is reported is either the value or a report. -/
theorem of_outcome_recover {α : Type} {x : Logged α} {failed : String → String → α} {a : α}
    (h : (recover x (reporting failed)).outcome = .ok a) : x.outcome = .ok a ∨
      (∃ e, x.outcome = .error e) ∧ ∃ message code, a = failed message code := by
  cases hx : x.outcome with
  | ok b =>
    rw [outcome_recover_of_ok hx] at h
    exact .inl h
  | error e =>
    rw [outcome_recover_of_error hx] at h
    refine .inr ⟨⟨e, rfl⟩, ?_⟩
    -- Two kinds of faults are reported, and the others stop the answer.
    cases e with
    | malformed m => exact ⟨m.message, m.code, (Except.ok.inj h).symm⟩
    | invalid m => exact ⟨m.message, m.code, (Except.ok.inj h).symm⟩
    | _ => cases h

/-- A request goes on with its formula. -/
theorem exists_of_outcome_formula {α : Type} {cfg : Settings} {text : String} {unknown : Value}
    {g : Formula → Logged α} {a : α} (h : (formula cfg text unknown >>= g).outcome = .ok a) :
    ∃ f, Formula.make cfg text unknown = .ok f ∧ (g f).outcome = .ok a := by
  obtain ⟨f, hf, hg⟩ := Noted.exists_of_outcome_bind h
  rw [formula, Noted.outcome_ofExcept] at hf
  cases hmake : Formula.make cfg text unknown with
  | ok f' =>
    rw [hmake] at hf
    exact ⟨f, congrArg _ (Except.ok.inj hf), hg⟩
  | error e => rw [hmake] at hf; cases hf

variable {cfg : Settings} {text : String} {unknown : Value}

/-- The value of a report is that of the formula. -/
theorem value_of_report {value : Logged Float} {r : EvalReport}
    (h : (report cfg text value).outcome = .ok r) : r.value = value.outcome.toOption := by
  rw [report] at h
  obtain ⟨a, ha, h⟩ := Noted.exists_of_outcome_bind h
  rcases of_outcome_recover ha with hvalue | ⟨⟨e, he⟩, message, code, rfl⟩
  · -- The text of the value is shown as well, which leaves the value as it is.
    obtain ⟨x, hx, ha⟩ := Noted.exists_of_outcome_bind hvalue
    obtain rfl := Except.ok.inj ha
    obtain ⟨shown, -, h⟩ := Noted.exists_of_outcome_bind h
    obtain rfl := Except.ok.inj h
    rw [hx]
    rfl
  · obtain rfl := Except.ok.inj h
    cases hvalue : value.outcome with
    | ok x => rw [Noted.outcome_bind_of_ok hvalue] at he; cases he
    | error e' => rfl

/-- Logging changes no value. -/
theorem outcome_logged_eq_ok {α : Type} {run : Run α} {a : α} :
    (run.logged cfg).outcome = .ok a ↔ run.outcome = .ok a := by
  rw [← toOption_eq_some, ← toOption_eq_some, Noted.logged, Noted.toOption_mapError]
  rfl

/-- The value that is reported is that of the formula. -/
theorem value_of_evaluate {v : Quantity} {r : EvalReport}
    (h : (evaluate cfg text v unknown).outcome = .ok r) (x : Float) : r.value = some x ↔
      ∃ f, Formula.make cfg text unknown = .ok f ∧ (f.evaluate cfg v).outcome = .ok x := by
  rw [value_of_report h, toOption_eq_some]
  refine ⟨fun hx => ?_, fun ⟨f, hf, hx⟩ => ?_⟩
  · obtain ⟨f, hf, hx⟩ := exists_of_outcome_formula hx
    exact ⟨f, hf, outcome_logged_eq_ok.1 hx⟩
  · rw [Noted.outcome_bind_of_ok (outcome_formula hf)]
    exact outcome_logged_eq_ok.2 hx

/-- A report of samples has the points of a sampling, or it has none. -/
theorem points_of_sample {xMin xMax : Float} {steps : Option Int} {r : SampleReport}
    (h : (sample cfg text xMin xMax steps unknown).outcome = .ok r) :
    r.points = [] ∨ ∃ f s, Formula.make cfg text unknown = .ok f ∧
      (Samples.take cfg f xMin xMax steps).outcome = .ok s ∧
      r = { ok := true, points := s.points, skipped := s.skipped } := by
  rw [sample] at h
  rcases of_outcome_recover h with h | ⟨-, message, code, rfl⟩
  · obtain ⟨f, hf, h⟩ := exists_of_outcome_formula h
    obtain ⟨s, hs, h⟩ := Noted.exists_of_outcome_bind h
    exact .inr ⟨f, s, hf, hs, (Except.ok.inj h).symm⟩
  · exact .inl rfl

/-- Saving an image reports no value. -/
theorem value_of_save {around : Surroundings} {path : Option String} {s : Samples}
    {a : PlotAnswer} (h : (save around text path s).outcome = .ok a) :
    (a.toReport around).value = none := by
  rw [save] at h
  split at h
  all_goals
    obtain ⟨-, -, h⟩ := Noted.exists_of_outcome_bind h
    obtain rfl := Except.ok.inj h
    rfl

/-- A plot has no value. -/
theorem value_of_plot {around : Surroundings} {q : PlotRequest} {a : PlotAnswer}
    (h : (plot cfg around q).outcome = .ok a) : (a.toReport around).value = none := by
  rw [plot] at h
  rcases of_outcome_recover h with h | ⟨-, message, code, rfl⟩
  · obtain ⟨f, -, h⟩ := exists_of_outcome_formula h
    obtain ⟨s, -, h⟩ := Noted.exists_of_outcome_bind h
    -- A plot ends without points, with a picture, or with an image that is saved.
    split at h
    next =>
      obtain rfl := Except.ok.inj h
      rfl
    next =>
      obtain ⟨w, -, h⟩ := Noted.exists_of_outcome_bind h
      split at h
      next =>
        obtain ⟨g, -, h⟩ := Noted.exists_of_outcome_bind h
        obtain rfl := Except.ok.inj h
        rfl
      next =>
        cases hto : q.destination with
        | temporary => rw [hto] at h; exact value_of_save h
        | unnamed => rw [hto] at h; cases h
        | file path =>
          rw [hto, saveTo] at h
          split at h
          next => exact value_of_save h
          next => cases h
  · rfl

/-! ## Documents -/

/-- Printed as JSON, the answer to an evaluation is a document of the grammar if and only if the
formula has no infinite value there and not NaN. The answer to a sampling of an interval between
finite ends is one if and only if the width of the interval does not overflow or there are no
points. The answer to a plot always is. -/
theorem printed_isDocument (cfg : Settings) (text : String) (unknown : Value) :
    (∀ v r, (evaluate cfg text v unknown).outcome = .ok r →
      (IsDocument (Report.printed .json r.fields).toList ↔
        ∀ f x, Formula.make cfg text unknown = .ok f → (f.evaluate cfg v).outcome = .ok x →
          isFinite x = true)) ∧
    (∀ xMin xMax steps r, isFinite xMin = true → isFinite xMax = true →
      (sample cfg text xMin xMax steps unknown).outcome = .ok r →
      (IsDocument (Report.printed .json r.fields).toList ↔
        isFinite (xMax - xMin) = true ∨ r.points = [])) ∧
    ∀ around q a, (plot cfg around q).outcome = .ok a →
      IsDocument (Report.printed .json (a.toReport around).fields).toList := by
  refine ⟨fun v r hr => ?_, fun xMin xMax steps r hmin hmax hr => ?_, fun around q a ha => ?_⟩
  · simp only [isDocument_printed_iff, EvalReport.holds_fields, value_of_evaluate hr]
    exact ⟨fun h f x hf hx => h x ⟨f, hf, hx⟩, fun h x ⟨f, hf, hx⟩ => h f x hf hx⟩
  · simp only [isDocument_printed_iff, SampleReport.holds_fields]
    rcases points_of_sample hr with hempty | ⟨f, s, -, hs, rfl⟩
    · simp [hempty]
    · refine ⟨fun h => or_iff_not_imp_right.2 fun hne => ?_, ?_⟩
      · -- The position of one point tells whether the width overflows.
        obtain ⟨p, hp⟩ := List.exists_mem_of_ne_nil _ hne
        exact (Samples.isFinite_x_iff hmin hmax hs hp).1 (h p.x ⟨rfl, p, hp, .inl rfl⟩)
      · rintro hwidth x ⟨-, p, hp, rfl | rfl⟩
        · -- There is a point, so it is the width that does not overflow.
          rcases hwidth with hwidth | hempty
          · exact (Samples.isFinite_x_iff hmin hmax hs hp).2 hwidth
          · exact absurd hp (hempty ▸ List.not_mem_nil)
        · -- The values of points are finite anyway.
          exact Samples.finite_of_take hs p hp
  · -- The report of a plot holds no double at all.
    simp only [isDocument_printed_iff, EvalReport.holds_fields, value_of_plot ha]
    exact fun x hx => by cases hx

/-- The formula `1/x` away from its pole and at it, sampled around it and drawn. -/
theorem printed_isDocument_pole :
    (∃ r, (evaluate {} "1/x" (.real 2) .null).outcome = .ok r ∧
      IsDocument (Report.printed .json r.fields).toList) ∧
    (∃ r, (evaluate {} "1/x" (.real 0) .null).outcome = .ok r ∧
      ¬ IsDocument (Report.printed .json r.fields).toList) ∧
    (∃ r, (sample {} "1/x" (-1) 1 (some 4) .null).outcome = .ok r ∧
      IsDocument (Report.printed .json r.fields).toList) ∧
    ∃ a, (plot {} ⟨fun _ => true, "", []⟩ {
        text := "1/x", xMin := -1, xMax := 1, samples := some 4, ascii := true }).outcome = .ok a ∧
      IsDocument (Report.printed .json (a.toReport ⟨fun _ => true, "", []⟩).fields).toList := by
  have hanswer {α : Type} {x : Logged α} (h : x.outcome.toOption.isSome = true) :
      ∃ a, x.outcome = .ok a := by
    obtain ⟨a, ha⟩ := Option.isSome_iff_exists.1 h
    exact ⟨a, toOption_eq_some.1 ha⟩
  have hf : Formula.make {} "1/x" .null = .ok ⟨"1/x", 'x'⟩ := rfl
  have hhalf : ((⟨"1/x", 'x'⟩ : Formula).evaluate {} (.real 2)).outcome.toOption = some 0.5 := by
    decide +kernel
  have hpole : ((⟨"1/x", 'x'⟩ : Formula).evaluate {} (.real 0)).outcome.toOption =
      some (1 / 0) := by
    decide +kernel
  obtain ⟨hevaluate, hsample, hplot⟩ := printed_isDocument {} "1/x" .null
  refine ⟨?_, ?_, ?_, ?_⟩
  · obtain ⟨r, hr⟩ := hanswer (x := evaluate {} "1/x" (.real 2) .null) (by decide +kernel)
    refine ⟨r, hr, (hevaluate _ r hr).2 fun f x hf' hx => ?_⟩
    obtain rfl := Except.ok.inj (hf.symm.trans hf')
    rw [hx] at hhalf
    obtain rfl := Option.some.inj hhalf
    decide +kernel
  · obtain ⟨r, hr⟩ := hanswer (x := evaluate {} "1/x" (.real 0) .null) (by decide +kernel)
    refine ⟨r, hr, fun h => ?_⟩
    have hfinite := (hevaluate _ r hr).1 h _ _ hf (toOption_eq_some.1 hpole)
    exact absurd hfinite (by decide +kernel)
  · obtain ⟨r, hr⟩ := hanswer (x := sample {} "1/x" (-1) 1 (some 4) .null) (by decide +kernel)
    have hwidth : isFinite (1 - -1) = true := by decide +kernel
    exact ⟨r, hr, (hsample _ _ _ r (by decide +kernel) (by decide +kernel) hr).2 (.inl hwidth)⟩
  · obtain ⟨a, ha⟩ := hanswer (x := plot {} ⟨fun _ => true, "", []⟩ {
      text := "1/x", xMin := -1, xMax := 1, samples := some 4, ascii := true }) (by decide +kernel)
    exact ⟨a, ha, hplot _ _ a ha⟩

/-- A formula that is infinite, and one sampled over an interval whose width overflows. -/
theorem printed_infinity_and_nan :
    (∃ r, (evaluate {} "1/0" (.real 0) .null).outcome = .ok r ∧
      Report.printed .json r.fields =
        "\x7b\n  \"ok\": true,\n  \"value\": Infinity,\n  \"result\": \"inf\"\n\x7d\n" ∧
      ¬ IsDocument (Report.printed .json r.fields).toList) ∧
    (isFinite (-1e308) = true ∧ isFinite 1e308 = true) ∧
    ∃ r, (sample {} "1" (-1e308) 1e308 (some 2) .null).outcome = .ok r ∧
      Report.printed .json r.fields = "\x7b\n  \"ok\": true,\n  \"points\": [\n" ++
        "    [\n      NaN,\n      1.0\n    ]\n  ],\n  \"skipped\": 0\n\x7d\n" ∧
      ¬ IsDocument (Report.printed .json r.fields).toList := by
  have hinfinity : (evaluate {} "1/0" (.real 0) .null).outcome.toOption.map
      (fun r => Report.printed .json r.fields) = some
        "\x7b\n  \"ok\": true,\n  \"value\": Infinity,\n  \"result\": \"inf\"\n\x7d\n" := by
    decide +kernel
  have hnan : (sample {} "1" (-1e308) 1e308 (some 2) .null).outcome.toOption.map
      (fun r => Report.printed .json r.fields) = some ("\x7b\n  \"ok\": true,\n  \"points\": [\n" ++
        "    [\n      NaN,\n      1.0\n    ]\n  ],\n  \"skipped\": 0\n\x7d\n") := by
    decide +kernel
  obtain ⟨r, hr, hprinted⟩ := Option.map_eq_some_iff.1 hinfinity
  obtain ⟨r', hr', hprinted'⟩ := Option.map_eq_some_iff.1 hnan
  refine ⟨⟨r, toOption_eq_some.1 hr, hprinted, fun h => ?_⟩, by decide +kernel,
    r', toOption_eq_some.1 hr', hprinted', fun h => ?_⟩
  · rw [hprinted] at h
    exact Quiet.not_of_mem (c := 'I') rfl (by decide +kernel) h.quiet
  · rw [hprinted'] at h
    exact Quiet.not_of_mem (c := 'N') rfl (by decide +kernel) h.quiet

end Answer

end FormulaPlot
