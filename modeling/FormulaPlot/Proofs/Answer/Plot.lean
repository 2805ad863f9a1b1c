import FormulaPlot.Answer
import FormulaPlot.Proofs.Plot.Picture
import FormulaPlot.Proofs.Plot.Sampling

/-!
# Plots without a report

A plot in characters ends with a report, except in two cases. The number of samples can be past the
largest double (`PlotRequest.TooMany`), and the distance of a point from the lower end of the window
can be (`PlotRequest.Overflows`). `plot_outcome` shows that it fails in these cases and in no
others.
-/

namespace FormulaPlot

/-- Something is to be sampled, but the number of samples is past the largest double. -/
def PlotRequest.TooMany (cfg : Settings) (q : PlotRequest) : Prop :=
  (∃ f, Formula.make cfg q.text q.unknown = .ok f) ∧ q.xMin < q.xMax ∧
    0 < q.samples.getD cfg.defaultSamples ∧
    ∃ a, floatOfInt (q.samples.getD cfg.defaultSamples) = .error a

/-- A point in the window is so far from its lower end that the distance is past the largest
double. -/
def PlotRequest.Overflows (cfg : Settings) (q : PlotRequest) : Prop :=
  ∃ f s w, Formula.make cfg q.text q.unknown = .ok f ∧
    (Samples.take cfg f q.xMin q.xMax q.samples).outcome = .ok s ∧ q.window s.points = .ok w ∧
    ∃ p ∈ s.points, w.contains p = true ∧ isFinite (p.y - w.yMin) ≠ true

namespace Answer

/-- A value stays as it is. -/
theorem outcome_recover_of_ok {α : Type} {x : Logged α} {a : α} (h : x.outcome = .ok a)
    (handle : Fault → Logged α) : (recover x handle).outcome = .ok a := by
  rw [recover, h]

/-- What comes of a failure is what comes of its handling. -/
theorem outcome_recover_of_error {α : Type} {x : Logged α} {e : Fault} (h : x.outcome = .error e)
    (handle : Fault → Logged α) : (recover x handle).outcome = (handle e).outcome := by
  rw [recover, h]

/-- Formulas without value and bad requests are reported. -/
theorem outcome_reporting {α : Type} (failed : String → String → α) {e : Fault}
    (he : e.Reported) : ∃ message code, (reporting failed e).outcome = .ok (failed message code) := by
  rcases he with ⟨m, rfl⟩ | ⟨m, rfl⟩
  · exact ⟨m.message, m.code, rfl⟩
  · exact ⟨m.message, m.code, rfl⟩

/-- The formula of a request. -/
theorem outcome_formula {cfg : Settings} {text : String} {unknown : Value} {f : Formula}
    (hf : Formula.make cfg text unknown = .ok f) : (formula cfg text unknown).outcome = .ok f := by
  rw [formula, Noted.outcome_ofExcept, hf]
  rfl

section Outcomes

variable {cfg : Settings} {around : Surroundings} {q : PlotRequest} {f : Formula} {s : Samples}
  {w : Window}

/-- Without a formula there is a report of that. -/
theorem plot_of_make_error {e : InputError} (hf : Formula.make cfg q.text q.unknown = .error e) :
    ∃ r, (plot cfg around q).outcome = .ok (.report r) := by
  have hformula : (formula cfg q.text q.unknown).outcome = .error (.invalid e) := by
    rw [formula, Noted.outcome_ofExcept, hf]
    rfl
  exact ⟨_, outcome_recover_of_error (Noted.outcome_bind_of_error hformula _) _⟩

/-- The window of a plot. -/
theorem outcome_window {points : List Point} (hw : q.window points = .ok w) :
    (Noted.ofExcept ((q.window points).mapError .invalid) : Logged Window).outcome = .ok w := by
  rw [Noted.outcome_ofExcept, hw]
  rfl

variable (hf : Formula.make cfg q.text q.unknown = .ok f)
include hf

/-- Where the sampling fails, the plot comes to what is made of that. -/
theorem plot_of_take_error {e : Fault}
    (hs : (Samples.take cfg f q.xMin q.xMax q.samples).outcome = .error e) :
    (plot cfg around q).outcome = (reporting (fun message code =>
      .report (EvalReport.failed message code)) e : Logged PlotAnswer).outcome := by
  rw [plot]
  refine outcome_recover_of_error ?_ _
  rw [Noted.outcome_bind_of_ok (outcome_formula hf), Noted.outcome_bind_of_error hs]

variable (hs : (Samples.take cfg f q.xMin q.xMax q.samples).outcome = .ok s)
include hs

/-- Without points there is a report of that. -/
theorem plot_of_no_points (hempty : s.points = []) :
    ∃ r, (plot cfg around q).outcome = .ok (.report r) := by
  refine ⟨EvalReport.failed "Cannot plot: no finite values in range" "NO_POINTS", ?_⟩
  rw [plot]
  refine outcome_recover_of_ok ?_ _
  rw [Noted.outcome_bind_of_ok (outcome_formula hf), Noted.outcome_bind_of_ok hs,
    if_pos (List.isEmpty_iff.2 hempty)]
  rfl

variable (hpoints : s.points ≠ [])
include hpoints

/-- Without a window there is a report of that. -/
theorem plot_of_window_error {e : InputError} (hw : q.window s.points = .error e) :
    ∃ r, (plot cfg around q).outcome = .ok (.report r) := by
  refine ⟨EvalReport.failed e.message e.code, ?_⟩
  rw [plot]
  refine (outcome_recover_of_error (e := .invalid e) ?_ _).trans rfl
  rw [Noted.outcome_bind_of_ok (outcome_formula hf), Noted.outcome_bind_of_ok hs,
    if_neg (mt List.isEmpty_iff.1 hpoints), hw]
  rfl

variable (hw : q.window s.points = .ok w) (hascii : q.ascii = true)
include hw hascii

/-- A picture is reported. -/
theorem plot_of_draw {g : Picture} (hg : Picture.draw cfg s.points w none none = .ok g) :
    ∃ r, (plot cfg around q).outcome = .ok (.report r) := by
  refine ⟨{ ok := true, result := some ("ASCII plot:\n" ++ g.text) }, ?_⟩
  rw [plot]
  refine outcome_recover_of_ok ?_ _
  rw [Noted.outcome_bind_of_ok (outcome_formula hf), Noted.outcome_bind_of_ok hs,
    if_neg (mt List.isEmpty_iff.1 hpoints), Noted.outcome_bind_of_ok (outcome_window hw),
    if_pos hascii, hg]
  rfl

/-- Where no picture is drawn, the plot comes to what is made of that. -/
theorem plot_of_draw_error {e : Fault} (hg : Picture.draw cfg s.points w none none = .error e) :
    (plot cfg around q).outcome = (reporting (fun message code =>
      .report (EvalReport.failed message code)) e : Logged PlotAnswer).outcome := by
  rw [plot]
  refine outcome_recover_of_error ?_ _
  rw [Noted.outcome_bind_of_ok (outcome_formula hf), Noted.outcome_bind_of_ok hs,
    if_neg (mt List.isEmpty_iff.1 hpoints), Noted.outcome_bind_of_ok (outcome_window hw),
    if_pos hascii, hg]
  rfl

end Outcomes

section Finite

variable {cfg : Settings} {q : PlotRequest} {f : Formula} {s : Samples} {w : Window}
  (hmin : isFinite q.xMin = true) (hmax : isFinite q.xMax = true)
  (hlow : ∀ y ∈ q.yMin, isFinite y = true) (hhigh : ∀ y ∈ q.yMax, isFinite y = true)
  (hs : (Samples.take cfg f q.xMin q.xMax q.samples).outcome = .ok s)
  (hw : q.window s.points = .ok w)

include hmin hmax hlow hhigh hs hw

/-- The window of a plot with finite ends is proper, over the interval of the plot. -/
theorem proper_of_window : w.Proper ∧ w.xMin = q.xMin ∧ w.xMax = q.xMax := by
  have hlt := lt_iff.1 (Samples.exists_kept_of_take hs).1
  rw [PlotRequest.window] at hw
  -- Two ends that are given are tested, else the window is fitted to the points.
  split at hw
  next low high hlow' hhigh' =>
    have hproper := Window.proper_of_validate hw hmin hmax (hlow low hlow') (hhigh high hhigh')
    rw [Window.validate] at hw
    split at hw
    next => cases hw
    next =>
      obtain rfl := Except.ok.inj hw
      exact ⟨hproper, rfl, rfl⟩
  next =>
    obtain rfl := Except.ok.inj hw
    refine ⟨Window.proper_around hmin hmax (le_iff.2 ⟨hlt.1, hlt.2.1, hlt.2.2.le⟩)
      (Samples.finite_of_take hs), ?_⟩
    rw [Window.around]
    split
    · exact ⟨rfl, rfl⟩
    · simp only
      split <;> exact ⟨rfl, rfl⟩

/-- The distance of a point in the window from the start of the interval does not overflow. Where the
width of the interval does, no sample is at a number. -/
theorem isFinite_x_distance {p : Point} (hp : p ∈ s.points) (hc : w.contains p = true) :
    isFinite (p.x - w.xMin) = true := by
  obtain ⟨hproper, hx, hx'⟩ := proper_of_window hmin hmax hlow hhigh hs hw
  obtain ⟨h1, h2, -, -⟩ := Window.contains_iff.1 hc
  have hpx := (hproper.isFinite_of_contains hc).1
  -- A point in the window is at a number, so the width of the interval does not overflow.
  refine Window.isFinite_distance hproper.xMin hproper.xMax hpx h1 h2 ?_
  rw [hx, hx']
  exact Samples.width_of_take hmin hmax hs hp (isNumber_of_isFinite hpx)

end Finite

/-- A plot in characters whose ends are finite comes to a report, unless the number of samples or the
distance of a point from the lower end of the window is past the largest double. In these cases it
fails. -/
theorem plot_outcome (cfg : Settings)
    (hdigits : 0 ≤ cfg.sampleRoundingDigits ∧ cfg.sampleRoundingDigits < 1074)
    (hcols : 0 < cfg.asciiCols ∧ cfg.asciiCols ≤ 2 ^ 53)
    (hrows : 0 < cfg.asciiRows ∧ cfg.asciiRows ≤ 2 ^ 53) (around : Surroundings) (q : PlotRequest)
    (hascii : q.ascii = true) (hmin : isFinite q.xMin = true) (hmax : isFinite q.xMax = true)
    (hlow : ∀ y ∈ q.yMin, isFinite y = true) (hhigh : ∀ y ∈ q.yMax, isFinite y = true) :
    (q.TooMany cfg → (plot cfg around q).outcome = .error (.arithmetic .wholeTooLarge)) ∧
      (q.Overflows cfg → (plot cfg around q).outcome = .error (.arithmetic .roundedNaN)) ∧
      (¬ q.TooMany cfg → ¬ q.Overflows cfg →
        ∃ r, (plot cfg around q).outcome = .ok (.report r)) := by
  refine ⟨?_, ?_, fun hmany hoverflow => ?_⟩
  · rintro ⟨⟨f, hf⟩, hlt, hpos, a, ha⟩
    rw [plot_of_take_error hf (Samples.take_of_error ha hpos hlt), eq_wholeTooLarge ha]
    rfl
  · -- The row of the point is that of NaN, and there is none.
    rintro ⟨f, s, w, hf, hs, hw, p, hp, hoverflow⟩
    have hproper := (proper_of_window hmin hmax hlow hhigh hs hw).1
    have hdraw := Picture.draw_of_overflow cfg none none hproper hcols hrows
      (fun p hp hc => isFinite_x_distance hmin hmax hlow hhigh hs hw hp hc) ⟨p, hp, hoverflow⟩
    rw [plot_of_draw_error hf hs (List.ne_nil_of_mem hp) hw hascii hdraw]
    rfl
  · -- Each stage of the plot either ends in a report or goes on to the next one.
    cases hf : Formula.make cfg q.text q.unknown with
    | error e => exact plot_of_make_error hf
    | ok f =>
      cases hs : (Samples.take cfg f q.xMin q.xMax q.samples).outcome with
      | error e =>
        -- What else can fail in the sampling is reported.
        rcases Samples.errs_take hdigits.1 hdigits.2 f q.xMin q.xMax q.samples e hs with
          he | ⟨hlt, hpos, a, ha, -⟩
        · obtain ⟨message, code, h⟩ := outcome_reporting (fun message code =>
            PlotAnswer.report (EvalReport.failed message code)) he
          exact ⟨_, (plot_of_take_error hf hs).trans h⟩
        · exact absurd ⟨⟨f, hf⟩, hlt, hpos, a, ha⟩ hmany
      | ok s =>
        by_cases hpoints : s.points = []
        · exact plot_of_no_points hf hs hpoints
        · cases hw : q.window s.points with
          | error e => exact plot_of_window_error hf hs hpoints hw
          | ok w =>
            have hproper := (proper_of_window hmin hmax hlow hhigh hs hw).1
            -- No distance overflows, so every point in the window has a cell.
            obtain ⟨g, hg, -⟩ := Picture.exists_draw cfg none none hproper hcols hrows
              (fun p hp hc => isFinite_x_distance hmin hmax hlow hhigh hs hw hp hc)
              fun p hp hc => by_contra fun hy => hoverflow ⟨f, s, w, hf, hs, hw, p, hp, hc, hy⟩
            exact plot_of_draw hf hs hpoints hw hascii hg

/-- A plot of more samples than the largest double, and one of four samples that comes to a
report. -/
theorem plot_outcome_too_many :
    (∃ q : PlotRequest, q.ascii = true ∧ isFinite q.xMin = true ∧ isFinite q.xMax = true ∧
      (∀ y ∈ q.yMin, isFinite y = true) ∧ (∀ y ∈ q.yMax, isFinite y = true) ∧ q.TooMany {} ∧
      (plot {} ⟨fun _ => true, "", []⟩ q).outcome = .error (.arithmetic .wholeTooLarge)) ∧
    ∃ q : PlotRequest, q.ascii = true ∧ isFinite q.xMin = true ∧ isFinite q.xMax = true ∧
      (∀ y ∈ q.yMin, isFinite y = true) ∧ (∀ y ∈ q.yMax, isFinite y = true) ∧ ¬ q.TooMany {} ∧
      ¬ q.Overflows {} ∧ ∃ r, (plot {} ⟨fun _ => true, "", []⟩ q).outcome = .ok (.report r) := by
  let q (n : Int) : PlotRequest := { text := "x", samples := some n, ascii := true }
  have hmin : isFinite (-10) = true := by decide +kernel
  have hmax : isFinite 10 = true := by decide +kernel
  have hends : ∀ y ∈ (none : Option Float), isFinite y = true := by simp
  have houtcome (n : Int) := plot_outcome {} (by decide) (by decide) (by decide)
    ⟨fun _ => true, "", []⟩ (q n) rfl hmin hmax hends hends
  have hmany : (q (2 ^ 1024)).TooMany {} := by
    have hcount : floatOfInt (2 ^ 1024) = .error .wholeTooLarge := by decide +kernel
    exact ⟨⟨⟨"x", 'x'⟩, rfl⟩, by decide +kernel, by decide +kernel, _, hcount⟩
  have hfew : ¬ (q 4).TooMany {} := by
    rintro ⟨-, -, -, a, ha⟩
    have hcount : (floatOfInt 4).toOption.isSome = true := by decide +kernel
    change floatOfInt 4 = _ at ha
    rw [ha] at hcount
    cases hcount
  have hfits : ¬ (q 4).Overflows {} := by
    rintro ⟨f, s, w, hf, hs, hw, p, hp, -, hdistance⟩
    -- None of the four distances overflows.
    have hall : (match (Samples.take {} ⟨"x", 'x'⟩ (q 4).xMin (q 4).xMax (q 4).samples).outcome with
        | .error _ => true
        | .ok s => match (q 4).window s.points with
          | .error _ => true
          | .ok w => s.points.all fun p => isFinite (p.y - w.yMin)) = true := by decide +kernel
    obtain rfl : (⟨"x", 'x'⟩ : Formula) = f := Except.ok.inj hf
    rw [hs] at hall
    simp only [hw] at hall
    exact hdistance (List.all_eq_true.1 hall p hp)
  exact ⟨⟨q (2 ^ 1024), rfl, hmin, hmax, hends, hends, hmany, (houtcome (2 ^ 1024)).1 hmany⟩,
    q 4, rfl, hmin, hmax, hends, hends, hfew, hfits, (houtcome 4).2.2 hfew hfits⟩

/-- A plot whose only point is at the upper end of a window higher than the largest double. -/
theorem plot_fails_at_height :
    (isFinite 1e308 = true ∧ isFinite 1.5e308 = true ∧ isFinite (-1e308) = true) ∧
      (plot {} ⟨fun _ => true, "", []⟩ {
        text := "x", xMin := 1e308, xMax := 1.5e308, yMin := some (-1e308), yMax := some 1e308
        samples := some 1, ascii := true }).outcome = .error (.arithmetic .roundedNaN) := by
  refine ⟨by decide +kernel, ?_⟩
  have herror : (match (plot {} ⟨fun _ => true, "", []⟩ {
      text := "x", xMin := 1e308, xMax := 1.5e308, yMin := some (-1e308), yMax := some 1e308
      samples := some 1, ascii := true }).outcome with
      | .ok _ => none
      | .error e => some e) = some (.arithmetic .roundedNaN) := by decide +kernel
  split at herror
  next => cases herror
  next e he => rw [he, Option.some.inj herror]

end Answer

end FormulaPlot
