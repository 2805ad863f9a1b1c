import FormulaPlot.Proofs.Answer.Plot
import FormulaPlot.Proofs.Plot.Partition

/-!
# Answers to samplings

The samples before the end of an interval are answered with all of them that have a finite value, in
order, and the number of the others, or with the first error among them (`sample_partition`).

The one exception is a number of samples that is past the largest double. The steps have no length
then, and that is a fault which is not reported, whatever the formula.
-/

namespace FormulaPlot

open Samples

namespace Answer

variable {cfg : Settings} {text : String} {unknown : Value} {f : Formula} {xMin xMax : Float}
  {steps : Option Int}

section Outcomes

variable (hf : Formula.make cfg text unknown = .ok f)
include hf

/-- A sampling is reported. -/
theorem sample_of_take {s : Samples} (hs : (take cfg f xMin xMax steps).outcome = .ok s) :
    (sample cfg text xMin xMax steps unknown).outcome =
      .ok { ok := true, points := s.points, skipped := s.skipped } := by
  rw [sample]
  refine outcome_recover_of_ok ?_ _
  rw [Noted.outcome_bind_of_ok (outcome_formula hf), Noted.outcome_bind_of_ok hs]
  rfl

/-- Where the sampling fails, the answer is what is made of that. -/
theorem sample_of_take_error {e : Fault} (hs : (take cfg f xMin xMax steps).outcome = .error e) :
    (sample cfg text xMin xMax steps unknown).outcome =
      (reporting SampleReport.failed e : Logged SampleReport).outcome := by
  rw [sample]
  refine outcome_recover_of_error ?_ _
  rw [Noted.outcome_bind_of_ok (outcome_formula hf), Noted.outcome_bind_of_error hs]

end Outcomes

/-- Samples are lost neither in the list of points nor in the count of those without a finite value,
and they keep their order. Where the number of samples has a double, `k` of them are before the end
of the interval. If the formula has a value at all of these, the points are those with finite
values, and the others are counted. Otherwise the first error among them is that of the sampling,
and it is reported. Where the number of samples has no double, there is neither. -/
theorem sample_partition (cfg : Settings) {text : String} {unknown : Value} {f : Formula}
    (hf : Formula.make cfg text unknown = .ok f) {xMin xMax : Float} (hlt : xMin < xMax)
    {steps : Option Int} (hpos : 0 < steps.getD cfg.defaultSamples) :
    (∀ a, floatOfInt (steps.getD cfg.defaultSamples) = .error a →
      (take cfg f xMin xMax steps).outcome = .error (.arithmetic a) ∧
        (sample cfg text xMin xMax steps unknown).outcome = .error (.arithmetic a)) ∧
    ∀ count, floatOfInt (steps.getD cfg.defaultSamples) = .ok count →
      ∃ k, Before xMin xMax ((xMax - xMin) / count) (steps.getD cfg.defaultSamples).toNat k ∧
        ((∃ p : Nat → Point,
          (∀ i < k, pointAt cfg f xMin ((xMax - xMin) / count) i = .ok (p i)) ∧
          ∃ s, s = ofPoints ((List.range k).map p) ∧ s.points.length + s.skipped = k ∧
            (take cfg f xMin xMax steps).outcome = .ok s ∧
            (sample cfg text xMin xMax steps unknown).outcome =
              .ok { ok := true, points := s.points, skipped := s.skipped }) ∨
        ∃ i e, i < k ∧
          (∀ j < i, ∃ p, pointAt cfg f xMin ((xMax - xMin) / count) j = .ok p) ∧
          pointAt cfg f xMin ((xMax - xMin) / count) i = .error e ∧
          (take cfg f xMin xMax steps).outcome = .error e ∧
          ((∃ m, e = .malformed m ∧ (sample cfg text xMin xMax steps unknown).outcome =
              .ok (SampleReport.failed m.message m.code)) ∨
            cfg.sampleRoundingDigits < 0 ∧ ∃ a, e = .arithmetic a ∧
              (sample cfg text xMin xMax steps unknown).outcome = .error (.arithmetic a))) := by
  refine ⟨fun a ha => ?_, fun count hcount => ?_⟩
  · have htake := take_of_error (f := f) ha hpos hlt
    exact ⟨htake, sample_of_take_error hf htake⟩
  -- The length of a step is known from here on, and with it where the interval ends.
  obtain ⟨k, hk⟩ : ∃ k, Before xMin xMax ((xMax - xMin) / count)
      (steps.getD cfg.defaultSamples).toNat k :=
    exists_before fun i hi => exists_position hcount hi
  refine ⟨k, hk, ?_⟩
  -- Either all samples before the end have points, or there is a first one that has none.
  by_cases hall : ∀ i < k, ∃ p, pointAt cfg f xMin ((xMax - xMin) / count) i = .ok p
  · left
    have : Nonempty Point := ⟨⟨0, 0⟩⟩
    choose! p hp using hall
    have htake := take_of_values hlt hpos hcount hk hp
    refine ⟨p, hp, _, rfl, ?_, htake, sample_of_take hf htake⟩
    rw [length_add_skipped, List.length_map, List.length_range]
  · right
    obtain ⟨i, e, hi, hbefore, he⟩ := exists_first_error hall
    have htake := take_of_fault hlt hpos hcount hk hi hbefore he
    have hsample := sample_of_take_error hf htake
    refine ⟨i, e, hi, hbefore, he, htake, ?_⟩
    -- Its position is a double, so the fault is in the formula or in the rounding.
    obtain ⟨x, hx, -⟩ := hk.before i hi
    rcases fault_of_pointAt hx he with ⟨m, rfl⟩ | ⟨hdigits, a, rfl⟩
    · exact .inl ⟨m, rfl, hsample⟩
    · exact .inr ⟨hdigits, a, rfl, hsample⟩

/-- A pole among four samples is skipped. -/
theorem sample_partition_pole :
    Formula.make {} "1/x" .null = .ok ⟨"1/x", 'x'⟩ ∧ (-1 : Float) < 1 ∧
      0 < (some 4 : Option Int).getD ({} : Settings).defaultSamples ∧ floatOfInt 4 = .ok 4 ∧
      ∃ k, Before (-1) 1 ((1 - -1) / 4) 4 k ∧ ∃ p : Nat → Point,
        (∀ i < k, pointAt {} ⟨"1/x", 'x'⟩ (-1) ((1 - -1) / 4) i = .ok (p i)) ∧
        ∃ s, s = ofPoints ((List.range k).map p) ∧ s.points.length + s.skipped = k ∧
          (take {} ⟨"1/x", 'x'⟩ (-1) 1 (some 4)).outcome = .ok s ∧
          s.points.map Point.x = [-1, -0.5, 0.5] ∧ s.skipped = 1 := by
  have hf : Formula.make {} "1/x" .null = .ok ⟨"1/x", 'x'⟩ := rfl
  have hlt : (-1 : Float) < 1 := by decide +kernel
  have hpos : 0 < (some 4 : Option Int).getD ({} : Settings).defaultSamples := by decide
  have hcount : floatOfInt 4 = .ok 4 := by decide +kernel
  have htaken : (take {} ⟨"1/x", 'x'⟩ (-1) 1 (some 4)).outcome.toOption.map
      (fun s => (s.points.map Point.x, s.skipped)) = some ([-1, -0.5, 0.5], 1) := by
    decide +kernel
  obtain ⟨k, hk, ⟨p, hp, s, hs, hlength, htake, -⟩ | ⟨i, e, -, -, -, htake, -⟩⟩ :=
    (sample_partition {} hf hlt hpos).2 4 hcount
  · rw [htake] at htaken
    obtain ⟨hx, hskipped⟩ := Prod.mk.inj (Option.some.inj htaken)
    exact ⟨hf, hlt, hpos, hcount, k, hk, p, hp, s, hs, hlength, htake, hx, hskipped⟩
  · rw [htake] at htaken
    cases htaken

/-- A formula that has a value nowhere, and so many samples of it that the fault is their number. -/
theorem sample_fails_at_count :
    (∀ x, ((⟨"(", 'x'⟩ : Formula).evaluate {} (.real x)).outcome = .error .openGroup) ∧
      (take {} ⟨"(", 'x'⟩ 0 1 (some (2 ^ 1024))).outcome = .error (.arithmetic .wholeTooLarge) ∧
      (sample {} "(" 0 1 (some (2 ^ 1024)) .null).outcome =
        .error (.arithmetic .wholeTooLarge) := by
  have hcount : floatOfInt (2 ^ 1024) = .error .wholeTooLarge := by decide +kernel
  have htake : (take {} ⟨"(", 'x'⟩ 0 1 (some (2 ^ 1024))).outcome =
      .error (.arithmetic .wholeTooLarge) :=
    take_of_error hcount (by decide +kernel) (by decide +kernel)
  refine ⟨fun x => ?_, htake, sample_of_take_error (f := ⟨"(", 'x'⟩) rfl htake⟩
  have hprepare : (⟨"(", 'x'⟩ : Formula).prepare {} (.real x) = .ok ['('] := rfl
  have hreduce : (reduce 64 0 ['(']).outcome = .error .openGroup := by decide +kernel
  rw [Formula.evaluate, hprepare]
  exact hreduce

end Answer

end FormulaPlot
