import FormulaPlot.Answer
import FormulaPlot.Proofs.Engine.Balance
import FormulaPlot.Proofs.Formula.Evaluate

/-!
# The check of a formula

`Answer.check` looks at the parentheses of a formula before it evaluates it. It never says anything
else than the evaluation (`check_agrees`): a text whose parentheses do not match has no value.

What is reduced is the text without blanks and with a number for the variable. Neither changes the
parentheses unless one of them is the variable itself (`parens_prepare`), and a text is reduced to
a number only if its parentheses match (`balanced_of_reduce`).
-/

namespace FormulaPlot

/-- A number in the place of the variable brings and takes no parenthesis. -/
theorem parens_substitute {x : Char} (hx : isParen x = false) {s : Text}
    (hs : ∀ c ∈ s, isParen c = false) (t : Text) : parens (substitute t x s) = parens t := by
  have hnone : parens s = [] := List.filter_eq_nil_iff.2 fun c hc => by simp [hs c hc]
  -- Whether a variable is replaced depends on the character before it, which may be any.
  have after (q : Option Char) : parens (substituteAfter q x s t) = parens t := by
    induction t generalizing q with
    | nil => rfl
    | cons c t ih =>
      have hsplit (u : Text) : parens (u ++ t) = parens u ++ parens t := List.filter_append ..
      have hcons : parens (c :: t) = parens [c] ++ parens t := hsplit [c]
      rw [substituteAfter, hcons, ← ih (some c), parens, List.filter_append]
      split
      next hvar =>
        -- The variable is no parenthesis, and its value holds none.
        have hc : parens [c] = [] := by simp [parens, hvar.1, hx]
        rw [hc, ← hnone]
        rfl
      next => rfl
  exact after none

/-- Parentheses are no blanks. -/
theorem parens_normalize {limit : Int} {t u : Text} (h : normalize limit t = .ok u) :
    parens u = parens t := by
  rw [normalize] at h
  split at h
  · cases h
  · obtain rfl := Except.ok.inj h
    rw [parens, parens, List.filter_filter]
    refine List.filter_congr fun c _ => ?_
    by_cases hc : isParen c = true
    · rcases (by simpa [isParen] using hc : c = '(' ∨ c = ')') with rfl | rfl <;> decide
    · simp [hc]

namespace Formula

variable {cfg : Settings} {f : Formula} {v : Quantity}

/-- A formula has the text that it is made of, and the one character of its variable. -/
theorem of_make {text s : String} (h : make cfg text (.text s) = .ok f) :
    f.text = text ∧ s.toList = [f.unknown] := by
  simp only [make] at h
  split at h
  next c hc =>
    obtain rfl := Except.ok.inj h
    exact ⟨rfl, hc⟩
  next => cases h

/-- The text that is reduced has the parentheses of the formula. -/
theorem parens_prepare {t : Text} (h : f.prepare cfg v = .ok t) (hx : isParen f.unknown = false) :
    parens t = parens f.text.toList := by
  rw [prepare] at h
  cases hn : normalize cfg.maxInputLength f.text.toList with
  | error e => rw [hn] at h; cases h
  | ok u =>
    cases hv : v.toFloat with
    | error e => rw [hn, hv] at h; cases h
    | ok x =>
      rw [hn, hv] at h
      obtain rfl := Except.ok.inj h
      -- The text of a double has digits, letters, points and signs.
      have hplain : ∀ c ∈ plainText x, isParen c = false := fun c hc => by
        have := isPlainChar_of_mem_plainText hc
        rw [isParen, Bool.or_eq_false_iff, decide_eq_false_iff_not, decide_eq_false_iff_not]
        constructor <;> rintro rfl <;> cases this
      rw [parens_substitute hx hplain, parens_normalize hn]

/-- A formula whose parentheses do not match has no value. -/
theorem exists_error_of_not_balanced (h : ¬ Balanced f.text.toList)
    (hx : isParen f.unknown = false) : ∃ e, (f.evaluate cfg v).outcome = .error e := by
  cases hp : f.prepare cfg v with
  | error e => exact ⟨e, evaluate_of_error hp⟩
  | ok t =>
    have hvalue := toOption_evaluate hp
    cases ho : (f.evaluate cfg v).outcome with
    | error e => exact ⟨e, rfl⟩
    | ok x =>
      rw [ho] at hvalue
      -- A value would come of a text whose parentheses match, and these are those of the formula.
      have hbalanced := balanced_of_reduce (toOption_eq_some.1 hvalue.symm)
      rw [← balanced_parens, parens_prepare hp hx, balanced_parens] at hbalanced
      exact absurd hbalanced h

end Formula

namespace Answer

/-- What leaves a formula without value is reported. -/
theorem outcome_report_of_error {cfg : Settings} {text : String} {value : Logged Float} {e : Fault}
    (h : value.outcome = .error e) (he : (∃ m, e = .malformed m) ∨ ∃ m, e = .invalid m) :
    ∃ message code, (report cfg text value).outcome = .ok (EvalReport.failed message code) := by
  have hbind : (value >>= fun x => pure (Except.ok x : Except (String × String) Float)).outcome =
      .error e := by
    rw [Noted.outcome_bind, h]
    rfl
  have hrecover (handle : Fault → Logged (Except (String × String) Float)) :
      (recover (value >>= fun x => pure (.ok x)) handle).outcome = (handle e).outcome := by
    rw [recover, hbind]
  rcases he with ⟨m, rfl⟩ | ⟨m, rfl⟩
  all_goals
    refine ⟨m.message, m.code, ?_⟩
    rw [report, Noted.outcome_bind, hrecover]
    rfl

variable {cfg : Settings} {text s : String} {probe : Float}

/-- A formula whose parentheses do not match is reported to have no value. -/
theorem outcome_evaluate_of_not_balanced (h : ¬ Balanced text.toList) (hs : s ≠ "(" ∧ s ≠ ")") :
    ∃ message code, (evaluate cfg text (.real probe) (.text s)).outcome =
      .ok (EvalReport.failed message code) := by
  rw [evaluate]
  cases hf : Formula.make cfg text (.text s) with
  | error e =>
    refine outcome_report_of_error (e := .invalid e) ?_ (.inr ⟨e, rfl⟩)
    rw [Noted.outcome_bind, formula, Noted.outcome_ofExcept, hf]
    rfl
  | ok f =>
    obtain ⟨rfl, hunknown⟩ := Formula.of_make hf
    -- The variable is the only character of its name, so it is no parenthesis either.
    have hparen : isParen f.unknown = false := by
      rw [isParen, Bool.or_eq_false_iff, decide_eq_false_iff_not, decide_eq_false_iff_not]
      constructor
      · intro hc
        exact hs.1 (String.toList_inj.1 (by rw [hunknown, hc]; rfl))
      · intro hc
        exact hs.2 (String.toList_inj.1 (by rw [hunknown, hc]; rfl))
    obtain ⟨e, he⟩ : ∃ e, (f.evaluate cfg (.real probe)).outcome = .error e :=
      Formula.exists_error_of_not_balanced h hparen
    refine outcome_report_of_error (e := .malformed e) ?_ (.inl ⟨e, rfl⟩)
    rw [Noted.outcome_bind, formula, Noted.outcome_ofExcept, hf]
    change ((f.evaluate cfg (.real probe)).logged cfg).outcome = _
    rw [Noted.logged, Noted.mapError]
    change (f.evaluate cfg (.real probe)).outcome.mapError Fault.malformed = _
    rw [he]
    rfl

/-- The check of a formula never contradicts its evaluation. It says that a formula has a value if
the evaluation does, whatever the text and the variable, unless the variable is a parenthesis. For a
text whose parentheses match the two are one and the same. And no text is reduced to a number, at
any depth and under any limit, if its parentheses do not match. -/
theorem check_agrees (cfg : Settings) (text s : String) (probe : Float)
    (hs : s ≠ "(" ∧ s ≠ ")") :
    (check cfg text (.text s) (.real probe)).outcome.map EvalReport.ok =
        (evaluate cfg text (.real probe) (.text s)).outcome.map EvalReport.ok ∧
      (unbalancedAt? text.toList = none →
        check cfg text (.text s) (.real probe) = evaluate cfg text (.real probe) (.text s)) ∧
      ∀ limit depth t v, (reduce limit depth t).outcome = .ok v → unbalancedAt? t = none := by
  have hsame (h : unbalancedAt? text.toList = none) :
      check cfg text (.text s) (.real probe) = evaluate cfg text (.real probe) (.text s) := by
    rw [check, h]
  refine ⟨?_, hsame, fun limit depth t v h => unbalancedAt?_eq_none.2 (balanced_of_reduce h)⟩
  -- The check itself fails at the first parenthesis without a partner, and so does the evaluation.
  cases hpos : unbalancedAt? text.toList with
  | none => rw [hsame hpos]
  | some position =>
    have hnot : ¬ Balanced text.toList := fun h => by
      rw [unbalancedAt?_eq_none.2 h] at hpos
      cases hpos
    obtain ⟨message, code, he⟩ :
        ∃ message code, (evaluate cfg text (.real probe) (.text s)).outcome =
          .ok (EvalReport.failed message code) := outcome_evaluate_of_not_balanced hnot hs
    rw [check, hpos, he]
    rfl

/-- A text with a stray parenthesis fails both ways, and the group of a product that is reduced to a
number is closed. -/
theorem check_agrees_stray :
    ("x" ≠ "(" ∧ "x" ≠ ")") ∧ unbalancedAt? "2)+(x".toList = some 1 ∧
      (check {} "2)+(x" (.text "x") (.real (Float.ofBits 0x3FF0000000000000))).outcome.map
          EvalReport.ok =
        (evaluate {} "2)+(x" (.real (Float.ofBits 0x3FF0000000000000)) (.text "x")).outcome.map
          EvalReport.ok ∧
      (reduce 64 0 "2*(1+3)".toList).outcome = .ok (Float.ofBits 0x4020000000000000) ∧
      unbalancedAt? "2*(1+3)".toList = none := by
  have hs : "x" ≠ "(" ∧ "x" ≠ ")" := by decide
  have hreduce : (reduce 64 0 "2*(1+3)".toList).outcome = .ok (Float.ofBits 0x4020000000000000) := by
    decide +kernel
  obtain ⟨hok, -, hbalanced⟩ :=
    check_agrees {} "2)+(x" "x" (Float.ofBits 0x3FF0000000000000) hs
  exact ⟨hs, by decide, hok, hreduce, hbalanced 64 0 _ _ hreduce⟩

end Answer

end FormulaPlot
