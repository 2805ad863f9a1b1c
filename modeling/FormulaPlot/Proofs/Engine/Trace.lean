import FormulaPlot.Proofs.Engine.Enclosed
import FormulaPlot.Proofs.Engine.Stepwise
import FormulaPlot.Proofs.Engine.Work
import FormulaPlot.Proofs.Formula.Evaluate

/-!
# Traces

The engine logs its steps or not as it goes along. As long as the stack has room for the records,
tracing only observes (`reduce_observed`): the two runs of a text end with the same value or the
same error, and without a trace no record is left. With it, the last record of a run that ends with
a value shows the text that was read as that value, and there is one record of a replacement for
each opening parenthesis.

A traced run and a silent one are runs under two limits on nesting, as the stack is exhausted some
levels earlier with records. A run that is not too deep for the lower limit is the same under the
higher one, so only a run that exhausts its stack can differ. Under a limit that is raised past the
stack there is such a text (`evaluate_traced_past_reach`).

Replacements are told from the other records by how their messages begin
(`Record.isReplacement`). The message of an operator begins with the operand to its left, which is
no name and no parenthesis, so to count the records is to count the steps (`takes_reduce`).
-/

namespace FormulaPlot

/-! ## Two runs -/

/-- Only where a limit is raised past its reach the engine tells that it is met, not in a
reduction. -/
theorem ne_pastReach_of_reduce {limit depth : Int} {t : Text} {e : EvalError}
    (h : (reduce limit depth t).outcome = .error e) : e ≠ .pastReach :=
  errs_reduce (P := (· ≠ .pastReach)) ⟨⟨by simp, by simp⟩, by simp, by simp⟩ (.inl (by simp)) e h

/-- Nor is it told before the reduction. -/
theorem ne_pastReach_of_prepare {cfg : Settings} {f : Formula} {q : Quantity} {e : EvalError}
    (h : f.prepare cfg q = .error e) : e ≠ .pastReach := by
  have hnormalize : ∀ e, normalize cfg.maxInputLength f.text.toList = .error e →
      e ≠ .pastReach := by
    intro e he
    rw [normalize] at he
    split at he
    · exact Except.error.inj he ▸ by simp
    · cases he
  have hvalue : ∀ e, q.toFloat = .error e → e ≠ .pastReach := by
    intro e he
    cases q with
    | real x => cases he
    | whole n =>
      rw [Quantity.toFloat] at he
      generalize floatOfInt n = y at he
      cases y with
      | ok x => cases he
      | error a => exact Except.error.inj he ▸ by simp
  rw [Formula.prepare] at h
  generalize normalize cfg.maxInputLength f.text.toList = t at h hnormalize
  generalize q.toFloat = x at h hvalue
  cases t with
  | error e' => exact hnormalize e (congrArg Except.error (Except.error.inj h))
  | ok t =>
    cases x with
    | error e' => exact hvalue e (congrArg Except.error (Except.error.inj h))
    | ok x => cases h

namespace Stepwise

variable {stack : Stack} {limit depth free : Int} {t : Text}

/-- Records leave no more levels than there are without them. -/
theorem levels_true_le (stack : Stack) (free : Int) :
    stack.levels true free ≤ stack.levels false free := by
  simp only [Stack.levels, Stack.step, if_true, Bool.false_eq_true, if_false]
  omega

/-- A reduction that is too deep for the levels of the stack exhausts it, if the limit that is set
is the higher one. -/
theorem outcome_reduce_of_isTooDeep {traced : Bool} (hlevels : 0 ≤ stack.levels traced free)
    (hlimit : depth + stack.levels traced free < limit)
    (hdeep : isTooDeep (FormulaPlot.reduce (depth + stack.levels traced free) depth t).outcome =
      true) :
    (reduce stack traced limit depth free t).outcome = .error .exhausted := by
  rw [reduce_eq rfl (by omega), min_eq_right hlimit.le, Noted.outcome_observed]
  cases ho : (FormulaPlot.reduce (depth + stack.levels traced free) depth t).outcome with
  | ok v => rw [ho] at hdeep; cases hdeep
  | error e =>
    rw [ho] at hdeep
    cases e with
    | tooDeep n => rw [Except.mapError, told, if_neg (not_le.2 hlimit)]
    | pastReach => exact absurd rfl (ne_pastReach_of_reduce ho)
    | _ => simp [isTooDeep, EvalError.code] at hdeep

/-- A traced reduction that does not exhaust the stack ends as the silent one. -/
theorem outcome_reduce_eq
    (hrun : (reduce stack true limit depth free t).outcome ≠ .error .exhausted) :
    (reduce stack true limit depth free t).outcome =
      (reduce stack false limit depth free t).outcome := by
  have hle := levels_true_le stack free
  by_cases hlimit : limit ≤ depth + stack.levels true free
  · rw [reduce_eq_of_le hlimit, reduce_eq_of_le (hlimit.trans (by omega)), Noted.outcome_observed,
      Noted.outcome_observed]
  by_cases hdepth : limit < depth
  · rw [reduce_of_lt hdepth, reduce_of_lt hdepth]
  by_cases hlevels : 0 ≤ stack.levels true free
  · -- The two runs are those under two limits, and the lower one is that of the stack.
    have hmin : depth + stack.levels true free ≤ min limit (depth + stack.levels false free) :=
      le_min (not_le.1 hlimit).le (by omega)
    have hdeep : isTooDeep
        (FormulaPlot.reduce (depth + stack.levels true free) depth t).outcome = false := by
      by_contra hdeep
      exact hrun (outcome_reduce_of_isTooDeep hlevels (not_le.1 hlimit)
        (Bool.eq_true_of_not_eq_false hdeep))
    -- A run that is not too deep under the lower limit is the same under the higher one.
    rw [reduce_eq rfl (by omega), reduce_eq rfl (by omega), min_eq_right (not_le.1 hlimit).le,
      reduce_of_le hmin hdeep, Noted.outcome_observed, Noted.outcome_observed]
    cases ho : (FormulaPlot.reduce (depth + stack.levels true free) depth t).outcome with
    | ok v => rfl
    | error e =>
      have hne : ∀ n, e ≠ .tooDeep n := by
        rintro n rfl
        rw [ho] at hdeep
        simp [isTooDeep, EvalError.code] at hdeep
      change Except.error (told _ _ e) = Except.error (told _ _ e)
      rw [told_of_ne hne, told_of_ne hne]
  · refine absurd ?_ hrun
    rw [reduce_of_levels_neg (not_le.1 hlevels) (not_lt.1 hdepth)]
    rfl

/-- A number in groups that the limit allows has its value if the stack has a level for each of
them, and exhausts it otherwise. -/
theorem outcome_reduce_groups {traced : Bool} (hlevels : 0 ≤ stack.levels traced free) {k : Nat}
    (hdepth : depth + k ≤ limit) {s : Text} {x : Float} (h : readNumber s = .ok x)
    (hs : ∀ c ∈ s, isReservedLetter c = false) :
    (reduce stack traced limit depth free
      (List.replicate k '(' ++ s ++ List.replicate k ')')).outcome =
        if k ≤ stack.levels traced free then .ok x else .error .exhausted := by
  split
  next hk =>
    rw [reduce_eq rfl (by omega), Noted.outcome_observed,
      toOption_eq_some.1 (toOption_reduce_groups (le_min hdepth (by omega)) h)]
    rfl
  next hk =>
    have hletters : ∀ c ∈ List.replicate k '(' ++ s ++ List.replicate k ')',
        isReservedLetter c = false := by
      intro c hc
      simp only [List.mem_append, List.mem_replicate] at hc
      rcases hc with (⟨-, rfl⟩ | hc) | ⟨-, rfl⟩
      · rfl
      · exact hs c hc
      · rfl
    have hnest := le_nest_groups k s
    exact outcome_reduce_of_isTooDeep hlevels (by omega) (isTooDeep_of_lt hletters
      (toOption_eq_some.1 (toOption_reduce_groups hdepth h)) (by omega))

/-- A reduction under a limit that the stack has room for does not exhaust it. -/
theorem outcome_reduce_ne_exhausted {traced : Bool}
    (h : limit ≤ depth + stack.levels traced free) :
    (reduce stack traced limit depth free t).outcome ≠ .error .exhausted := by
  rw [reduce_eq_of_le h, Noted.outcome_observed]
  cases (FormulaPlot.reduce limit depth t).outcome <;> simp [Except.mapError]

/-- A silent reduction leaves no record. -/
theorem notes_reduce_false (stack : Stack) (limit depth free : Int) (t : Text) :
    (reduce stack false limit depth free t).notes = [] := by
  obtain ⟨limit', tell, h⟩ := exists_observed stack false limit depth free t
  rw [h, Noted.notes_observed_false]

section Evaluate

variable {cfg : Settings} {f : Formula} {q : Quantity}

/-- A formula whose text is not prepared fails on every stack, and leaves no record. -/
theorem evaluate_of_error {e : EvalError} (h : f.prepare cfg q = .error e) :
    evaluate stack cfg f q = Noted.fail (.malformed e) := by
  rw [evaluate, h]
  rfl

/-- The value of a formula is that of its text. -/
theorem evaluate_of_ok (h : f.prepare cfg q = .ok t) :
    evaluate stack cfg f q =
      (reduce stack cfg.traceRewrites cfg.maxNestingDepth 0 stack.room t).mapError fault := by
  rw [evaluate, h]
  rfl

/-- The text that is reduced is the same with a trace and without one. -/
theorem prepare_trace (cfg : Settings) (traced : Bool) (f : Formula) (q : Quantity) :
    f.prepare { cfg with traceRewrites := traced } q = f.prepare cfg q := rfl

/-- The traced evaluation of a formula that is not past the reach ends as the silent one. -/
theorem outcome_evaluate_eq
    (hrun : (evaluate stack { cfg with traceRewrites := true } f q).outcome ≠
      .error (.malformed .pastReach)) :
    (evaluate stack { cfg with traceRewrites := true } f q).outcome =
      (evaluate stack { cfg with traceRewrites := false } f q).outcome := by
  cases h : f.prepare cfg q with
  | error e =>
    rw [evaluate_of_error ((prepare_trace cfg true f q).trans h),
      evaluate_of_error ((prepare_trace cfg false f q).trans h)]
  | ok t =>
    rw [evaluate_of_ok ((prepare_trace cfg true f q).trans h)] at hrun ⊢
    rw [evaluate_of_ok ((prepare_trace cfg false f q).trans h)]
    refine congrArg (Except.mapError fault) (outcome_reduce_eq fun hexhausted => hrun ?_)
    exact congrArg (Except.mapError fault) hexhausted

/-- Under a limit that the stack has room for, the evaluation of a formula is not past the reach. -/
theorem outcome_evaluate_ne_pastReach (h : cfg.maxNestingDepth ≤ stack.reach cfg.traceRewrites) :
    (evaluate stack cfg f q).outcome ≠ .error (.malformed .pastReach) := by
  cases hp : f.prepare cfg q with
  | error e =>
    rw [evaluate_of_error hp]
    simpa using ne_pastReach_of_prepare hp
  | ok t =>
    rw [evaluate_of_ok hp, reduce_eq_of_le (by rwa [zero_add]), Noted.mapError_observed,
      Noted.outcome_observed]
    cases ho : (FormulaPlot.reduce cfg.maxNestingDepth 0 t).outcome with
    | ok v => simp [Except.mapError]
    | error e => simpa [Except.mapError, fault] using ne_pastReach_of_reduce ho

/-- A silent evaluation leaves no record. -/
theorem notes_evaluate_false (h : cfg.traceRewrites = false) :
    (evaluate stack cfg f q).notes = [] := by
  cases hp : f.prepare cfg q with
  | error e => rw [evaluate_of_error hp, Noted.notes_fail]
  | ok t =>
    rw [evaluate_of_ok hp, h]
    exact notes_reduce_false _ _ _ _ _

end Evaluate

end Stepwise

/-! ## Replacements -/

/-- Whether a record tells that a call or a group gave way to its value. -/
def Record.isReplacement (r : Record) : Bool :=
  ["Replaced function ", "Replaced ("].any fun start => start.toList.isPrefixOf r.message.toList

namespace Step

/-- Whether a step leaves the record of a replacement. -/
def isReplacement (s : Step) : Bool := (s.record?.map Record.isReplacement).getD false

/-- The steps that leave such a record are those that replace a call or a group. -/
theorem marks_isReplacement : Marks isReplacement false true where
  enter := rfl
  reducing t := by
    simp [isReplacement, record?, message?, Record.isReplacement, toString, List.isPrefixOf]
  replaced k inner result := by
    cases k <;> simp [isReplacement, record?, message?, Record.isReplacement, toString]
  applied c left o right result hc := by
    have hname : c ≠ 'f' := by rintro rfl; cases hc
    have hopen : c ≠ '(' := by rintro rfl; cases hc
    simp [isReplacement, record?, message?, Record.isReplacement, toString, List.isPrefixOf,
      hname.symm, hopen.symm]
  returning t := by
    simp [isReplacement, record?, message?, Record.isReplacement, toString, List.isPrefixOf]

end Step

/-! ## The last record -/

/-- The record that shows a text as the value of a reduction. -/
def Record.returning (s : Text) : Record :=
  { level := .debug, topic := .evaluator, message := "Returning value " ++ String.ofList s }

/-- The last note of a run that ends with a value is related to it. -/
def Noted.Last {ν ε α : Type} (Q : ν → α → Prop) (x : Noted ν ε α) : Prop :=
  ∀ a, x.outcome = .ok a → ∃ before s, x.notes = before ++ [s] ∧ Q s a

/-- The last note of two parts is that of the second. -/
theorem Noted.Last.bind {ν ε α β : Type} {Q : ν → β → Prop} {f : α → Noted ν ε β}
    (hf : ∀ a, (f a).Last Q) (x : Noted ν ε α) : (x >>= f).Last Q := by
  intro b hb
  rw [outcome_bind] at hb
  cases hx : x.outcome with
  | error e =>
    rw [hx] at hb
    cases hb
  | ok a =>
    rw [hx] at hb
    obtain ⟨before, s, hnotes, hs⟩ := hf a b hb
    exact ⟨x.notes ++ before, s, by rw [notes_bind_of_ok hx, hnotes, List.append_assoc], hs⟩

/-- A reduction that ends with a value notes last the text that it reads as that value. -/
theorem last_reduce (limit depth : Int) (t : Text) :
    (reduce limit depth t).Last fun s v => ∃ u, s = .returning u ∧ readNumber u = .ok v := by
  rw [reduce]
  refine Noted.Last.bind (fun _ => ?_) _
  split
  · intro v hv
    cases hv
  · -- The last part notes the text and then reads it.
    refine .bind (fun _ => .bind (fun u => .bind (fun w v hv => ?_) _) _) _
    exact ⟨[], .returning (cancelMinusPairs w), rfl, _, rfl, hv⟩

/-- The records of a traced reduction that ends with a value. -/
theorem records_of_reduce {stack : Stack} {limit depth free : Int} {t : Text} {v : Float}
    (h : (Stepwise.reduce stack true limit depth free t).outcome = .ok v) :
    (∃ before s, (Stepwise.reduce stack true limit depth free t).notes =
        before ++ [.returning s] ∧ readNumber s = .ok v) ∧
      (Stepwise.reduce stack true limit depth free t).notes.countP Record.isReplacement =
        openings t := by
  obtain ⟨limit', tell, hrun⟩ := Stepwise.exists_observed stack true limit depth free t
  rw [hrun, Noted.outcome_observed_eq_ok] at h
  rw [hrun, Noted.notes_observed_true]
  refine ⟨?_, ?_⟩
  · obtain ⟨before, _, hnotes, s, rfl, hs⟩ := last_reduce limit' depth t v h
    refine ⟨before.filterMap Step.record?, s, ?_, hs⟩
    rw [hnotes, List.filterMap_append]
    rfl
  · -- To count the records is to count the steps that leave them.
    rw [List.countP_filterMap]
    have hcount := (takes_reduce Step.marks_isReplacement limit' depth t).2 v h
    rwa [Bool.toNat_false, Bool.toNat_true, Nat.zero_add, Nat.zero_add, Nat.one_mul] at hcount

/-! ## Tracing -/

/-- Tracing only observes, as long as the stack has room for it. A traced reduction that does not
exhaust its stack, and a traced evaluation that does not end past its reach, end with the value or
the error that they end with when they are silent. Neither happens under a limit that the stack has
room for, as is the limit of the defaults. Silent runs leave no record. The last record of a traced
reduction that ends with a value shows a text that is read as this value, and its records of
replacements, with those of the reductions inside it, are as many as the opening parentheses of its
text.

The runs are those of the engine that looks at the flag at every step. They are the runs of `reduce`
wherever the stack has room for the limit, and on the stack of formulas they are those of
`Formula.evaluate` under all limits. -/
theorem reduce_observed (stack : Stack) (cfg : Settings) (limit depth free : Int) (t : Text)
    (f : Formula) (q : Quantity) :
    let run (traced : Bool) := Stepwise.reduce stack traced limit depth free t
    let whole (traced : Bool) := Stepwise.evaluate stack { cfg with traceRewrites := traced } f q
    (((run true).outcome ≠ .error .exhausted → (run true).outcome = (run false).outcome) ∧
      ((whole true).outcome ≠ .error (.malformed .pastReach) →
        (whole true).outcome = (whole false).outcome)) ∧
    ((limit ≤ depth + stack.levels true free → (run true).outcome ≠ .error .exhausted) ∧
      (cfg.maxNestingDepth ≤ stack.reach true →
        (whole true).outcome ≠ .error (.malformed .pastReach))) ∧
    ((run false).notes = [] ∧ (whole false).notes = []) ∧
    (∀ v, (run true).outcome = .ok v →
      (∃ before s, (run true).notes = before ++ [.returning s] ∧ readNumber s = .ok v) ∧
        (run true).notes.countP Record.isReplacement = openings t) ∧
    (∀ traced, limit ≤ depth + stack.levels traced free →
      run traced = (reduce limit depth t).observed traced .malformed) ∧
    Stepwise.evaluate Formula.stack cfg f q = (f.evaluate cfg q).logged cfg := by
  refine ⟨⟨Stepwise.outcome_reduce_eq, Stepwise.outcome_evaluate_eq⟩,
    ⟨Stepwise.outcome_reduce_ne_exhausted,
      @Stepwise.outcome_evaluate_ne_pastReach stack { cfg with traceRewrites := true } f q⟩,
    ⟨Stepwise.notes_reduce_false _ _ _ _ _, Stepwise.notes_evaluate_false rfl⟩,
    fun v => records_of_reduce, fun traced h => Stepwise.reduce_eq_of_le h t,
    Stepwise.evaluate_eq cfg f q⟩

/-- A group and a call leave two records of replacements, and the last record shows the value. -/
theorem reduce_observed_group :
    let run (traced : Bool) :=
      Stepwise.reduce Formula.stack traced 64 0 Formula.stack.room "(1+2)*sqrt(4)".toList
    64 ≤ 0 + Formula.stack.levels true Formula.stack.room ∧
      (run true).outcome = .ok (Float.ofBits 0x4018000000000000) ∧
      (run false).outcome = .ok (Float.ofBits 0x4018000000000000) ∧
      (run false).notes = [] ∧
      (∃ before s, (run true).notes = before ++ [.returning s] ∧
        readNumber s = .ok (Float.ofBits 0x4018000000000000)) ∧
      (run true).notes.countP Record.isReplacement = 2 ∧
      (({} : Settings).maxNestingDepth ≤ Formula.stack.reach true ∧
        (Stepwise.evaluate Formula.stack { traceRewrites := true } ⟨"(1+x)*2", 'x'⟩
            (.whole 0)).outcome =
          (Stepwise.evaluate Formula.stack { traceRewrites := false } ⟨"(1+x)*2", 'x'⟩
            (.whole 0)).outcome) := by
  intro run
  obtain ⟨⟨hrun, hwhole⟩, ⟨hfits, hreach⟩, ⟨hsilent, -⟩, hrecords, hsame, -⟩ :=
    reduce_observed Formula.stack {} 64 0 Formula.stack.room "(1+2)*sqrt(4)".toList
      ⟨"(1+x)*2", 'x'⟩ (.whole 0)
  have hroom : (64 : Int) ≤ 0 + Formula.stack.levels true Formula.stack.room := by decide
  have hvalue : (run true).outcome = .ok (Float.ofBits 0x4018000000000000) :=
    (congrArg Noted.outcome (hsame true hroom)).trans (by decide +kernel)
  have hlimit : ({} : Settings).maxNestingDepth ≤ Formula.stack.reach true := by decide
  exact ⟨hroom, hvalue, (hrun (hfits hroom)).symm.trans hvalue, hsilent, (hrecords _ hvalue).1,
    (hrecords _ hvalue).2, hlimit, hwhole (hreach hlimit)⟩

/-- A number in groups has its value without a trace where a trace exhausts the stack, if the limit
is raised. -/
theorem evaluate_traced_past_reach :
    let f : Formula :=
      ⟨String.ofList (List.replicate 493 '(' ++ ['1'] ++ List.replicate 493 ')'), 'x'⟩
    let silent : Settings := { maxNestingDepth := 1000 }
    let traced : Settings := { silent with traceRewrites := true }
    ((f.evaluate silent (.real 0)).logged silent).outcome = .ok 1 ∧
      ((f.evaluate traced (.real 0)).logged traced).outcome = .error (.malformed .pastReach) := by
  intro f silent traced
  have hread : readNumber ['1'] = .ok 1 := by decide +kernel
  have hletters : ∀ c ∈ ['1'], isReservedLetter c = false :=
    List.forall_mem_singleton.2 (by decide +kernel)
  have hprepare : f.prepare silent (.real 0) =
      .ok (List.replicate 493 '(' ++ ['1'] ++ List.replicate 493 ')') := by
    rw [Formula.prepare_real, String.toList_ofList]
    decide +kernel
  have htraced := (Stepwise.prepare_trace silent true f (.real 0)).trans hprepare
  -- The groups fit into the 494 levels of the stack, but not into the 490 that a trace leaves.
  have hsilent := Stepwise.outcome_reduce_groups
    (by decide : 0 ≤ Formula.stack.levels false Formula.stack.room)
    (by decide : (0 : Int) + (493 : Nat) ≤ 1000) hread hletters
  have hexhausted := Stepwise.outcome_reduce_groups
    (by decide : 0 ≤ Formula.stack.levels true Formula.stack.room)
    (by decide : (0 : Int) + (493 : Nat) ≤ 1000) hread hletters
  rw [if_pos (by decide)] at hsilent
  rw [if_neg (by decide)] at hexhausted
  rw [← Stepwise.evaluate_eq, ← Stepwise.evaluate_eq, Stepwise.evaluate_of_ok hprepare,
    Stepwise.evaluate_of_ok htraced]
  exact ⟨congrArg (Except.mapError Stepwise.fault) hsilent,
    congrArg (Except.mapError Stepwise.fault) hexhausted⟩

end FormulaPlot
