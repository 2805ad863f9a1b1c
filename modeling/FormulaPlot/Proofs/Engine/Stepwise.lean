import FormulaPlot.Formula.Basic
import FormulaPlot.Proofs.Engine.Limit

/-!
# The engine on its stack

The engine of `reduce` notes its steps, and only a finished run is logged. Here it is stated once
more as it goes along: every step looks at the flag for tracing anew, needs its frames on the stack,
which are more if it is logged, and leaves its record at once. A reduction inside another one finds
two frames fewer. Where a step finds too few, the run is exhausted, which is no error of the
formula.

Both engines come to the same (`reduce_eq`, `evaluate_eq`). To run on a stack is to run under the
lower of two limits on nesting, the one that is set and the deepest level that the stack has room
for, and to log the notes of that run. An error of depth is told as exhaustion if the stack was the
lower one.
-/

namespace FormulaPlot

/-! ## Logging a run -/

namespace Noted

variable {ε δ α β : Type}

/-- A run whose steps are logged or not, with its errors told in another way. -/
def observed (traced : Bool) (tell : ε → δ) (x : Noted Step ε α) : Noted Record δ α :=
  (x.mapNotes fun steps => if traced then steps.filterMap Step.record? else []).mapError tell

variable (traced : Bool) (tell : ε → δ)

/-- A run is logged as the settings say. -/
theorem logged_eq_observed (cfg : Settings) (x : Run α) :
    x.logged cfg = x.observed cfg.traceRewrites .malformed := rfl

/-- The outcome of a run that is logged is its outcome, logged or not. -/
theorem outcome_observed (x : Noted Step ε α) :
    (x.observed traced tell).outcome = x.outcome.mapError tell := rfl

/-- A run that is logged ends with its value. -/
theorem outcome_observed_eq_ok {x : Noted Step ε α} {a : α} :
    (x.observed traced tell).outcome = .ok a ↔ x.outcome = .ok a := by
  rw [outcome_observed]
  cases x.outcome <;> simp [Except.mapError]

/-- The records of a run that is traced. -/
theorem notes_observed_true (x : Noted Step ε α) :
    (x.observed true tell).notes = x.notes.filterMap Step.record? := rfl

/-- A run that is not traced leaves no record. -/
theorem notes_observed_false (x : Noted Step ε α) : (x.observed false tell).notes = [] := rfl

/-- A note becomes its record under a trace, and nothing without one. -/
theorem observed_note (s : Step) : (note s : Noted Step ε Unit).observed traced tell =
    ⟨if traced then s.record?.toList else [], .ok ()⟩ := by
  cases traced <;> cases hs : s.record? <;>
    simp [observed, mapNotes, mapError, note, hs, Except.mapError]

/-- The records of two parts are those of the first and then those of the second. -/
theorem observed_bind (x : Noted Step ε α) (f : α → Noted Step ε β) :
    (x >>= f).observed traced tell =
      x.observed traced tell >>= fun a => (f a).observed traced tell := by
  obtain ⟨notes, outcome⟩ := x
  cases outcome with
  | error e => rfl
  | ok a => cases traced <;>
      simp [observed, mapNotes, mapError, bind, andThen, Except.mapError]

/-- An outcome without notes leaves no record. -/
theorem observed_ofExcept (x : Except ε α) :
    (ofExcept x : Noted Step ε α).observed traced tell = ofExcept (x.mapError tell) := by
  cases traced <;> rfl

/-- A value without notes leaves no record. -/
theorem observed_pure (a : α) :
    (pure a : Noted Step ε α).observed traced tell = pure a := by
  cases traced <;> rfl

/-- A failure without notes leaves no record. -/
theorem observed_fail (e : ε) :
    (fail e : Noted Step ε α).observed traced tell = fail (tell e) := by
  cases traced <;> rfl

/-- Errors may be told in two turns after a run. -/
theorem mapError_observed {γ : Type} (g : δ → γ) (x : Noted Step ε α) :
    (x.observed traced tell).mapError g = x.observed traced fun e => g (tell e) := by
  obtain ⟨notes, outcome⟩ := x
  cases outcome <;> rfl

/-- They may be told in another way before it is logged. -/
theorem observed_mapError {γ : Type} (g : γ → ε) (x : Noted Step γ α) :
    (x.mapError g).observed traced tell = x.observed traced fun e => tell (g e) := by
  obtain ⟨notes, outcome⟩ := x
  cases outcome <;> rfl

end Noted

/-! ## The engine as it goes along -/

/-- What ends a run on a stack without a value. -/
inductive Halt where
  /-- The formula is at fault. -/
  | malformed (e : EvalError)
  /-- A step does not find the frames that it needs. -/
  | exhausted
deriving DecidableEq, Repr

namespace Stepwise

/-- A run on a stack, with the records that it has left. -/
abbrev Trail := Noted Record Halt

section Engine

variable (stack : Stack) (traced : Bool)

/-- Takes a step with so many frames free, and leaves its record if it is to be logged. -/
def step (free : Int) (s : Step) : Trail Unit :=
  if free < stack.step traced then Noted.fail .exhausted
  else if traced then ⟨s.record?.toList, .ok ()⟩
  else pure ()

/-- Reads a number. -/
def read (t : Text) : Trail Float := Noted.ofExcept ((readNumber t).mapError .malformed)

/-- Applies every operator of a kind, the first one first. -/
def applyOperator (free : Int) (o : Operator) (t : Text) : Trail Text :=
  match _h : splitAtChar? o.symbol t with
  | none => pure t
  | some (before, after) => do
    let left := operandBefore before
    let right := operandAfter after
    let a ← read left
    let b ← read right
    let result := plainText (o.apply a b)
    step stack traced free (.applied left o right result)
    applyOperator free o (beforeOperand before ++ result ++ afterOperand after)
termination_by t.count o.symbol
decreasing_by
  rw [(eq_of_splitAtChar? _h).1, ← count_step o before after (o.apply a b)]
  exact Nat.lt_succ_self _

/-- Applies the operators of several kinds, one kind after the other. -/
def applyOperators (free : Int) : List Operator → Text → Trail Text
  | [], t => pure t
  | o :: os, t => do
    let t ← applyOperator stack traced free o t
    applyOperators free os t

mutual

/-- The value of a text, `depth` levels inside others and with so many frames free. The depth is
checked before the first step. -/
def reduce (limit depth free : Int) (t : Text) : Trail Float :=
  if limit < depth then Noted.fail (.malformed (.tooDeep limit))
  else do
    step stack traced free (.reducing (dropUnaryPlus t))
    let t ← resolve limit depth free Redex.all (dropUnaryPlus t)
    let t ← applyOperators stack traced free Operator.all (markBinaryMinus t)
    let t := cancelMinusPairs t
    step stack traced free (.returning t)
    read t
termination_by openings t * 16 + 15
decreasing_by
  rw [openings_dropUnaryPlus]
  have : Redex.all.length = 12 := rfl
  omega

/-- Replaces every call and group of the given kinds by its value. While one of them is reduced,
two frames fewer are free. -/
def resolve (limit depth free : Int) (kinds : List Redex) (t : Text) : Trail Text :=
  match kinds with
  | [] => pure t
  | k :: ks =>
    match _h : k.split? t with
    | none => resolve limit depth free ks t
    | some (before, rest) =>
      match _hg : splitGroup rest with
      | .error e => Noted.fail (.malformed e)
      | .ok (inner, after) => do
        let v ← reduce limit (depth + 1) (free - 2) inner
        let result := plainText (k.apply v)
        step stack traced free (.replaced k inner result)
        resolve limit depth free (k :: ks) (before ++ result ++ after)
termination_by openings t * 16 + kinds.length
decreasing_by
  · simp
  · have := openings_of_split _h _hg
    omega
  · have := openings_of_split _h _hg
    have := openings_plainText (k.apply v)
    simp only [openings, List.count_append] at *
    omega

end

end Engine

/-- How an end without a value is told of a formula. -/
def fault : Halt → Fault
  | .malformed e => .malformed e
  | .exhausted => .malformed .pastReach

/-- The value of a formula on a stack that is free. -/
def evaluate (stack : Stack) (cfg : Settings) (f : Formula) (v : Quantity) : Logged Float :=
  (do
    let t ← Noted.ofExcept ((f.prepare cfg v).mapError .malformed)
    reduce stack cfg.traceRewrites cfg.maxNestingDepth 0 stack.room t : Trail Float).mapError fault

/-! ## One step -/

/-- How an error under the lower of two limits is told: as one of the formula if it was met under
the limit that is set, and as exhaustion if the stack had no room for that limit. -/
def told (limit last : Int) : EvalError → Halt
  | .tooDeep n => if limit ≤ last then .malformed (.tooDeep n) else .exhausted
  | e => .malformed e

variable {stack : Stack} {traced : Bool} {limit last depth free : Int}

/-- An error that is not one of depth is told as it is. -/
theorem told_of_ne {e : EvalError} (h : ∀ n, e ≠ .tooDeep n) :
    told limit last e = .malformed e := by
  cases e with
  | tooDeep n => exact absurd rfl (h n)
  | _ => rfl

/-- All errors are told as they are if the limit that is set is the lower one. -/
theorem told_of_le (h : limit ≤ last) : told limit last = .malformed := by
  funext e
  cases e with
  | tooDeep n => exact if_pos h
  | _ => rfl

/-- One level deeper the same levels are left. -/
theorem levels_sub_two (stack : Stack) (traced : Bool) (free : Int) :
    stack.levels traced (free - 2) = stack.levels traced free - 1 := by
  simp only [Stack.levels]
  omega

/-- A step has its frames on the levels that the stack has room for. -/
theorem step_eq (tell : EvalError → Halt) (h : 0 ≤ stack.levels traced free) (s : Step) :
    step stack traced free s = (Noted.note s : Run Unit).observed traced tell := by
  have hfree : ¬ free < stack.step traced := by
    rw [Stack.levels] at h
    omega
  rw [Noted.observed_note, step, if_neg hfree]
  cases traced <;> rfl

/-- A step has no frames below these levels. -/
theorem step_of_levels_neg (h : stack.levels traced free < 0) (s : Step) :
    step stack traced free s = Noted.fail .exhausted := by
  have hfree : free < stack.step traced := by
    rw [Stack.levels] at h
    omega
  rw [step, if_pos hfree]

/-- A number is read or not, and no error of that is one of depth. -/
theorem read_eq (t : Text) :
    read t = (Noted.ofExcept (readNumber t) : Run Float).observed traced (told limit last) := by
  rw [Noted.observed_ofExcept, read]
  cases h : readNumber t with
  | ok v => rfl
  | error e =>
    have hne : ∀ n, e ≠ .tooDeep n :=
      errs_readNumber (P := fun e => ∀ n, e ≠ .tooDeep n) ⟨by simp, by simp⟩ t e h
    change Noted.ofExcept (.error (.malformed e)) = Noted.ofExcept (.error (told limit last e))
    rw [told_of_ne hne]

/-- Without an operator of the kind nothing is applied. -/
theorem applyOperator_of_none {o : Operator} {t : Text} (h : splitAtChar? o.symbol t = none) :
    applyOperator stack traced free o t = pure t := by
  rw [applyOperator]
  split
  · rfl
  · simp_all

/-- The first operator of the kind is applied to the operands next to it, the left one first. -/
theorem applyOperator_of_some {o : Operator} {t before after : Text}
    (h : splitAtChar? o.symbol t = some (before, after)) :
    applyOperator stack traced free o t = (do
      let a ← read (operandBefore before)
      let b ← read (operandAfter after)
      step stack traced free
        (.applied (operandBefore before) o (operandAfter after) (plainText (o.apply a b)))
      applyOperator stack traced free o
        (beforeOperand before ++ plainText (o.apply a b) ++ afterOperand after)) := by
  rw [applyOperator]
  split
  · simp_all
  · next h' =>
    rw [h] at h'
    cases h'
    rfl

/-- Without a call or group of a kind the other kinds are resolved. -/
theorem resolve_of_none {k : Redex} {ks : List Redex} {t : Text} (h : k.split? t = none) :
    resolve stack traced limit depth free (k :: ks) t =
      resolve stack traced limit depth free ks t := by
  rw [resolve]
  split
  · rfl
  · simp_all

/-- A name without a group, or a group that stays open, ends the run. -/
theorem resolve_of_error {k : Redex} {ks : List Redex} {t before rest : Text} {e : EvalError}
    (h : k.split? t = some (before, rest)) (hg : splitGroup rest = .error e) :
    resolve stack traced limit depth free (k :: ks) t = Noted.fail (.malformed e) := by
  rw [resolve]
  split
  · simp_all
  · next h' =>
    rw [h] at h'
    cases h'
    split
    · next hg' =>
      rw [hg] at hg'
      cases hg'
      rfl
    · simp_all

/-- The first call or group of a kind is replaced by its value. -/
theorem resolve_of_ok {k : Redex} {ks : List Redex} {t before rest inner after : Text}
    (h : k.split? t = some (before, rest)) (hg : splitGroup rest = .ok (inner, after)) :
    resolve stack traced limit depth free (k :: ks) t = (do
      let v ← reduce stack traced limit (depth + 1) (free - 2) inner
      step stack traced free (.replaced k inner (plainText (k.apply v)))
      resolve stack traced limit depth free (k :: ks)
        (before ++ plainText (k.apply v) ++ after)) := by
  rw [resolve]
  split
  · simp_all
  · next h' =>
    rw [h] at h'
    cases h'
    split
    · simp_all
    · next hg' =>
      rw [hg] at hg'
      cases hg'
      rfl

/-- A reduction past the limit that is set fails on every stack. -/
theorem reduce_of_lt (h : limit < depth) (t : Text) :
    reduce stack traced limit depth free t = Noted.fail (.malformed (.tooDeep limit)) := by
  rw [reduce, if_pos h]

/-- Within the limit, a reduction below the levels of the stack ends before its first step. -/
theorem reduce_of_levels_neg (h : stack.levels traced free < 0) (hdepth : depth ≤ limit)
    (t : Text) : reduce stack traced limit depth free t = Noted.fail .exhausted := by
  rw [reduce, if_neg (not_lt.2 hdepth), step_of_levels_neg h]
  rfl

/-! ## The two engines -/

/-- The other engine enters a reduction with a note that leaves no record. -/
theorem observed_enter (tell : EvalError → Halt) (f : Unit → Run Float) :
    (Noted.note .enter >>= f).observed traced tell = (f ()).observed traced tell := by
  rw [Noted.observed_bind, Noted.observed_note]
  cases traced <;> rfl

/-- The other engine fails past its limit too, before its first record. -/
theorem observed_reduce_of_lt (tell : EvalError → Halt) (h : limit < depth) (t : Text) :
    (FormulaPlot.reduce limit depth t).observed traced tell =
      Noted.fail (tell (.tooDeep limit)) := by
  rw [FormulaPlot.reduce, observed_enter, if_pos h, Noted.observed_fail]

section Levels

variable (h : 0 ≤ stack.levels traced free)

include h

/-- Where steps have their frames, an operator is applied as by the other engine. -/
theorem applyOperator_eq (o : Operator) (t : Text) :
    applyOperator stack traced free o t =
      (FormulaPlot.applyOperator o t).observed traced (told limit last) := by
  cases hsplit : splitAtChar? o.symbol t with
  | none =>
    rw [applyOperator_of_none hsplit, FormulaPlot.applyOperator_of_none hsplit, Noted.observed_pure]
  | some parts =>
    obtain ⟨before, after⟩ := parts
    have htext := (eq_of_splitAtChar? hsplit).1
    rw [applyOperator_of_some hsplit, FormulaPlot.applyOperator_of_some hsplit,
      Noted.observed_bind, ← read_eq]
    refine bind_congr fun a => ?_
    rw [Noted.observed_bind, ← read_eq]
    refine bind_congr fun b => ?_
    rw [Noted.observed_bind, ← step_eq _ h]
    exact bind_congr fun _ => applyOperator_eq o _
termination_by t.count o.symbol
decreasing_by
  rw [htext, ← count_step o before after (o.apply a b)]
  exact Nat.lt_succ_self _

/-- Where steps have their frames, operators are applied as by the other engine. -/
theorem applyOperators_eq (os : List Operator) (t : Text) :
    applyOperators stack traced free os t =
      (FormulaPlot.applyOperators os t).observed traced (told limit last) := by
  induction os generalizing t with
  | nil => rw [applyOperators, FormulaPlot.applyOperators, Noted.observed_pure]
  | cons o os ih =>
    rw [applyOperators, FormulaPlot.applyOperators, Noted.observed_bind, ← applyOperator_eq h]
    exact bind_congr ih

end Levels

section Reductions

variable {t : Text} (hlast : depth + stack.levels traced free = last)

include hlast

/-- A reduction down to one level below the last is that of the other engine if its calls are. -/
theorem reduce_eq_of_resolve (hdepth : depth ≤ last + 1)
    (h : depth ≤ last → resolve stack traced limit depth free Redex.all (dropUnaryPlus t) =
      (FormulaPlot.resolve (min limit last) depth Redex.all (dropUnaryPlus t)).observed traced
        (told limit last)) :
    reduce stack traced limit depth free t =
      (FormulaPlot.reduce (min limit last) depth t).observed traced (told limit last) := by
  by_cases hlimit : limit < depth
  · -- Both check the depth first, and the limit that is set is the lower one.
    have hle : limit ≤ last := by omega
    rw [reduce_of_lt hlimit, observed_reduce_of_lt _ (by omega), told_of_le hle, min_eq_left hle]
  · by_cases hfits : depth ≤ last
    · have hlevels : 0 ≤ stack.levels traced free := by omega
      rw [reduce, FormulaPlot.reduce, observed_enter, if_neg hlimit, if_neg (by omega),
        Noted.observed_bind, ← step_eq _ hlevels]
      refine bind_congr fun _ => ?_
      rw [Noted.observed_bind, ← h hfits]
      refine bind_congr fun u => ?_
      rw [Noted.observed_bind, ← applyOperators_eq hlevels]
      refine bind_congr fun w => ?_
      rw [Noted.observed_bind, ← step_eq _ hlevels]
      exact bind_congr fun _ => read_eq _
    · -- The first step finds too few frames, and the limit that is set is not the lower one.
      have hlower : ¬ limit ≤ last := by omega
      rw [reduce_of_levels_neg (by omega) (not_lt.1 hlimit), observed_reduce_of_lt _ (by omega),
        told, if_neg hlower]

/-- On the levels that the stack has room for, calls are resolved as by the other engine. -/
theorem resolve_eq (hdepth : depth ≤ last) (kinds : List Redex) (t : Text) :
    resolve stack traced limit depth free kinds t =
      (FormulaPlot.resolve (min limit last) depth kinds t).observed traced (told limit last) := by
  induction depth, kinds, t using resolve_induction generalizing free with
  | nil depth t => rw [resolve, FormulaPlot.resolve, Noted.observed_pure]
  | absent depth k ks t hk ih =>
    rw [resolve_of_none hk, FormulaPlot.resolve_of_none hk]
    exact ih hlast hdepth
  | unclosed depth k ks t before rest e hk hg =>
    rw [resolve_of_error hk hg, FormulaPlot.resolve_of_error hk hg, Noted.observed_fail]
    rcases eq_of_splitGroup_error hg with rfl | rfl <;> rfl
  | call depth k ks t before rest inner after hk hg hinner hrest =>
    -- The inside is one level deeper and finds two frames fewer, so the last level is the same.
    have hdeeper : depth + 1 + stack.levels traced (free - 2) = last := by
      rw [levels_sub_two]
      omega
    rw [resolve_of_ok hk hg, FormulaPlot.resolve_of_ok hk hg, Noted.observed_bind,
      ← reduce_eq_of_resolve hdeeper (by omega) (hinner hdeeper)]
    refine bind_congr fun v => ?_
    rw [Noted.observed_bind, ← step_eq _ (by omega : 0 ≤ stack.levels traced free)]
    exact bind_congr fun _ => hrest (k.apply v) hlast hdepth

/-- A reduction down to one level below the last is that of the other engine under the lower of the
two limits. -/
theorem reduce_eq (hdepth : depth ≤ last + 1) (t : Text) :
    reduce stack traced limit depth free t =
      (FormulaPlot.reduce (min limit last) depth t).observed traced (told limit last) :=
  reduce_eq_of_resolve hlast hdepth fun hfits => resolve_eq hlast hfits Redex.all _

end Reductions

/-- Where the stack has room for the limit that is set, a reduction is that of the other engine. -/
theorem reduce_eq_of_le (h : limit ≤ depth + stack.levels traced free) (t : Text) :
    reduce stack traced limit depth free t =
      (FormulaPlot.reduce limit depth t).observed traced .malformed := by
  by_cases hlevels : 0 ≤ stack.levels traced free
  · rw [reduce_eq rfl (by omega), min_eq_left h, told_of_le h]
  · -- Then the limit is less than the depth.
    have hlt : limit < depth := by omega
    rw [reduce_of_lt hlt, observed_reduce_of_lt _ hlt]

/-- Whatever there is of the stack, a reduction is a run of the other engine under some limit. -/
theorem exists_observed (stack : Stack) (traced : Bool) (limit depth free : Int) (t : Text) :
    ∃ limit' tell, reduce stack traced limit depth free t =
      (FormulaPlot.reduce limit' depth t).observed traced tell := by
  by_cases hlimit : limit ≤ depth + stack.levels traced free
  · exact ⟨limit, .malformed, reduce_eq_of_le hlimit t⟩
  · by_cases hlevels : 0 ≤ stack.levels traced free
    · exact ⟨_, _, reduce_eq rfl (by omega) t⟩
    · by_cases hdepth : limit < depth
      · exact ⟨limit, .malformed, by rw [reduce_of_lt hdepth, observed_reduce_of_lt _ hdepth]⟩
      · refine ⟨depth - 1, fun _ => .exhausted, ?_⟩
        rw [reduce_of_levels_neg (not_le.1 hlevels) (not_lt.1 hdepth),
          observed_reduce_of_lt _ (by omega)]

/-- On the stack of formulas, the value of a formula and the records on the way to it are those of
the engine that is logged when it is done. -/
theorem evaluate_eq (cfg : Settings) (f : Formula) (v : Quantity) :
    evaluate Formula.stack cfg f v = (f.evaluate cfg v).logged cfg := by
  have hreach : 0 ≤ Formula.reach cfg + 1 := by
    rw [Formula.reach]
    cases cfg.traceRewrites <;> decide
  have hlast : 0 + Formula.stack.levels cfg.traceRewrites Formula.stack.room = Formula.reach cfg :=
    zero_add _
  rw [evaluate, Formula.evaluate, Noted.logged_eq_observed]
  cases f.prepare cfg v with
  | error e => cases cfg.traceRewrites <;> rfl
  | ok t =>
    change (reduce Formula.stack cfg.traceRewrites cfg.maxNestingDepth 0 Formula.stack.room
      t).mapError fault = (ite _ _ _ : Run Float).observed cfg.traceRewrites .malformed
    rw [reduce_eq hlast hreach, Noted.mapError_observed]
    -- The lower limit is the one that is set, or else the error of depth is that of the reach.
    split
    next hle =>
      rw [min_eq_left hle, told_of_le hle]
      rfl
    next hle =>
      rw [min_eq_right (by omega), Noted.observed_mapError]
      refine congrArg (fun tell => Noted.observed _ tell _) (funext fun e => ?_)
      cases e with
      | tooDeep n => simp [told, hle, fault]
      | _ => rfl

end Stepwise

end FormulaPlot
