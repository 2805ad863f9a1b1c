import FormulaPlot.Formula.Substitution
import FormulaPlot.Proofs.Engine.Nesting

/-!
# The limit on nesting

A call is reduced one level deeper than the text around it. As its inside is nested one level less,
a run whose nesting fits under the limit is never too deep, and on a text without names the nesting
is also the least that the limit must allow (`reduce_nesting`). The limit has no other effect: a
run that is not too deep takes the same steps under every higher limit (`reduce_of_le`).

`errs_reduce` bounds the errors of a run in general: those of groups, those of numbers, and the
error of depth unless the nesting fits.
-/

namespace FormulaPlot

/-! ## Errors of runs -/

namespace Noted

variable {ν ε α β : Type}

/-- What is true of the error of a run if it has one. -/
def Errs (P : ε → Prop) (x : Noted ν ε α) : Prop := ∀ e, x.outcome = .error e → P e

/-- A value is no error. -/
theorem errs_of_ok {P : ε → Prop} {x : Noted ν ε α} {a : α} (h : x.outcome = .ok a) : x.Errs P := by
  intro e he
  rw [h] at he
  cases he

/-- The error of two parts is that of one of them. -/
theorem Errs.bind {P : ε → Prop} {x : Noted ν ε α} {f : α → Noted ν ε β} (hx : x.Errs P)
    (hf : ∀ a, x.outcome = .ok a → (f a).Errs P) : (x >>= f).Errs P := by
  intro e he
  rw [outcome_bind] at he
  cases h : x.outcome with
  | error e' =>
    rw [h] at he
    obtain rfl := Except.error.inj he
    exact hx _ h
  | ok a =>
    rw [h] at he
    exact hf a h e he

end Noted

/-- What is true of the errors of numbers. -/
structure EvalError.Numeric (P : EvalError → Prop) : Prop where
  missingOperand : ∀ t, P (.missingOperand t)
  invalidNumber : ∀ t, P (.invalidNumber t)

/-- What is true of the errors of groups and of those of numbers. -/
structure EvalError.Common (P : EvalError → Prop) : Prop extends EvalError.Numeric P where
  missingGroup : P .missingGroup
  openGroup : P .openGroup

variable {P : EvalError → Prop}

/-- Reading a number fails as numbers do. -/
theorem errs_readNumber (hP : EvalError.Numeric P) (t : Text) :
    (Noted.ofExcept (readNumber t) : Run Float).Errs P := by
  intro e he
  rw [Noted.outcome_ofExcept, readNumber] at he
  split at he
  · cases he
  · split at he
    · exact Except.error.inj he ▸ hP.missingOperand t
    · exact Except.error.inj he ▸ hP.invalidNumber t

/-- Applying an operator fails as numbers do. -/
theorem errs_applyOperator (hP : EvalError.Numeric P) (o : Operator) (t : Text) :
    (applyOperator o t).Errs P := by
  cases hsplit : splitAtChar? o.symbol t with
  | none =>
    rw [applyOperator_of_none hsplit]
    exact Noted.errs_of_ok rfl
  | some parts =>
    obtain ⟨before, after⟩ := parts
    have htext := (eq_of_splitAtChar? hsplit).1
    rw [applyOperator_of_some hsplit]
    refine (errs_readNumber hP _).bind fun a _ => (errs_readNumber hP _).bind fun b _ => ?_
    exact Noted.Errs.bind (Noted.errs_of_ok rfl) fun _ _ => errs_applyOperator hP o _
termination_by t.count o.symbol
decreasing_by
  rw [htext, ← count_step o before after (o.apply a b)]
  exact Nat.lt_succ_self _

/-- Applying operators fails as numbers do. -/
theorem errs_applyOperators (hP : EvalError.Numeric P) (os : List Operator) (t : Text) :
    (applyOperators os t).Errs P := by
  induction os generalizing t with
  | nil => exact Noted.errs_of_ok rfl
  | cons o os ih => exact (errs_applyOperator hP o t).bind fun u _ => ih u

/-- A reduction fails as its calls do, as numbers do or at its own depth. -/
theorem errs_reduce_of_resolve (hP : EvalError.Numeric P) {limit depth : Int} {t : Text}
    (hdepth : P (.tooDeep limit) ∨ depth ≤ limit)
    (h : (resolve limit depth Redex.all (dropUnaryPlus t)).Errs P) :
    (reduce limit depth t).Errs P := by
  rw [reduce]
  refine Noted.Errs.bind (Noted.errs_of_ok rfl) fun _ _ => ?_
  split
  -- The reduction fails at its own depth.
  next hdeep =>
    intro e he
    obtain rfl := Except.error.inj he
    exact hdepth.resolve_right (not_le.2 hdeep)
  next =>
    refine Noted.Errs.bind (Noted.errs_of_ok rfl) fun _ _ => h.bind fun u _ => ?_
    refine (errs_applyOperators hP _ _).bind fun w _ => ?_
    exact Noted.Errs.bind (Noted.errs_of_ok rfl) fun _ _ => errs_readNumber hP _

/-- Resolving calls fails as groups and numbers do, or at some depth if the nesting does not fit. -/
theorem errs_resolve (hP : EvalError.Common P) {limit : Int} (depth : Int) (kinds : List Redex)
    (t : Text) (h : P (.tooDeep limit) ∨ depth + nest t ≤ limit) :
    (resolve limit depth kinds t).Errs P := by
  induction depth, kinds, t using resolve_induction with
  | nil depth t =>
    rw [resolve]
    exact Noted.errs_of_ok rfl
  | absent depth k ks t hk ih =>
    rw [resolve_of_none hk]
    exact ih h
  | unclosed depth k ks t before rest e hk hg =>
    rw [resolve_of_error hk hg]
    intro e' he
    obtain rfl := Except.error.inj he
    rcases eq_of_splitGroup_error hg with rfl | rfl
    · exact hP.missingGroup
    · exact hP.openGroup
  | call depth k ks t before rest inner after hk hg hinner hrest =>
    -- One level less is left for the inside, and the text with the value is nested no deeper.
    obtain ⟨hin, hout⟩ := nest_of_split hk hg
    have hnonneg := nest_nonneg inner
    rw [nest_dropUnaryPlus] at hinner
    rw [resolve_of_ok hk hg]
    refine (errs_reduce_of_resolve hP.toNumeric (h.imp_right (by omega))
      (hinner (h.imp_right (by omega)))).bind fun v _ => ?_
    refine Noted.Errs.bind (Noted.errs_of_ok rfl) fun _ _ => hrest (k.apply v) (h.imp_right ?_)
    have := hout (k.apply v)
    omega

/-- A reduction fails as groups and numbers do, or at some depth if the nesting does not fit. -/
theorem errs_reduce (hP : EvalError.Common P) {limit depth : Int} {t : Text}
    (h : P (.tooDeep limit) ∨ depth + nest t ≤ limit) : (reduce limit depth t).Errs P := by
  have hnonneg := nest_nonneg t
  refine errs_reduce_of_resolve hP.toNumeric (h.imp_right (by omega)) ?_
  refine errs_resolve hP depth Redex.all _ ?_
  rwa [nest_dropUnaryPlus]

/-- Whether an outcome is that of a run that is too deep. -/
def isTooDeep {α : Type} : Except EvalError α → Bool
  | .ok _ => false
  | .error e => e.code == "TOO_DEEP"

/-- A reduction whose nesting fits is not too deep. -/
theorem isTooDeep_reduce {limit depth : Int} {t : Text} (h : depth + nest t ≤ limit) :
    isTooDeep (reduce limit depth t).outcome = false := by
  have hcommon : EvalError.Common fun e => (e.code == "TOO_DEEP") = false :=
    ⟨⟨fun _ => rfl, fun _ => rfl⟩, rfl, rfl⟩
  have herrs := errs_reduce hcommon (.inr h)
  cases ho : (reduce limit depth t).outcome with
  | ok v => rfl
  | error e => exact herrs e ho

/-! ## The least limit -/

/-- The letters of names that numbers have not. -/
def isReservedLetter (c : Char) : Bool := Phrase.reserved.contains c && !isParen c

/-- The characters of numbers are no letters of names only. -/
theorem isReservedLetter_of_isPlainChar {c : Char} (h : isPlainChar c = true) :
    isReservedLetter c = false := by
  have := Phrase.isInert_of_isPlainChar h
  rw [Phrase.isInert, Bool.not_eq_true'] at this
  rw [isReservedLetter, this, Bool.false_and]

/-- The letters of names are letters. -/
theorem isReservedLetter_of_not_isAsciiLetter {c : Char} (h : isAsciiLetter c = false) :
    isReservedLetter c = false := by
  have hall : Phrase.reserved.all (fun d => isAsciiLetter d || !isReservedLetter d) = true := by
    decide
  by_cases hc : c ∈ Phrase.reserved
  · simpa [h] using List.all_eq_true.1 hall c hc
  · simp [isReservedLetter, hc]

/-- Every name has a letter that numbers have not. -/
theorem exists_reservedLetter (f : Builtin) : ∃ c ∈ f.symbol, isReservedLetter c = true := by
  have h : f.symbol.any isReservedLetter = true := by cases f <;> decide
  simpa using h

/-- A text without letters of names has no calls but groups. -/
theorem eq_group_of_split {k : Redex} {t before rest : Text} (h : k.split? t = some (before, rest))
    (ht : ∀ c ∈ t, isReservedLetter c = false) : k = .group := by
  cases k with
  | group => rfl
  | call f =>
    obtain ⟨c, hc, hletter⟩ := exists_reservedLetter f
    have hmem : c ∈ t := by
      rw [eq_of_splitAt? h]
      simp [hc]
    rw [ht c hmem] at hletter
    cases hletter

/-- A reduction that ends with a value had its own depth and that of its calls allowed. -/
theorem exists_of_reduce {limit depth : Int} {t : Text} {v : Float}
    (h : (reduce limit depth t).outcome = .ok v) :
    depth ≤ limit ∧ ∃ u, (resolve limit depth Redex.all (dropUnaryPlus t)).outcome = .ok u := by
  have hvalue := toOption_reduce limit depth t
  rw [h] at hvalue
  split at hvalue
  next => cases hvalue
  next hdepth =>
    obtain ⟨u, hu, -⟩ := Option.bind_eq_some_iff.1 hvalue.symm
    exact ⟨not_lt.1 hdepth, u, toOption_eq_some.1 hu⟩

/-- If the groups of a text without names are all resolved then its nesting fits under the limit. -/
theorem nest_le_of_resolve {limit : Int} (depth : Int) (kinds : List Redex) (t : Text)
    (hkinds : kinds.getLast? = some .group) (ht : ∀ c ∈ t, isReservedLetter c = false)
    (hdepth : depth ≤ limit) {u : Text} (h : (resolve limit depth kinds t).outcome = .ok u) :
    depth + nest t ≤ limit := by
  induction depth, kinds, t using resolve_induction generalizing u with
  | nil depth t => cases hkinds
  | absent depth k ks t hk ih =>
    rw [resolve_of_none hk] at h
    cases ks with
    | cons k' ks => exact ih (by simpa using hkinds) ht hdepth h
    | nil =>
      -- After the last kind no parenthesis is left.
      obtain rfl : k = .group := by simpa using hkinds
      have hnest : nest t ≤ 0 :=
        nest_le_iff.2 ⟨le_rfl, fun v hv => excess_nonpos fun hc =>
          notMem_of_split_group hk (hv.subset hc)⟩
      omega
  | unclosed depth k ks t before rest e hk hg =>
    rw [resolve_of_error hk hg] at h
    cases h
  | call depth k ks t before rest inner after hk hg hinner hrest =>
    obtain rfl := eq_group_of_split hk ht
    have htext := text_of_split hk hg
    have hbalanced := balanced_of_splitGroup hg
    rw [resolve_of_ok hk hg, Noted.outcome_bind] at h
    cases hv : (reduce limit (depth + 1) inner).outcome with
    | error e => rw [hv] at h; cases h
    | ok v =>
      rw [hv] at h
      obtain ⟨hdeep, w, hw⟩ := exists_of_reduce hv
      -- The inside and what is left of the text both fit, and the text is nested no deeper than
      -- they tell.
      have hin : depth + 1 + nest inner ≤ limit := by
        have hletters : ∀ c ∈ dropUnaryPlus inner, isReservedLetter c = false := fun c hc =>
          ht c (htext ▸ by simp [(sublist_dropUnaryPlus inner).subset hc])
        have := hinner rfl hletters hdeep hw
        rwa [nest_dropUnaryPlus] at this
      have hout : depth + nest (before ++ plainText (Redex.group.apply v) ++ after) ≤ limit := by
        refine hrest _ hkinds (fun c hc => ?_) hdepth h
        simp only [List.mem_append] at hc
        rcases hc with (hc | hc) | hc
        · exact ht c (htext ▸ by simp [hc])
        · exact isReservedLetter_of_isPlainChar (isPlainChar_of_mem_plainText hc)
        · exact ht c (htext ▸ by simp [hc])
      have := nest_le_max (b := after) (notMem_before_of_split_group hk) hbalanced fun c hc =>
        ne_of_mem_plainText (x := Redex.group.apply v) hc
      rw [Redex.word, List.append_nil] at htext
      rw [htext]
      omega

/-- If a text without names is reduced to a number then its nesting fits under the limit. -/
theorem nest_le_of_reduce {limit depth : Int} {t : Text} (ht : ∀ c ∈ t, isReservedLetter c = false)
    {v : Float} (h : (reduce limit depth t).outcome = .ok v) : depth + nest t ≤ limit := by
  obtain ⟨hdepth, u, hu⟩ := exists_of_reduce h
  have := nest_le_of_resolve depth Redex.all _ (by decide)
    (fun c hc => ht c ((sublist_dropUnaryPlus t).subset hc)) hdepth hu
  rwa [nest_dropUnaryPlus] at this

/-! ## Higher limits -/

/-- Two parts of a run that is not too deep are kept if each of them is kept when it is not too
deep. -/
theorem bind_eq_of_not_isTooDeep {α β : Type} {x x' : Run α} {f f' : α → Run β}
    (h : isTooDeep (x >>= f).outcome = false) (hx : isTooDeep x.outcome = false → x' = x)
    (hf : ∀ a, isTooDeep (f a).outcome = false → f' a = f a) : x' >>= f' = x >>= f := by
  rw [Noted.outcome_bind] at h
  obtain ⟨notes, outcome⟩ := x
  cases outcome with
  | error e =>
    -- The first part fails with another error, and then there is no second one.
    rw [hx h]
    rfl
  | ok a =>
    rw [hx rfl]
    have ha := hf a h
    change Noted.mk _ _ = Noted.mk _ _
    rw [ha]

/-- A reduction that is not too deep is the same under a higher limit if its calls are. -/
theorem reduce_eq_of_resolve_eq {limit limit' depth : Int} (hle : limit ≤ limit') {t : Text}
    (h : isTooDeep (reduce limit depth t).outcome = false)
    (hresolve : isTooDeep (resolve limit depth Redex.all (dropUnaryPlus t)).outcome = false →
      resolve limit' depth Redex.all (dropUnaryPlus t) =
        resolve limit depth Redex.all (dropUnaryPlus t)) :
    reduce limit' depth t = reduce limit depth t := by
  rw [reduce] at h
  rw [reduce, reduce]
  refine bind_eq_of_not_isTooDeep h (fun _ => rfl) fun _ h => ?_
  split at h
  next =>
    -- The run fails at its own depth.
    cases h
  next hdepth =>
    rw [if_neg (show ¬ limit' < depth by omega), if_neg hdepth]
    exact bind_eq_of_not_isTooDeep h (fun _ => rfl) fun _ h =>
      bind_eq_of_not_isTooDeep h hresolve fun _ _ => rfl

/-- Calls that are not too deep are resolved in the same way under a higher limit. -/
theorem resolve_of_le {limit limit' : Int} (hle : limit ≤ limit') (depth : Int)
    (kinds : List Redex) (t : Text) (h : isTooDeep (resolve limit depth kinds t).outcome = false) :
    resolve limit' depth kinds t = resolve limit depth kinds t := by
  induction depth, kinds, t using resolve_induction with
  | nil depth t => rw [resolve, resolve]
  | absent depth k ks t hk ih =>
    rw [resolve_of_none hk] at h
    rw [resolve_of_none hk, resolve_of_none hk]
    exact ih h
  | unclosed depth k ks t before rest e hk hg =>
    rw [resolve_of_error hk hg, resolve_of_error hk hg]
  | call depth k ks t before rest inner after hk hg hinner hrest =>
    rw [resolve_of_ok hk hg] at h
    rw [resolve_of_ok hk hg, resolve_of_ok hk hg]
    refine bind_eq_of_not_isTooDeep h (fun h => reduce_eq_of_resolve_eq hle h hinner) fun v h => ?_
    exact bind_eq_of_not_isTooDeep h (fun _ => rfl) fun _ h => hrest (k.apply v) h

/-- A run that is not too deep takes the same steps to the same end under every higher limit. -/
theorem reduce_of_le {limit limit' : Int} (hle : limit ≤ limit') {depth : Int} {t : Text}
    (h : isTooDeep (reduce limit depth t).outcome = false) :
    reduce limit' depth t = reduce limit depth t :=
  reduce_eq_of_resolve_eq hle h (resolve_of_le hle depth Redex.all (dropUnaryPlus t))

/-- A text without names that some limit allows is too deep under every limit that its nesting is
past. -/
theorem isTooDeep_of_lt {limit limit' depth : Int} {t : Text}
    (ht : ∀ c ∈ t, isReservedLetter c = false) {v : Float}
    (hv : (reduce limit' depth t).outcome = .ok v) (h : limit < depth + nest t) :
    isTooDeep (reduce limit depth t).outcome = true := by
  have hle : limit ≤ limit' := by
    have := nest_le_of_reduce ht hv
    omega
  by_contra hdeep
  -- Otherwise it has its value under the lower limit too, which then allows its nesting.
  rw [reduce_of_le hle (Bool.eq_false_of_not_eq_true hdeep)] at hv
  have := nest_le_of_reduce ht hv
  omega

/-! ## What the limit does -/

/-- The limit on nesting. A reduction whose depth and nesting fit under it together is not too deep.
If a text without letters is reduced to a number then they did fit. And where a reduction is not too
deep, whether it ends with a number or fails otherwise, it is the same under every higher limit. -/
theorem reduce_nesting (limit depth : Int) (t : Text) :
    (depth + nest t ≤ limit → isTooDeep (reduce limit depth t).outcome = false) ∧
      ((∀ c ∈ t, isAsciiLetter c = false) → ∀ v, (reduce limit depth t).outcome = .ok v →
        depth + nest t ≤ limit) ∧
      (isTooDeep (reduce limit depth t).outcome = false → ∀ limit', limit ≤ limit' →
        reduce limit' depth t = reduce limit depth t) := by
  refine ⟨isTooDeep_reduce, fun hletters v hv => ?_, fun h limit' hle => reduce_of_le hle h⟩
  -- A text without letters has none of those of names.
  exact nest_le_of_reduce (fun c hc => isReservedLetter_of_not_isAsciiLetter (hletters c hc)) hv

/-- Groups nested twice fit under a limit of two, and higher limits change nothing. -/
theorem reduce_nesting_groups :
    0 + nest "(1+(2))*(3)".toList ≤ 2 ∧
      (∀ c ∈ "(1+(2))*(3)".toList, isAsciiLetter c = false) ∧
      (reduce 2 0 "(1+(2))*(3)".toList).outcome = .ok (Float.ofBits 0x4022000000000000) ∧
      isTooDeep (reduce 2 0 "(1+(2))*(3)".toList).outcome = false ∧
      reduce 64 0 "(1+(2))*(3)".toList = reduce 2 0 "(1+(2))*(3)".toList := by
  have hnest : 0 + nest "(1+(2))*(3)".toList ≤ 2 := by decide +kernel
  have hall : "(1+(2))*(3)".toList.all (fun c => !isAsciiLetter c) = true := by decide
  have hletters : ∀ c ∈ "(1+(2))*(3)".toList, isAsciiLetter c = false := fun c hc =>
    Bool.not_eq_true' _ ▸ List.all_eq_true.1 hall c hc
  have hvalue : (reduce 2 0 "(1+(2))*(3)".toList).outcome =
      .ok (Float.ofBits 0x4022000000000000) := by decide +kernel
  obtain ⟨hfits, hleast, hhigher⟩ := reduce_nesting 2 0 "(1+(2))*(3)".toList
  exact ⟨hleast hletters _ hvalue, hletters, hvalue, hfits hnest,
    hhigher (hfits hnest) 64 (by decide)⟩

end FormulaPlot
