import FormulaPlot.Proofs.Engine.Limit
import FormulaPlot.Proofs.Formula.Evaluate
import FormulaPlot.Proofs.Position.Scan

/-!
# The engine by position

The engine is told here by the positions of a text, with loops that go on for as long as there is
something to replace. So it may slip in every one of its operations. `reduceAt_eq` shows that it
does not: it ends as the recursion on lists does, with the same value or for the same cause. The
causes are those of `errs_reduce`, and each has one of five codes (`evaluateAt_ends`).

That the loops end is a part of telling them. A turn puts a number in the place of what is between
two positions, and these are where the operations have found them: an operator and its operands
(`operands_of_positions`), or a call (`call_of_positions`).
-/

namespace FormulaPlot.Position

/-! ## Slices -/

/-- The characters from one position to another. -/
def slice (t : Text) (start stop : Nat) : Text := (t.take stop).drop start

/-- The characters between two pieces of text. -/
theorem slice_append (u v w : Text) : slice (u ++ v ++ w) u.length (u.length + v.length) = v := by
  rw [slice, ← List.length_append, List.take_left, List.drop_left]

/-- What is before and after the operands of an operator, and the operands themselves, by
position. -/
theorem slices_of_operator (u left : Text) (s : Char) (right v : Text) :
    slice (u ++ left ++ s :: (right ++ v)) u.length (u ++ left).length = left ∧
      slice (u ++ left ++ s :: (right ++ v)) ((u ++ left).length + 1)
        ((u ++ left).length + 1 + right.length) = right ∧
      (u ++ left ++ s :: (right ++ v)).take u.length = u ∧
      (u ++ left ++ s :: (right ++ v)).drop ((u ++ left).length + 1 + right.length) = v := by
  have htext : u ++ left ++ s :: (right ++ v) = u ++ left ++ [s] ++ right ++ v := by simp
  have hlength : (u ++ left ++ [s]).length = (u ++ left).length + 1 := List.length_append
  rw [htext, ← hlength]
  refine ⟨?_, slice_append _ right v, ?_, ?_⟩
  · simpa using slice_append u left ([s] ++ right ++ v)
  · simp
  · rw [← List.length_append, List.drop_left]

/-! ## Operators -/

/-- A character that stands in a text is found there. -/
theorem exists_splitAtChar? {c : Char} {t : Text} (h : [c] <:+: t) :
    ∃ before after, splitAtChar? c t = some (before, after) := by
  cases hsplit : splitAtChar? c t with
  | none => exact absurd h (splitAt?_eq_none_iff.1 (splitAtChar?_eq c t ▸ hsplit))
  | some parts => exact ⟨parts.1, parts.2, rfl⟩

/-- The positions of an operator and of the ends of its operands, and what is between them. -/
theorem positions_of_operator {o : Operator} {t before after : Text}
    (h : splitAtChar? o.symbol t = some (before, after)) :
    find [o.symbol] t = pure before.length ∧
      operandStart t before.length = pure (beforeOperand before).length ∧
      operandEnd t (before.length + 1) =
        pure (before.length + 1 + (operandAfter after).length) ∧
      slice t (beforeOperand before).length before.length = operandBefore before ∧
      slice t (before.length + 1) (before.length + 1 + (operandAfter after).length) =
        operandAfter after ∧
      t.take (beforeOperand before).length = beforeOperand before ∧
      t.drop (before.length + 1 + (operandAfter after).length) = afterOperand after := by
  have htext := (eq_of_splitAtChar? h).1
  have hslices := slices_of_operator (beforeOperand before) (operandBefore before) o.symbol
    (operandAfter after) (afterOperand after)
  rw [beforeOperand_append_operandBefore, operandAfter_append_afterOperand, ← htext] at hslices
  refine ⟨find_of_splitAt? (splitAtChar?_eq o.symbol t ▸ h), ?_, ?_, hslices⟩
  · rw [htext]
    exact operandStart_eq before (o.symbol :: after)
  · have := operandEnd_eq (before ++ [o.symbol]) after
    rwa [List.append_assoc, List.singleton_append, ← htext, List.length_append,
      List.length_singleton] at this

/-- Where an operator and the ends of its operands are found, a number in the place of what is
between them takes an operator away. -/
theorem operands_of_positions {o : Operator} {t : Text} (hin : [o.symbol] <:+: t)
    {i start stop : Nat} (hi : find [o.symbol] t = pure i) (hstart : operandStart t i = pure start)
    (hstop : operandEnd t (i + 1) = pure stop) (x : Float) :
    (t.take start ++ plainText x ++ t.drop stop).count o.symbol < t.count o.symbol := by
  -- The operations find the same positions as the search on lists, where the count goes down.
  obtain ⟨before, after, hsplit⟩ := exists_splitAtChar? hin
  obtain ⟨hfind, hleft, hright, -, -, hbefore, hafter⟩ := positions_of_operator hsplit
  obtain rfl := pure_inj (hi.symm.trans hfind)
  obtain rfl := pure_inj (hstart.symm.trans hleft)
  obtain rfl := pure_inj (hstop.symm.trans hright)
  rw [hbefore, hafter, (eq_of_splitAtChar? hsplit).1, ← count_step o before after x]
  exact Nat.lt_succ_self _

/-- Applies the operators of a kind for as long as there is one. -/
def applyAt (o : Operator) (t : Text) : Attempt Text :=
  if _hin : [o.symbol] <:+: t then do
    let i ← attach (find [o.symbol] t)
    let start ← attach (operandStart t i)
    let stop ← attach (operandEnd t (i + 1))
    let a ← read (slice t start i)
    let b ← read (slice t (i + 1) stop)
    applyAt o (t.take start ++ plainText (o.apply a b) ++ t.drop stop)
  else pure t
termination_by t.count o.symbol
decreasing_by exact operands_of_positions _hin i.2 start.2 stop.2 _

/-- Applies the operators of several kinds, one kind after the other. -/
def applyAllAt : List Operator → Text → Attempt Text
  | [], t => pure t
  | o :: os, t => do
    let t ← applyAt o t
    applyAllAt os t

/-- The end of two parts of a run is that of the second after the first. -/
theorem ending_outcome_bind {α β : Type} (x : Run α) (f : α → Run β) :
    ending (x >>= f).outcome = ending x.outcome >>= fun a => ending (f a).outcome := by
  rw [Noted.outcome_bind, ending_bind]

/-- Applying operators by position ends as applying them on lists does. -/
theorem applyAt_eq (o : Operator) (t : Text) :
    applyAt o t = ending (applyOperator o t).outcome := by
  rw [applyAt]
  cases hsplit : splitAtChar? o.symbol t with
  | none =>
    have habsent := splitAt?_eq_none_iff.1 (splitAtChar?_eq o.symbol t ▸ hsplit)
    rw [dif_neg habsent, applyOperator_of_none hsplit]
    rfl
  | some parts =>
    obtain ⟨before, after⟩ := parts
    have htext := (eq_of_splitAtChar? hsplit).1
    have hin : [o.symbol] <:+: t := ⟨before, after, by rw [htext]; simp⟩
    obtain ⟨hfind, hstart, hstop, hleft, hright, hbefore, hafter⟩ := positions_of_operator hsplit
    -- Each operation has its value, so the turn is that on lists up to reading the operands.
    rw [dif_pos hin, attach_bind hfind, attach_bind hstart, attach_bind hstop, hleft, hright,
      hbefore, hafter, applyOperator_of_some hsplit]
    simp only [read_eq, ending_outcome_bind, Noted.outcome_ofExcept]
    congr 1
    funext a
    congr 1
    funext b
    exact applyAt_eq o _
termination_by t.count o.symbol
decreasing_by
  rw [htext, ← count_step o before after (o.apply a b)]
  exact Nat.lt_succ_self _

/-- Applying operators of several kinds by position ends as applying them on lists does. -/
theorem applyAllAt_eq (os : List Operator) (t : Text) :
    applyAllAt os t = ending (applyOperators os t).outcome := by
  induction os generalizing t with
  | nil => rfl
  | cons o os ih =>
    rw [applyAllAt, applyOperators, applyAt_eq, ending_outcome_bind]
    congr 1
    funext u
    exact ih u

/-! ## Calls -/

/-- The word that a kind of call is found by. -/
def needle : Redex → Text
  | .call f => f.symbol
  | .group => ['(']

/-- A kind is found by its word where the search on lists finds it. -/
theorem find_needle {k : Redex} {t before rest : Text} (h : k.split? t = some (before, rest)) :
    needle k <:+: t ∧ find (needle k) t = pure before.length := by
  -- A call is found by its word, and a group by the parenthesis that opens it.
  have hword : ∃ after, splitAt? (needle k) t = some (before, after) := by
    cases k with
    | call f => exact ⟨rest, h⟩
    | group =>
      obtain ⟨⟨b, a⟩, hb, he⟩ := Option.map_eq_some_iff.1 h
      obtain ⟨rfl, -⟩ : b = before ∧ '(' :: a = rest := by simpa using he
      exact ⟨a, splitAtChar?_eq '(' t ▸ hb⟩
  obtain ⟨after, hword⟩ := hword
  exact ⟨⟨before, after, (eq_of_splitAt? hword).symm⟩, find_of_splitAt? hword⟩

/-- A kind that the search on lists does not find is not in the text. -/
theorem not_isInfix_needle {k : Redex} {t : Text} (h : k.split? t = none) : ¬ needle k <:+: t := by
  cases k with
  | call f => exact splitAt?_eq_none_iff.1 h
  | group =>
    exact splitAt?_eq_none_iff.1 (splitAtChar?_eq '(' t ▸ Option.map_eq_none_iff.1 h)

/-- The position where a call ends, and what is between its parentheses and around it. -/
theorem positions_of_call {k : Redex} {t before rest inner after : Text}
    (h : k.split? t = some (before, rest)) (hg : splitGroup rest = .ok (inner, after)) :
    groupEnd t (before.length + k.word.length) =
        .ok (before.length + k.word.length + 1 + inner.length) ∧
      slice t (before.length + k.word.length + 1)
        (before.length + k.word.length + 1 + inner.length) = inner ∧
      t.take before.length = before ∧
      t.drop (before.length + k.word.length + 1 + inner.length + 1) = after := by
  have htext := text_of_split h hg
  rw [← List.length_append]
  refine ⟨?_, ?_, ?_, ?_⟩
  · rw [groupEnd, Phrase.eq_of_split? h, List.drop_left, hg]
    rfl
  · have := slice_append (before ++ k.word ++ ['(']) inner (')' :: after)
    rwa [List.length_append, List.length_singleton, List.append_assoc (before ++ k.word),
      List.singleton_append, ← htext] at this
  · rw [htext, List.append_assoc, List.append_assoc, List.take_left]
  · have hall : t = before ++ k.word ++ '(' :: inner ++ [')'] ++ after := by
      rw [htext]
      simp
    have hlength : (before ++ k.word ++ '(' :: inner ++ [')']).length =
        (before ++ k.word).length + 1 + inner.length + 1 := by
      simp
      omega
    rw [hall, ← hlength, List.drop_left]

/-- Where a kind and the end of a group after its name are found, there is a call. -/
theorem call_of_positions {k : Redex} {t : Text} (hin : needle k <:+: t) {start closing : Nat}
    (hstart : find (needle k) t = pure start)
    (hclosing : findGroupEnd t (start + k.word.length) = pure closing) :
    openings (t.take start) + openings (slice t (start + k.word.length + 1) closing) +
      openings (t.drop (closing + 1)) + 1 ≤ openings t := by
  cases hsplit : k.split? t with
  | none => exact absurd hin (not_isInfix_needle hsplit)
  | some parts =>
    obtain ⟨before, rest⟩ := parts
    -- The word is where the search on lists finds it, and the rest starts after it.
    obtain rfl := pure_inj (hstart.symm.trans (find_needle hsplit).2)
    have hdrop : t.drop (before.length + k.word.length) = rest := by
      rw [Phrase.eq_of_split? hsplit, ← List.length_append, List.drop_left]
    rw [findGroupEnd_eq, groupEnd, hdrop] at hclosing
    -- An end has been found, so there is a group after the word.
    cases hg : splitGroup rest with
    | error e => rw [hg] at hclosing; cases hclosing
    | ok parts =>
      obtain ⟨inner, after⟩ := parts
      rw [hg] at hclosing
      obtain rfl : before.length + k.word.length + 1 + inner.length = closing :=
        Except.ok.inj hclosing
      obtain ⟨-, hinner, hbefore, hafter⟩ := positions_of_call hsplit hg
      rw [hinner, hbefore, hafter]
      exact openings_of_split hsplit hg

/-! ## Reductions -/

mutual

/-- The value of a text, `depth` levels inside others. -/
def reduceAt (limit depth : Int) (t : Text) : Attempt Float :=
  if limit < depth then throw (.malformed (.tooDeep limit))
  else do
    let u ← attach (stripUnaryPlus t)
    let u ← resolveAt limit depth Redex.all u
    let u ← markMinus u
    let u ← applyAllAt Operator.all u
    read (cancelMinusPairs u)
termination_by openings t * 16 + 15
decreasing_by
  have hstrip : u.1 = dropUnaryPlus t := pure_inj (u.2.symm.trans (stripUnaryPlus_eq t))
  have : Redex.all.length = 12 := rfl
  rw [hstrip, openings_dropUnaryPlus]
  omega

/-- Replaces the calls of the first of several kinds for as long as there is one, and then those of
the others. -/
def resolveAt (limit depth : Int) (kinds : List Redex) (t : Text) : Attempt Text :=
  match kinds with
  | [] => pure t
  | k :: ks =>
    if _hin : needle k <:+: t then do
      let start ← attach (find (needle k) t)
      let closing ← attach (findGroupEnd t (start + k.word.length))
      let v ← reduceAt limit (depth + 1) (slice t (start + k.word.length + 1) closing)
      resolveAt limit depth (k :: ks)
        (t.take start ++ plainText (k.apply v) ++ t.drop (closing + 1))
    else resolveAt limit depth ks t
termination_by openings t * 16 + kinds.length
decreasing_by
  · have := call_of_positions _hin start.2 closing.2
    omega
  · have := call_of_positions _hin start.2 closing.2
    have := openings_plainText (k.apply v)
    simp only [openings, List.count_append] at *
    omega
  · simp

end

/-- A reduction by position ends as the one on lists does if its calls do. -/
theorem reduceAt_eq_of_resolveAt {limit depth : Int} {t : Text}
    (h : resolveAt limit depth Redex.all (dropUnaryPlus t) =
      ending (resolve limit depth Redex.all (dropUnaryPlus t)).outcome) :
    reduceAt limit depth t = ending (reduce limit depth t).outcome := by
  rw [reduceAt, reduce, ending_outcome_bind]
  change _ = ending (ite _ _ _ : Run Float).outcome
  split
  next => rfl
  next =>
    -- The stages are the same one by one, and those before the calls do not slip.
    rw [attach_bind (stripUnaryPlus_eq t), h, ending_outcome_bind]
    change _ = ending (_ >>= _ : Run Float).outcome
    rw [ending_outcome_bind]
    congr 1
    funext u
    rw [markMinus_eq, pure_bind, applyAllAt_eq, ending_outcome_bind]
    congr 1
    funext w
    exact read_eq _

/-- Resolving calls by position ends as resolving them on lists does. -/
theorem resolveAt_eq (limit depth : Int) (kinds : List Redex) (t : Text) :
    resolveAt limit depth kinds t = ending (resolve limit depth kinds t).outcome := by
  induction depth, kinds, t using resolve_induction with
  | nil depth t => rw [resolveAt, resolve]; rfl
  | absent depth k ks t hk ih =>
    rw [resolveAt, dif_neg (not_isInfix_needle hk), resolve_of_none hk]
    exact ih
  | unclosed depth k ks t before rest e hk hg =>
    obtain ⟨hin, hfind⟩ := find_needle hk
    have hdrop : t.drop (before.length + k.word.length) = rest := by
      rw [Phrase.eq_of_split? hk, ← List.length_append, List.drop_left]
    -- The end of the group is missing for both, and for the same cause.
    have hclosing : findGroupEnd t (before.length + k.word.length) = throw (.malformed e) := by
      rw [findGroupEnd_eq, groupEnd, hdrop, hg]
      rfl
    rw [resolveAt, dif_pos hin, attach_bind hfind, attach_bind_error hclosing,
      resolve_of_error hk hg]
    rfl
  | call depth k ks t before rest inner after hk hg hinner hrest =>
    obtain ⟨hin, hfind⟩ := find_needle hk
    obtain ⟨hend, hslice, hbefore, hafter⟩ := positions_of_call hk hg
    -- Both find the same end, so the inside and the text that goes on are the same.
    have hclosing :=
      (findGroupEnd_eq t (before.length + k.word.length)).trans (congrArg ending hend)
    rw [resolveAt, dif_pos hin, attach_bind hfind, attach_bind hclosing, hslice,
      reduceAt_eq_of_resolveAt hinner, resolve_of_ok hk hg, ending_outcome_bind, hbefore, hafter]
    congr 1
    funext v
    exact hrest (k.apply v)

/-- A reduction by position never slips and always ends: with the value that the one on lists has,
or for the same cause. -/
theorem reduceAt_eq (limit depth : Int) (t : Text) :
    reduceAt limit depth t = ending (reduce limit depth t).outcome :=
  reduceAt_eq_of_resolveAt (resolveAt_eq limit depth Redex.all _)

/-! ## Formulas -/

/-- The value of a formula for a value of its variable. -/
def evaluateAt (cfg : Settings) (f : Formula) (x : Float) : Attempt Float := do
  let t ← ending (normalize cfg.maxInputLength f.text.toList)
  reduceAt cfg.maxNestingDepth 0 (substitute t f.unknown (plainText x))

/-- The codes of the errors of formulas. -/
def codes : List String :=
  ["UNBALANCED_PARENTHESES", "MISSING_OPERAND", "INVALID_NUMBER", "TOO_DEEP", "TOO_LONG"]

/-- The errors of groups and of numbers have codes of formulas. -/
theorem common_codes : EvalError.Common fun e => e.code ∈ codes :=
  ⟨⟨fun _ => by simp [EvalError.code, codes], fun _ => by simp [EvalError.code, codes]⟩,
    by decide, by decide⟩

/-- The error of a formula has one of the five codes. -/
theorem code_of_evaluate {cfg : Settings} {f : Formula} {x : Float} {e : EvalError}
    (h : (f.evaluate cfg (.real x)).outcome = .error e) : e.code ∈ codes := by
  have hcodes (limit : Int) (t : Text) : (reduce limit 0 t).Errs fun e => e.code ∈ codes :=
    errs_reduce common_codes (.inl (by simp [EvalError.code, codes]))
  rw [Formula.evaluate, Noted.outcome_bind, Noted.outcome_ofExcept, Formula.prepare_real] at h
  cases hn : normalize cfg.maxInputLength f.text.toList with
  | error e' =>
    rw [hn] at h
    obtain rfl := Except.error.inj h
    -- The only error before the reduction is that the text is too long.
    rw [normalize] at hn
    -- If the limit is beyond what the engine follows, the reduction stops at its reach.
    split at hn
    · obtain rfl := Except.error.inj hn
      simp [EvalError.code, codes]
    · cases hn
  | ok t =>
    rw [hn] at h
    change (ite _ _ _ : Run Float).outcome = _ at h
    split at h
    · exact hcodes _ _ e h
    · cases ho : (reduce (Formula.reach cfg) 0 (substitute t f.unknown (plainText x))).outcome with
      | ok v =>
        rw [Noted.mapError, ho] at h
        cases h
      | error e' =>
        rw [Noted.mapError, ho] at h
        obtain rfl := Except.error.inj h
        -- The error at the reach is one of depth again, and all others stay as they are.
        cases e' with
        | tooDeep limit => simp [EvalError.code, codes]
        | _ => exact hcodes _ _ _ ho

/-- A formula has a value, or none for a cause with one of five codes. The engine by position, where
the limit on nesting is one that it can follow, ends in just this way: it searches no word that is
not there, looks at no position outside of a text, and hands nothing to the reader of numerals that
is none. -/
theorem evaluateAt_ends (cfg : Settings) (f : Formula) (x : Float)
    (hreach : cfg.maxNestingDepth ≤ Formula.reach cfg) :
    ((∃ v, (f.evaluate cfg (.real x)).outcome = .ok v) ∨
        ∃ e, (f.evaluate cfg (.real x)).outcome = .error e ∧ e.code ∈ codes) ∧
      evaluateAt cfg f x = ending (f.evaluate cfg (.real x)).outcome := by
  refine ⟨?_, ?_⟩
  · cases h : (f.evaluate cfg (.real x)).outcome with
    | ok v => exact .inl ⟨v, rfl⟩
    | error e => exact .inr ⟨e, rfl, code_of_evaluate h⟩
  · rw [evaluateAt, Formula.evaluate, ending_outcome_bind, Noted.outcome_ofExcept,
      Formula.prepare_real]
    simp only [if_pos hreach]
    cases normalize cfg.maxInputLength f.text.toList with
    | error e => rfl
    | ok t => exact reduceAt_eq cfg.maxNestingDepth 0 _

/-- A product with a group ends with its value, and one without its second operand for the cause
that it is missing. -/
theorem evaluateAt_ends_product :
    ({} : Settings).maxNestingDepth ≤ Formula.reach {} ∧
      evaluateAt {} ⟨"2*(x+1)", 'x'⟩ (Float.ofBits 0x4008000000000000) =
        pure (Float.ofBits 0x4020000000000000) ∧
      evaluateAt {} ⟨"2*", 'x'⟩ (Float.ofBits 0x4008000000000000) =
        throw (.malformed (.missingOperand [])) := by
  have hreach : ({} : Settings).maxNestingDepth ≤ Formula.reach {} := by decide
  have hvalue : (Formula.evaluate {} ⟨"2*(x+1)", 'x'⟩
      (.real (Float.ofBits 0x4008000000000000))).outcome =
        .ok (Float.ofBits 0x4020000000000000) := by decide +kernel
  have herror : (Formula.evaluate {} ⟨"2*", 'x'⟩
      (.real (Float.ofBits 0x4008000000000000))).outcome = .error (.missingOperand []) := by
    decide +kernel
  refine ⟨hreach, ?_, ?_⟩
  · rw [(evaluateAt_ends {} ⟨"2*(x+1)", 'x'⟩ _ hreach).2, hvalue]
    rfl
  · rw [(evaluateAt_ends {} ⟨"2*", 'x'⟩ _ hreach).2, herror]
    rfl

end FormulaPlot.Position
