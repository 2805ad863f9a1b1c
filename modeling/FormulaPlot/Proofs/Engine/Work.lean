import FormulaPlot.Proofs.Engine.Induction

/-!
# What a run costs

A run of the engine is bounded by its text, whatever the limit on nesting. It makes at most one
reduction more than the text has opening parentheses, and applies at most as many operators as it
has symbols. A run that ends with a value reaches both bounds. All in all its steps are linear in
the parentheses and signs of the text (`reduce_work`).

`Noted.Takes` is the postcondition that carries the count through a run, with one rule for each way
of putting runs together. Texts of numbers are what the bounds rest on: such a text opens no group,
holds no symbol of an operator and at most one minus.
-/

namespace FormulaPlot

namespace Noted

variable {ν ε α β : Type} {p : ν → Bool} {m n : Nat}

/-- A run leaves at most `n` notes of a kind, and exactly `n` if it ends with a value. -/
def Takes (p : ν → Bool) (n : Nat) (x : Noted ν ε α) : Prop :=
  x.notes.countP p ≤ n ∧ ∀ a, x.outcome = .ok a → x.notes.countP p = n

/-- A value takes nothing. -/
theorem takes_pure (a : α) : Takes p 0 (pure a : Noted ν ε α) := by simp [Takes]

/-- An outcome without notes takes nothing. -/
theorem takes_ofExcept (x : Except ε α) : Takes p 0 (ofExcept x : Noted ν ε α) := by simp [Takes]

/-- A failure takes nothing, which is no more than anything. -/
theorem takes_fail (e : ε) : Takes p n (fail e : Noted ν ε α) := by simp [Takes]

/-- A note takes one if it is of the kind. -/
theorem takes_note (s : ν) : Takes p (p s).toNat (note s : Noted ν ε Unit) := by
  cases h : p s <;> simp [Takes, h]

/-- Two parts take what each of them takes. -/
theorem Takes.bind {x : Noted ν ε α} {f : α → Noted ν ε β} (hx : Takes p m x)
    (hf : ∀ a, x.outcome = .ok a → Takes p n (f a)) : Takes p (m + n) (x >>= f) := by
  cases h : x.outcome with
  | ok a =>
    obtain ⟨hle, heq⟩ := hf a h
    have hm := hx.2 a h
    rw [Takes, notes_bind_of_ok h, List.countP_append, outcome_bind, h]
    refine ⟨by omega, fun b hb => ?_⟩
    rw [hm, heq b hb]
  | error e =>
    have hm := hx.1
    rw [Takes, notes_bind_of_error h, outcome_bind, h]
    refine ⟨by omega, fun b hb => ?_⟩
    cases hb

end Noted

/-! ## Operators -/

/-- The symbols of the operators. -/
def isSymbol (c : Char) : Bool := Operator.all.any fun o => o.symbol = c

/-- Applying an operator keeps the symbols of the others. -/
theorem count_symbol_of_applyOperator {o p : Operator} (hop : o ≠ p) {t u : Text}
    (h : (applyOperator o t).outcome = .ok u) : u.count p.symbol = t.count p.symbol := by
  have hsymbol : o.symbol ≠ p.symbol := by
    revert hop
    cases o <;> cases p <;> decide
  refine applyOperator_invariant (P := fun w => w.count p.symbol = t.count p.symbol) ?_ rfl h
  intro before after a b hcount _ _
  have hzero := count_symbol_plainText p (o.apply a b)
  rw [← hcount]
  refine (countP_step (fun c hc => ?_) (by simpa using hsymbol) before after _).trans ?_
  · rw [beq_eq_false_iff_ne]
    rintro rfl
    rw [isOperandChar_symbol] at hc
    cases hc
  · rw [← List.count, hzero]
    rfl

/-- An operand that is read as a number is more than nothing, so it begins with a character of
operands. -/
theorem exists_head_operandBefore {before : Text} {x : Float}
    (h : readNumber (operandBefore before) = .ok x) :
    ∃ c u, operandBefore before = c :: u ∧ isOperandChar c = true := by
  cases ht : operandBefore before with
  | nil =>
    rw [ht] at h
    cases h
  | cons c u =>
    have hc : c ∈ operandBefore before := by simp [ht]
    rw [operandBefore, List.mem_reverse] at hc
    exact ⟨c, u, rfl, List.mem_takeWhile_imp hc⟩

/-- An operator is applied once for each of its symbols. -/
theorem takes_applyOperator {p : Step → Bool} {b : Bool}
    (hp : ∀ c left o right result, isOperandChar c = true →
      p (.applied (c :: left) o right result) = b) (o : Operator) (t : Text) :
    (applyOperator o t).Takes p (b.toNat * t.count o.symbol) := by
  cases hsplit : splitAtChar? o.symbol t with
  | none =>
    rw [applyOperator_of_none hsplit, List.count_eq_zero.2 (notMem_of_splitAtChar? hsplit)]
    exact Noted.takes_pure t
  | some parts =>
    obtain ⟨before, after⟩ := parts
    have htext := (eq_of_splitAtChar? hsplit).1
    rw [applyOperator_of_some hsplit]
    -- Reading the operands leaves no note, and the splice has one symbol less.
    have hstep (x : Float) := count_step o before after x
    rw [← htext] at hstep
    have hcost : b.toNat * t.count o.symbol =
        0 + (0 + (b.toNat + b.toNat * (t.count o.symbol - 1))) := by
      have := hstep 0
      cases b <;> simp only [Bool.toNat_false, Bool.toNat_true] <;> omega
    rw [hcost]
    refine (Noted.takes_ofExcept _).bind fun x hx => (Noted.takes_ofExcept _).bind fun y _ => ?_
    obtain ⟨c, u, hleft, hc⟩ := exists_head_operandBefore hx
    rw [hleft]
    refine Noted.Takes.bind (hp c u _ _ _ hc ▸ Noted.takes_note _) fun _ _ => ?_
    have hrest := takes_applyOperator hp o
      (beforeOperand before ++ plainText (o.apply x y) ++ afterOperand after)
    have hcount : (beforeOperand before ++ plainText (o.apply x y) ++
        afterOperand after).count o.symbol = t.count o.symbol - 1 := by
      rw [← hstep (o.apply x y), Nat.add_sub_cancel]
    rwa [hcount] at hrest
termination_by t.count o.symbol
decreasing_by
  have := count_step o before after (o.apply x y)
  rw [htext]
  omega

/-- Operators are applied once for each symbol. -/
theorem takes_applyOperators {p : Step → Bool} {b : Bool}
    (hp : ∀ c left o right result, isOperandChar c = true →
      p (.applied (c :: left) o right result) = b) (os : List Operator)
    (hos : os.Nodup) (t : Text) :
    (applyOperators os t).Takes p (b.toNat * (os.map fun o => t.count o.symbol).sum) := by
  induction os generalizing t with
  | nil => exact Noted.takes_pure t
  | cons o os ih =>
    rw [List.nodup_cons] at hos
    rw [applyOperators, List.map_cons, List.sum_cons, Nat.mul_add]
    refine (takes_applyOperator hp o t).bind fun u hu => ?_
    -- Applying one kind keeps the symbols of the others, so their counts are those of the text.
    have hcount : os.map (fun p => t.count p.symbol) = os.map fun p => u.count p.symbol :=
      List.map_congr_left fun q hq =>
        (count_symbol_of_applyOperator (by rintro rfl; exact hos.1 hq) hu).symm
    rw [hcount]
    exact ih hos.2 u

/-- The symbols of a text are those of all operators. -/
theorem countP_isSymbol (t : Text) :
    t.countP isSymbol = (Operator.all.map fun o => t.count o.symbol).sum := by
  induction t with
  | nil => rfl
  | cons c t ih =>
    -- No two operators have the same symbol.
    have hc : (if isSymbol c = true then 1 else 0) =
        (Operator.all.map fun o => if c = o.symbol then 1 else 0).sum := by
      by_cases h : isSymbol c = true
      · obtain ⟨o, -, ho⟩ := List.any_eq_true.1 h
        rw [decide_eq_true_eq] at ho
        subst ho
        cases o <;> decide
      · have hne (o : Operator) : c ≠ o.symbol := by
          rintro rfl
          exact h (List.any_eq_true.2 ⟨o, by cases o <;> decide, by simp⟩)
        simp [h, hne]
    simp only [Operator.all, List.map_cons, List.map_nil, List.sum_cons, List.sum_nil] at hc ih ⊢
    simp only [List.countP_cons, List.count_cons, beq_iff_eq]
    omega

/-! ## Reductions -/

namespace Step

/-- Whether a reduction begins. -/
def isEnter : Step → Bool
  | enter => true
  | _ => false

/-- Whether an operator gives way to its value. -/
def isApplied : Step → Bool
  | applied .. => true
  | _ => false

end Step

/-- A kind of steps that has all reductions or none of them, as `a` tells, all replacements of
calls and groups or none of them, as `b` tells, and no other steps. -/
structure Step.Marks (p : Step → Bool) (a b : Bool) : Prop where
  enter : p .enter = a
  reducing : ∀ t, p (.reducing t) = false
  replaced : ∀ k inner result, p (.replaced k inner result) = b
  applied : ∀ c left o right result, isOperandChar c = true →
    p (.applied (c :: left) o right result) = false
  returning : ∀ t, p (.returning t) = false

/-- The reductions are such a kind. -/
theorem Step.marks_isEnter : Marks isEnter true false :=
  ⟨rfl, fun _ => rfl, fun _ _ _ => rfl, fun _ _ _ _ _ _ => rfl, fun _ => rfl⟩

section Marked

variable {p : Step → Bool} {a b : Bool}

/-- If each parenthesis takes one reduction and one replacement, a reduction takes one reduction
more. -/
theorem takes_reduce_of_resolve (hp : Step.Marks p a b) {limit depth : Int} {t : Text} {n : Nat}
    (h : (resolve limit depth Redex.all (dropUnaryPlus t)).Takes p n) :
    (reduce limit depth t).Takes p (a.toNat + n) := by
  have hnote {s : Step} {c : Bool} (hs : p s = c) :
      (Noted.note s : Run Unit).Takes p c.toNat := by
    rw [← hs]
    exact Noted.takes_note s
  rw [reduce]
  refine (hnote hp.enter).bind fun _ _ => ?_
  split
  · exact Noted.takes_fail _
  · have hops (u : Text) : (applyOperators Operator.all u).Takes p 0 := by
      simpa using takes_applyOperators hp.applied Operator.all (by decide) u
    -- Nothing but the calls adds to the count.
    rw [← Nat.zero_add n]
    refine (hnote (hp.reducing _)).bind fun _ _ => h.bind fun u _ => Noted.Takes.bind (n := 0)
      (hops _) fun w _ => ?_
    exact Noted.Takes.bind (n := 0) (hnote (hp.returning _)) fun _ _ => Noted.takes_ofExcept _

/-- Each parenthesis takes one reduction and one replacement. -/
theorem takes_resolve (hp : Step.Marks p a b) (limit depth : Int) (kinds : List Redex) (t : Text)
    (hkinds : kinds.getLast? = some .group) :
    (resolve limit depth kinds t).Takes p ((a.toNat + b.toNat) * openings t) := by
  induction depth, kinds, t using resolve_induction with
  | nil depth t => cases hkinds
  | absent depth k ks t hk ih =>
    rw [resolve_of_none hk]
    cases ks with
    | nil =>
      -- After the last kind no parenthesis is left.
      obtain rfl : k = .group := by simpa using hkinds
      rw [resolve, openings, List.count_eq_zero.2 (notMem_of_split_group hk)]
      exact Noted.takes_pure t
    | cons k' ks => exact ih (by simpa using hkinds)
  | unclosed depth k ks t before rest e hk hg =>
    rw [resolve_of_error hk hg]
    exact Noted.takes_fail e
  | call depth k ks t before rest inner after hk hg hinner hrest =>
    have hsum : (a.toNat + b.toNat) * openings t =
        a.toNat + (a.toNat + b.toNat) * openings inner +
          (b.toNat + (a.toNat + b.toNat) * (openings before + openings after)) := by
      rw [openings_eq_of_split hk hg]
      ring
    rw [resolve_of_ok hk hg, hsum]
    have hreduce := hinner rfl
    rw [openings_dropUnaryPlus] at hreduce
    refine (takes_reduce_of_resolve hp hreduce).bind fun v _ => ?_
    refine Noted.Takes.bind (hp.replaced k inner _ ▸ Noted.takes_note _) fun _ _ => ?_
    have hsplice := hrest (k.apply v) hkinds
    have hopen : (plainText (k.apply v)).count '(' = 0 := openings_plainText _
    simpa only [openings, List.count_append, hopen, Nat.add_zero] using hsplice

/-- A reduction takes one reduction, and each parenthesis of its text another one and one
replacement. -/
theorem takes_reduce (hp : Step.Marks p a b) (limit depth : Int) (t : Text) :
    (reduce limit depth t).Takes p (a.toNat + (a.toNat + b.toNat) * openings t) := by
  have h := takes_resolve hp limit depth Redex.all (dropUnaryPlus t) (by decide)
  rw [openings_dropUnaryPlus] at h
  exact takes_reduce_of_resolve hp h

end Marked

/-! ## Steps -/

/-- The symbols of operators and the minus. -/
def isSign (c : Char) : Bool := c = '-' || isSymbol c

/-- The number of signs in a text. -/
def signs (t : Text) : Nat := t.countP isSign

/-- The text of a number has at most one sign. -/
theorem IsNumberText.signs_le {t : Text} (h : IsNumberText t) : signs t ≤ 1 := by
  have hdigit {c : Char} (hc : isAsciiDigit c = true) : isSign c = false := by
    have hminus : c ≠ '-' := by rintro rfl; cases hc
    have hsymbol (o : Operator) : o.symbol ≠ c := by
      rintro rfl
      revert hc
      cases o <;> decide
    simp [isSign, isSymbol, hminus, hsymbol]
  have hdigits {u : Text} (hu : IsDigits u) : u.countP isSign = 0 :=
    List.countP_eq_zero.2 fun c hc => by simp [hdigit (hu.2 c hc)]
  have hsigned (s : Bool) {u : Text} (hu : u.countP isSign = 0) :
      (signed s u).countP isSign ≤ 1 := by
    cases s <;> simp [signed, hu, isSign]
  cases h with
  | nan => decide
  | infinite s => exact hsigned s (by decide)
  | finite s hw hf =>
    refine hsigned s ?_
    rw [List.countP_append, List.countP_cons, hdigits hw, hdigits hf]
    rfl

/-- Dropping unary pluses brings no sign. -/
theorem signs_dropUnaryPlus_le (t : Text) : signs (dropUnaryPlus t) ≤ signs t :=
  (sublist_dropUnaryPlus t).countP_le

/-- Marking minuses brings no sign, and symbols are signs. -/
theorem countP_isSymbol_markBinaryMinus_le (t : Text) :
    (markBinaryMinus t).countP isSymbol ≤ signs t := by
  have after (t : Text) (q : Option Char) :
      (markBinaryMinusAfter q t).countP isSymbol ≤ signs t := by
    induction t generalizing q with
    | nil => exact Nat.zero_le _
    | cons c t ih =>
      have hc : (if isSymbol c = true then 1 else 0) ≤ if isSign c = true then 1 else 0 := by
        cases h : isSymbol c <;> simp [isSign, h]
      have ht := ih (some c)
      rw [signs] at ht ⊢
      simp only [markBinaryMinusAfter, List.countP_cons]
      split
      next hminus =>
        subst hminus
        cases t with
        | nil => exact Nat.zero_le _
        | cons d t =>
          -- A marked minus was a sign before.
          rw [List.countP_cons, if_pos (show isSign '-' = true by decide)]
          split_ifs <;> omega
      next =>
        rw [List.countP_cons]
        omega
  exact after t none

/-- The steps of applying all operators. -/
theorem length_notes_applyOperators_le (t : Text) :
    (applyOperators Operator.all t).notes.length ≤ t.countP isSymbol := by
  have h := (takes_applyOperators (p := fun _ => true) (b := true) (fun _ _ _ _ _ _ => rfl)
    Operator.all (by decide) t).1
  rwa [List.countP_true, Bool.toNat_true, Nat.one_mul, ← countP_isSymbol] at h

/-- If the steps of resolving are bounded, so are those of the reduction: its own are three and
those of the operators that are left. -/
theorem length_notes_reduce_le {limit depth : Int} {t : Text} {n : Nat}
    (h : (resolve limit depth Redex.all (dropUnaryPlus t)).notes.length ≤ n)
    (hok : ∀ u, (resolve limit depth Redex.all (dropUnaryPlus t)).outcome = .ok u →
      (resolve limit depth Redex.all (dropUnaryPlus t)).notes.length + signs u ≤ n) :
    (reduce limit depth t).notes.length ≤ n + 3 := by
  -- One step after the other is taken off the run, and at each of them it may end.
  rw [reduce, Noted.notes_bind_of_ok rfl, Noted.notes_note]
  split
  · simp
  rw [Noted.notes_bind_of_ok rfl, Noted.notes_note]
  cases hu : (resolve limit depth Redex.all (dropUnaryPlus t)).outcome with
  | error e =>
    rw [Noted.notes_bind_of_error hu]
    simp only [List.length_append, List.length_singleton]
    omega
  | ok u =>
    have hn := hok u hu
    -- The signs that are left pay for the operators.
    have hops := length_notes_applyOperators_le (markBinaryMinus u)
    have hmark := countP_isSymbol_markBinaryMinus_le u
    rw [Noted.notes_bind_of_ok hu]
    cases hw : (applyOperators Operator.all (markBinaryMinus u)).outcome with
    | error e =>
      rw [Noted.notes_bind_of_error hw]
      simp only [List.length_append, List.length_singleton]
      omega
    | ok w =>
      rw [Noted.notes_bind_of_ok hw, Noted.notes_bind_of_ok rfl, Noted.notes_note,
        Noted.notes_ofExcept]
      simp only [List.length_append, List.length_singleton, List.length_nil]
      omega

/-- The steps of resolving: five for each parenthesis and one for each sign, where the signs that
are left have had no step yet. -/
theorem length_notes_resolve_le (limit depth : Int) (kinds : List Redex) (t : Text) :
    (resolve limit depth kinds t).notes.length ≤ 5 * openings t + signs t ∧
      ∀ u, (resolve limit depth kinds t).outcome = .ok u →
        (resolve limit depth kinds t).notes.length + signs u ≤ 5 * openings t + signs t := by
  induction depth, kinds, t using resolve_induction with
  | nil depth t =>
    rw [resolve]
    refine ⟨by simp, fun u hu => ?_⟩
    cases hu
    simp
  | absent depth k ks t hk ih => rwa [resolve_of_none hk]
  | unclosed depth k ks t before rest e hk hg =>
    rw [resolve_of_error hk hg]
    refine ⟨by simp, fun u hu => ?_⟩
    cases hu
  | call depth k ks t before rest inner after hk hg hinner hrest =>
    -- The parenthesis of the call pays for its reduction and for the sign that its value may have.
    have hopen := openings_eq_of_split hk hg
    have hsigns : signs before + signs inner + signs after ≤ signs t := by
      rw [text_of_split hk hg]
      simp only [signs, List.countP_append, List.countP_cons]
      omega
    have hplus := signs_dropUnaryPlus_le inner
    rw [openings_dropUnaryPlus] at hinner
    have hreduce := length_notes_reduce_le hinner.1 hinner.2
    rw [resolve_of_ok hk hg]
    cases hv : (reduce limit (depth + 1) inner).outcome with
    | error e =>
      rw [Noted.notes_bind_of_error hv, Noted.outcome_bind, hv]
      refine ⟨by omega, fun u hu => ?_⟩
      cases hu
    | ok v =>
      obtain ⟨hle, hok⟩ := hrest (k.apply v)
      -- The value takes the place of the inside, with one sign and no parenthesis.
      have hnumber := (isNumberText_plainText (k.apply v)).signs_le
      have hzero := openings_plainText (k.apply v)
      simp only [openings, signs, List.count_append, List.countP_append] at *
      rw [Noted.notes_bind_of_ok hv, Noted.notes_bind_of_ok rfl, Noted.notes_note,
        Noted.outcome_bind, hv]
      simp only [List.length_append, List.length_singleton]
      refine ⟨by omega, fun u hu => ?_⟩
      have := hok u hu
      omega

/-! ## The work of a run -/

/-- A reduction ends after a number of steps that is linear in the parentheses and signs of its
text, whatever the limit on nesting. It makes at most one reduction and one more for each opening
parenthesis, and exactly as many if it ends with a value. Of the operators of a text at most one is
applied for each symbol, and exactly one for each if that ends well. -/
theorem reduce_work (limit depth : Int) (t s : Text) :
    (reduce limit depth t).notes.length ≤ 5 * openings t + signs t + 3 ∧
      (reduce limit depth t).Takes Step.isEnter (1 + openings t) ∧
      (applyOperators Operator.all s).Takes Step.isApplied (s.countP isSymbol) := by
  have hresolve := length_notes_resolve_le limit depth Redex.all (dropUnaryPlus t)
  have hplus := signs_dropUnaryPlus_le t
  have htakes := takes_reduce Step.marks_isEnter limit depth t
  rw [openings_dropUnaryPlus] at hresolve
  refine ⟨?_, by simpa using htakes, ?_⟩
  · -- The bounds for resolving hold for the text without its unary pluses, which has no more signs.
    refine length_notes_reduce_le (hresolve.1.trans ?_) fun u hu => (hresolve.2 u hu).trans ?_
    all_goals omega
  · have h := takes_applyOperators (p := Step.isApplied) (b := true) (fun _ _ _ _ _ _ => rfl)
      Operator.all (by decide) s
    rwa [Bool.toNat_true, Nat.one_mul, ← countP_isSymbol] at h

end FormulaPlot
