import FormulaPlot.Proofs.Engine.Limit
import FormulaPlot.Proofs.Operator.Level

/-!
# Draining operators

`drain` is what the engine's rewriting of operators comes to on the numbers themselves: as long as
there is an operator, the leftmost one of the first kind that is left is applied to the numbers
next to it. `applyOperators_drain` shows that the engine does this on the text of the numbers, as
long as it can read what it wrote. The value of an operator may be infinite or NaN only if it is the
last one. Otherwise it is missing next to the operator that needs it.

A step of `drain` does not change the levels of the numbers (`levels_eq_of_next`), so the result
comes from what the engine does with levels (`Operand.applyOperators_joined`).
-/

namespace FormulaPlot

/-! ## The numbers -/

/-- Applies the leftmost operator of a kind to the numbers next to it. What is left is the value of
the operator, and all numbers with this value among them. -/
def applyFirst? (o : Operator) :
    Float → List (Operator × Float) → Option (Float × Float × List (Operator × Float))
  | _, [] => none
  | a, (p, b) :: rest =>
    if p = o then some (o.apply a b, o.apply a b, rest)
    else (applyFirst? o b rest).map fun (c, b', rest') => (c, a, (p, b') :: rest')

/-- Applies the leftmost operator of the first kind that is left. -/
def applyNext? (a : Float) (rest : List (Operator × Float)) :
    Option (Float × Float × List (Operator × Float)) :=
  Operator.all.findSome? fun o => applyFirst? o a rest

/-- How the leftmost operator of a kind is applied. -/
inductive First (o : Operator) :
    Float → List (Operator × Float) → Float → Float → List (Operator × Float) → Prop
  | here (a b : Float) (rest : List (Operator × Float)) :
    First o a ((o, b) :: rest) (o.apply a b) (o.apply a b) rest
  | there {p : Operator} {a b c b' : Float} {rest rest' : List (Operator × Float)} (hp : p ≠ o)
    (h : First o b rest c b' rest') : First o a ((p, b) :: rest) c a ((p, b') :: rest')

/-- What `applyFirst?` does. -/
theorem first_of_applyFirst? {o : Operator} {a b c : Float} {rest rest' : List (Operator × Float)}
    (h : applyFirst? o a rest = some (c, b, rest')) : First o a rest c b rest' := by
  induction rest generalizing a b rest' with
  | nil => cases h
  | cons x rest ih =>
    obtain ⟨p, d⟩ := x
    rw [applyFirst?] at h
    split at h
    next hp =>
      cases h
      exact hp ▸ .here a d rest
    next hp =>
      obtain ⟨⟨c', b', rest''⟩, hfirst, he⟩ := Option.map_eq_some_iff.1 h
      cases he
      exact .there hp (ih hfirst)

/-- An operator of a kind is found unless there is none. -/
theorem notMem_of_applyFirst? {o : Operator} {a : Float} {rest : List (Operator × Float)}
    (h : applyFirst? o a rest = none) : o ∉ rest.map Prod.fst := by
  induction rest generalizing a with
  | nil => exact List.not_mem_nil
  | cons x rest ih =>
    rw [applyFirst?] at h
    split at h
    · cases h
    next hp =>
      rw [List.map_cons, List.mem_cons, not_or]
      exact ⟨fun he => hp he.symm, ih (Option.map_eq_none_iff.1 h)⟩

namespace First

variable {o : Operator} {a b c : Float} {rest rest' : List (Operator × Float)}

/-- One operator is gone. -/
theorem length_eq (h : First o a rest c b rest') : rest'.length + 1 = rest.length := by
  induction h with
  | here => rfl
  | there _ _ ih => rw [List.length_cons, List.length_cons, ih]

/-- The other operators stay. -/
theorem subset (h : First o a rest c b rest') : rest'.map Prod.fst ⊆ rest.map Prod.fst := by
  induction h with
  | here => exact List.subset_cons_self _ _
  | there _ _ ih => exact List.cons_subset_cons _ ih

/-- The numbers that are left are those before and the value of the operator. -/
theorem forall_iff {P : Float → Prop} (h : First o a rest c b rest') (ha : P a)
    (hrest : ∀ x ∈ rest, P x.2) : (P b ∧ ∀ x ∈ rest', P x.2) ↔ P c := by
  induction h with
  | here a d rest => exact and_iff_left (List.forall_mem_cons.1 hrest).2
  | there hp h ih =>
    obtain ⟨hb, hrest⟩ := List.forall_mem_cons.1 hrest
    rw [List.forall_mem_cons, ← ih hb hrest]
    exact and_iff_right ha

/-- Between finite numbers the operator would also be the first one of its level. -/
theorem level_eq (h : First o a rest c b rest') (ha : isFinite a = true)
    (hrest : ∀ x ∈ rest, isFinite x.2 = true) :
    level Operator.combine? o a rest = level Operator.combine? o b rest' := by
  induction h with
  | here a d rest =>
    rw [level, if_pos rfl, Operator.combine?, ha, (List.forall_mem_cons.1 hrest).1]
    rfl
  | there hp h ih =>
    obtain ⟨hb, hrest⟩ := List.forall_mem_cons.1 hrest
    rw [level, if_neg hp, level, if_neg hp, ih hb hrest]

end First

/-- Applying the next operator leaves one operator less. -/
theorem length_of_next {a b c : Float} {rest rest' : List (Operator × Float)}
    (h : applyNext? a rest = some (c, b, rest')) : rest'.length + 1 = rest.length := by
  obtain ⟨o, -, ho⟩ := List.exists_of_findSome?_eq_some h
  exact (first_of_applyFirst? ho).length_eq

/-- Applies the operators between numbers until none is left, each time the leftmost one of the
first kind. What is left is the values of the operators in their order, and the last number. -/
def drain (a : Float) (rest : List (Operator × Float)) : List Float × Float :=
  match _h : applyNext? a rest with
  | none => ([], a)
  | some (c, b, rest') =>
    let (values, result) := drain b rest'
    (c :: values, result)
termination_by rest.length
decreasing_by
  have := length_of_next _h
  omega

/-- Without an operator nothing is applied. -/
theorem drain_of_none {a : Float} {rest : List (Operator × Float)}
    (h : applyNext? a rest = none) : drain a rest = ([], a) := by
  rw [drain]
  split
  · rfl
  · simp_all

/-- The next operator is applied first. -/
theorem drain_of_some {a b c : Float} {rest rest' : List (Operator × Float)}
    (h : applyNext? a rest = some (c, b, rest')) :
    drain a rest = (c :: (drain b rest').1, (drain b rest').2) := by
  rw [drain]
  split
  · simp_all
  · next h' =>
    rw [h] at h'
    cases h'
    rfl

/-- The next operator is found as long as there is one. -/
theorem applyNext?_eq_none {a : Float} {rest : List (Operator × Float)} :
    applyNext? a rest = none ↔ rest = [] := by
  constructor
  · intro h
    rw [applyNext?, List.findSome?_eq_none_iff] at h
    cases rest with
    | nil => rfl
    | cons x rest =>
      have hx := notMem_of_applyFirst? (h x.1 (by cases x.1 <;> decide))
      exact absurd List.mem_cons_self hx
  · rintro rfl
    rfl

/-! ## Levels of numbers -/

/-- A level without operators changes nothing. -/
theorem level_of_notMem {o : Operator} {a : Float} {rest : List (Operator × Float)}
    (h : o ∉ rest.map Prod.fst) : level Operator.combine? o a rest = some (a, rest) := by
  induction rest generalizing a with
  | nil => rfl
  | cons x rest ih =>
    rw [List.map_cons, List.mem_cons, not_or] at h
    -- No operator of the kind is among them, so each is passed over.
    rw [level, if_neg (Ne.symm h.1), ih h.2]
    rfl

/-- Between finite numbers, applying the next operator does not change their levels. -/
theorem levels_eq_of_next {a b c : Float} {rest rest' : List (Operator × Float)}
    (h : applyNext? a rest = some (c, b, rest')) (ha : isFinite a = true)
    (hrest : ∀ x ∈ rest, isFinite x.2 = true) :
    levels Operator.combine? Operator.all a rest = levels Operator.combine? Operator.all b rest' := by
  rw [applyNext?] at h
  -- The kinds that are not found are skipped on both sides, so the induction is on the kinds.
  generalize Operator.all = os at h ⊢
  induction os with
  | nil => cases h
  | cons o os ih =>
    rw [levels, levels]
    rw [List.findSome?_cons] at h
    split at h
    next x hx =>
      cases h
      rw [(first_of_applyFirst? hx).level_eq ha hrest]
    next hx =>
      -- Operators of this kind are neither before nor after.
      have hmem := notMem_of_applyFirst? hx
      obtain ⟨p, -, hp⟩ := List.exists_of_findSome?_eq_some h
      have hmem' : o ∉ rest'.map Prod.fst := fun ho =>
        hmem ((first_of_applyFirst? hp).subset ho)
      rw [level_of_notMem hmem, level_of_notMem hmem']
      exact ih h

/-- The levels of numbers as operands. -/
theorem levels_ofFloat (os : List Operator) (a : Float) (rest : List (Operator × Float)) :
    levels Operand.combine? os (.ofFloat a) (rest.map fun x => (x.1, .ofFloat x.2)) =
      (levels Operator.combine? os a rest).map fun (b, rest') =>
        (.ofFloat b, rest'.map fun x => (x.1, .ofFloat x.2)) := by
  refine levels_map Operand.ofFloat (P := fun _ => True) (fun _ _ _ _ _ => trivial)
    (fun o a b _ _ => ?_) os trivial fun _ _ => trivial
  rw [Operand.combine?, Operator.combine?, apply_ite (Option.map Operand.ofFloat)]
  rfl

/-- Numbers that are not all finite have no levels if there is an operator. -/
theorem levels_of_not_finite {a : Float} {rest : List (Operator × Float)} (hne : rest ≠ [])
    (h : ¬ (isFinite a = true ∧ ∀ x ∈ rest, isFinite x.2 = true)) :
    levels Operator.combine? Operator.all a rest = none := by
  have hne' : rest.map (fun x => (x.1, Operand.ofFloat x.2)) ≠ [] := by simpa using hne
  have hname := Operand.levels_of_name (a := .ofFloat a) hne' (by
    by_cases ha : isFinite a = true
    · refine .inr ?_
      simpa [ha, Operand.ofFloat] using h
    · exact .inl (Bool.eq_false_of_not_eq_true ha))
  rw [levels_ofFloat] at hname
  exact Option.map_eq_none_iff.1 hname

/-- The levels of finite numbers are what draining leaves, if no value of an operator but the last
one is infinite or NaN. -/
theorem levels_drain (a : Float) (rest : List (Operator × Float)) (ha : isFinite a = true)
    (hrest : ∀ x ∈ rest, isFinite x.2 = true) :
    levels Operator.combine? Operator.all a rest =
      if (∀ c ∈ (drain a rest).1.dropLast, isFinite c = true) then some ((drain a rest).2, [])
      else none := by
  induction a, rest using drain.induct with
  | case1 a rest hnext =>
    rw [drain_of_none hnext]
    obtain rfl := applyNext?_eq_none.1 hnext
    rfl
  | case2 a rest c b rest' hnext values result hd ih =>
    obtain ⟨o, -, ho⟩ := List.exists_of_findSome?_eq_some hnext
    -- The numbers after a step are finite just if the value of its operator is.
    have hfinite := (first_of_applyFirst? ho).forall_iff (P := fun x => isFinite x = true) ha hrest
    rw [levels_eq_of_next hnext ha hrest, drain_of_some hnext]
    by_cases hc : isFinite c = true
    · obtain ⟨hb, hrest'⟩ := hfinite.2 hc
      rw [ih hb hrest']
      cases (drain b rest').1 with
      | nil => rfl
      | cons d values => rw [List.dropLast_cons_cons]; simp [hc]
    · cases hx : applyNext? b rest' with
      | none =>
        -- The value that is infinite or NaN is the last one.
        rw [drain_of_none hx]
        obtain rfl := applyNext?_eq_none.1 hx
        rfl
      | some x =>
        have hne : rest' ≠ [] := fun h => by simp [applyNext?_eq_none.2 h] at hx
        -- An operator is left, and a number that is not finite is next to one.
        rw [levels_of_not_finite hne fun h => hc (hfinite.1 h), drain_of_some hx]
        simp [hc]

/-! ## The text -/

/-- Numbers with operators between them, as a text. -/
def numbersText (a : Float) (rest : List (Operator × Float)) : Text :=
  plainText a ++ rest.flatMap fun (o, b) => o.symbol :: plainText b

/-- Whether a number is missing. -/
def EvalError.IsMissing (e : EvalError) : Prop := e.code = "MISSING_OPERAND"

namespace Operand

/-- The operand before an operator is read or missing. -/
theorem errs_before (a : Operand) {u : Text} (hu : EndsRun u.getLast?) :
    (Noted.ofExcept (readNumber (operandBefore (u ++ a.text))) : Run Float).Errs
      EvalError.IsMissing := by
  intro e he
  rw [Noted.outcome_ofExcept] at he
  cases ha : a.plain with
  | false =>
    rw [operandBefore_of_name ha] at he
    cases he
    rfl
  | true =>
    rw [(operandBefore_append (isOperandChar ha) hu).1, a.read] at he
    cases he

/-- The operand after an operator is read or missing. -/
theorem errs_after (a : Operand) {u : Text} (hu : EndsRun u.head?) :
    (Noted.ofExcept (readNumber (operandAfter (a.text ++ u))) : Run Float).Errs
      EvalError.IsMissing := by
  intro e he
  rw [Noted.outcome_ofExcept] at he
  cases ha : a.plain with
  | false =>
    rcases operandAfter_of_name ha u with h | h <;> rw [h] at he <;> cases he <;> rfl
  | true =>
    rw [(operandAfter_append (isOperandChar ha) hu).1, a.read] at he
    cases he

/-- An operand before an operator that is read is no name. -/
theorem plain_of_before {a : Operand} {u : Text} {x : Float}
    (h : readNumber (operandBefore (u ++ a.text)) = .ok x) : a.plain = true := by
  by_contra ha
  rw [operandBefore_of_name (Bool.eq_false_of_not_eq_true ha)] at h
  cases h

/-- An operand after an operator that is read is no name. -/
theorem plain_of_after {a : Operand} {u : Text} {x : Float}
    (h : readNumber (operandAfter (a.text ++ u)) = .ok x) : a.plain = true := by
  by_contra ha
  rcases operandAfter_of_name (Bool.eq_false_of_not_eq_true ha) u with hu | hu <;>
    rw [hu] at h <;> cases h

/-- Applying the operators of a kind between operands fails only where one of them is missing. -/
theorem errs_applyOperator (o : Operator) (a : Operand) (rest : List (Operator × Operand))
    {u : Text} (hu : EndsRun u.getLast?) (ho : o.symbol ∉ u) :
    (applyOperator o (u ++ joined a rest)).Errs EvalError.IsMissing := by
  induction rest generalizing a u with
  | nil =>
    rw [applyOperator_of_none (splitAtChar?_joined_nil a ho)]
    exact Noted.errs_of_ok rfl
  | cons x rest ih =>
    obtain ⟨p, b⟩ := x
    have htail := endsRun_tail rest
    by_cases hp : p = o
    · subst hp
      rw [applyOperator_of_some (splitAtChar?_joined a b rest ho)]
      refine (a.errs_before hu).bind fun x hx => (b.errs_after htail).bind fun y hy => ?_
      refine Noted.Errs.bind (Noted.errs_of_ok rfl) fun _ _ => ?_
      -- Operands that are read are finite, so the engine takes all of them and no more.
      rw [joined, (operandBefore_append (isOperandChar (plain_of_before hx)) hu).2,
        (operandAfter_append (isOperandChar (plain_of_after hy)) htail).2]
      have := ih (ofFloat (p.apply x y)) hu ho
      rwa [joined, ← List.append_assoc] at this
    · obtain ⟨hends, hmem⟩ := append_text_symbol a hp ho
      rw [append_joined_cons]
      exact ih b hends hmem

/-- Applying all operators between operands fails only where one of them is missing. -/
theorem errs_applyOperators (os : List Operator) (a : Operand) (rest : List (Operator × Operand)) :
    (applyOperators os (joined a rest)).Errs EvalError.IsMissing := by
  induction os generalizing a rest with
  | nil => exact Noted.errs_of_ok rfl
  | cons o os ih =>
    have hlevel := applyOperator_joined o a rest (u := []) rfl List.not_mem_nil
    refine (errs_applyOperator o a rest (u := []) rfl List.not_mem_nil).bind fun t ht => ?_
    rw [List.nil_append] at hlevel ht
    rw [ht] at hlevel
    -- What a kind leaves are joined operands again.
    obtain ⟨⟨b, rest'⟩, -, hb⟩ := Option.map_eq_some_iff.1 hlevel.symm
    exact hb ▸ ih b rest'

end Operand

/-- The text of numbers is that of their operands. -/
theorem numbersText_eq (a : Float) (rest : List (Operator × Float)) :
    numbersText a rest = Operand.joined (.ofFloat a) (rest.map fun x => (x.1, .ofFloat x.2)) := by
  rw [Operand.joined, List.flatMap_map]
  rfl

/-- The engine drains the operators of a text of finite numbers. If none of their values but the
last one is infinite or NaN, what is left is the text of the last number. Otherwise a number is
missing. -/
theorem applyOperators_drain (a : Float) (rest : List (Operator × Float))
    (ha : isFinite a = true) (hrest : ∀ x ∈ rest, isFinite x.2 = true) :
    ((∀ c ∈ (drain a rest).1.dropLast, isFinite c = true) →
        (applyOperators Operator.all (numbersText a rest)).outcome =
          .ok (plainText (drain a rest).2)) ∧
      ((∃ c ∈ (drain a rest).1.dropLast, isFinite c = false) →
        ∃ e, (applyOperators Operator.all (numbersText a rest)).outcome = .error e ∧
          e.code = "MISSING_OPERAND") := by
  have hvalue := Operand.applyOperators_joined Operator.all (.ofFloat a)
    (rest.map fun x => (x.1, .ofFloat x.2))
  rw [← numbersText_eq, levels_ofFloat, levels_drain a rest ha hrest] at hvalue
  refine ⟨fun h => ?_, fun ⟨c, hc, hinf⟩ => ?_⟩
  · rw [if_pos h] at hvalue
    refine toOption_eq_some.1 (hvalue.trans ?_)
    simp [Operand.joined, Operand.ofFloat]
  · rw [if_neg fun h => by simp [h c hc] at hinf] at hvalue
    cases he : (applyOperators Operator.all (numbersText a rest)).outcome with
    | ok t =>
      rw [he] at hvalue
      cases hvalue
    | error e => exact ⟨e, rfl, Operand.errs_applyOperators _ _ _ e (numbersText_eq a rest ▸ he)⟩

/-- A quotient by zero may only be the last value: `2*3/0` is infinite, but a number is missing in
`2*3/0+1`. -/
theorem applyOperators_drain_pole :
    let two := Float.ofBits 0x4000000000000000
    let rest := [(Operator.multiply, Float.ofBits 0x4008000000000000), (.divide, Float.ofBits 0)]
    let more := rest ++ [(.add, Float.ofBits 0x3FF0000000000000)]
    numbersText two rest = "2.0*3.0/0.0".toList ∧
      (applyOperators Operator.all (numbersText two rest)).outcome = .ok "inf".toList ∧
      ∃ e, (applyOperators Operator.all (numbersText two more)).outcome = .error e ∧
        e.code = "MISSING_OPERAND" := by
  intro two rest more
  have htwo : isFinite two = true := by decide +kernel
  have hrest : ∀ x ∈ rest, isFinite x.2 = true := by decide +kernel
  have hmore : ∀ x ∈ more, isFinite x.2 = true := by decide +kernel
  have hresult : plainText (drain two rest).2 = "inf".toList := by decide +kernel
  refine ⟨by decide +kernel, ?_, ?_⟩
  · rw [← hresult]
    exact (applyOperators_drain two rest htwo hrest).1 (by decide +kernel)
  · exact (applyOperators_drain two more htwo hmore).2 (by decide +kernel)

end FormulaPlot
