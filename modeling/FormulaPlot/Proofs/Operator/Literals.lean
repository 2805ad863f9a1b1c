import FormulaPlot.Proofs.Engine.Induction
import FormulaPlot.Proofs.Expression.Together
import FormulaPlot.Proofs.Number.Signs

/-!
# An operator between two literals

The operands of an operator are the runs of digits, points and minuses next to it. Literals may have
more than that: the mark of an exponent, and digits of other scripts. So an operator between two
literals is applied to the whole literals if they are made of such characters, and otherwise to
their parts next to it, and its value is then read with the parts that are left
(`reduce_literals`). `1+1e2` is `2.0e2`, and has the value 200 (`reduce_literals_parts`).

Only signs can be lost on the way. A plus after the mark of an exponent is dropped, which changes
nothing. But a plus that is the operator is dropped as well where the first literal ends in a digit
of another script.
-/

namespace FormulaPlot

/-! ## What is dropped -/

section Dropped

variable {q r : Option Char} {t u : Text}

/-- A text that does not end in a plus loses the same pluses before another text. -/
theorem dropUnaryPlusAfter_append_of_last (hu : u.getLast? ≠ some '+') (t : Text) :
    dropUnaryPlusAfter q (u ++ t) =
      dropUnaryPlusAfter q u ++ dropUnaryPlusAfter (u.getLast?.or q) t := by
  induction u generalizing q with
  | nil => rfl
  | cons c u ih =>
    -- A plus is last in the one text if it is in the other, as it is not the end of this part.
    have hnil : c = '+' → (u ++ t = [] ↔ u = []) := by
      rintro rfl
      cases u with
      | nil => exact absurd rfl hu
      | cons d u => simp
    have hrest : u.getLast? ≠ some '+' := fun h => by
      rw [List.getLast?_cons, h] at hu
      exact hu rfl
    rw [List.cons_append, dropUnaryPlusAfter, dropUnaryPlusAfter, ih hrest,
      getLast?_cons_or]
    by_cases hc : c = '+'
    · simp only [hnil hc]
      split <;> rfl
    · rw [if_neg fun h => hc h.1, if_neg fun h => hc h.1, List.cons_append]

/-- Only a plus at the start asks for what comes before. -/
theorem dropUnaryPlusAfter_of_head (ht : t.head? ≠ some '+') :
    dropUnaryPlusAfter q t = dropUnaryPlusAfter r t := by
  cases t with
  | nil => rfl
  | cons c t =>
    have hc : c ≠ '+' := fun hc => ht (congrArg some hc)
    rw [Phrase.dropUnaryPlusAfter_cons hc, Phrase.dropUnaryPlusAfter_cons hc]

/-- A text that does not begin with a plus keeps its first character. -/
theorem head?_dropUnaryPlusAfter (ht : t.head? ≠ some '+') :
    (dropUnaryPlusAfter q t).head? = t.head? := by
  cases t with
  | nil => rfl
  | cons c t => rw [Phrase.dropUnaryPlusAfter_cons fun hc => ht (congrArg some hc)]; rfl

/-- A text that does not end in a plus keeps its last character. -/
theorem getLast?_dropUnaryPlusAfter (ht : t.getLast? ≠ some '+') :
    (dropUnaryPlusAfter q t).getLast? = t.getLast? := by
  rcases List.eq_nil_or_concat' t with rfl | ⟨u, c, rfl⟩
  · rfl
  have hc : c ≠ '+' := fun hc => ht (by rw [hc, List.getLast?_concat])
  induction u generalizing q with
  | nil => rw [List.nil_append, Phrase.dropUnaryPlusAfter_cons hc]; rfl
  | cons d u ih =>
    -- The last character of the rest is kept, and it is that of the whole text.
    have hlast : (dropUnaryPlusAfter (some d) (u ++ [c])).getLast? = some c := by
      rw [ih (by simpa using hc), List.getLast?_concat]
    rw [List.cons_append, dropUnaryPlusAfter]
    split <;> simp [List.getLast?_cons, hlast]

/-- Nothing but pluses is dropped. -/
theorem mem_dropUnaryPlusAfter {c : Char} (hc : c ≠ '+') (h : c ∈ t) : c ∈ dropUnaryPlusAfter q t := by
  induction t generalizing q with
  | nil => exact h
  | cons d t ih =>
    rw [dropUnaryPlusAfter]
    rcases List.mem_cons.1 h with rfl | h
    · rw [if_neg fun h => hc h.1]
      exact List.mem_cons_self
    · split
      · exact ih h
      · exact List.mem_cons_of_mem d (ih h)

end Dropped

/-! ## Operands and the rest -/

/-- Before the operand at the end of a text there is no character of operands. -/
theorem endsRun_beforeOperand (t : Text) : EndsRun (beforeOperand t).getLast? := by
  have h := List.head?_dropWhile_not isOperandChar t.reverse
  rw [beforeOperand, List.getLast?_reverse, EndsRun]
  cases hd : (t.reverse.dropWhile isOperandChar).head? with
  | none => rfl
  | some c => simpa [hd] using h

/-- After the operand at the start of a text there is no character of operands. -/
theorem endsRun_afterOperand (t : Text) : EndsRun (afterOperand t).head? := by
  have h := List.head?_dropWhile_not isOperandChar t
  rw [afterOperand, EndsRun]
  cases hd : (t.dropWhile isOperandChar).head? with
  | none => rfl
  | some c => simpa [hd] using h

/-- Where neither an operand nor a minus ends, there may be a sign. -/
theorem beforeSign_of_not_endsOperand {q : Option Char} (hend : ¬ q.any endsOperand = true)
    (hminus : q ≠ some '-') : beforeSign q = true := by
  cases q with
  | none => rfl
  | some c =>
    have hdigit : isAsciiDigit c = false := by
      simp only [Option.any_some, endsOperand, Bool.or_eq_true, not_or, Bool.not_eq_true] at hend
      exact hend.1.1
    have hne : c ≠ '-' := fun h => hminus (congrArg some h)
    simp [beforeSign, hdigit, hne]

/-- Where no character of operands stands, there may be a sign. -/
theorem beforeSign_of_endsRun {q : Option Char} (h : EndsRun q) : beforeSign q = true := by
  cases q with
  | none => rfl
  | some c =>
    have hc : isOperandChar c = false := by simpa [EndsRun] using h
    simp only [isOperandChar, Bool.or_eq_false_iff, decide_eq_false_iff_not] at hc
    simp [beforeSign, hc.1.1, hc.2]

/-- Without a character of operands at its end a text has no operand there. -/
theorem operandBefore_eq_nil {t : Text} (h : t.getLast?.any isOperandChar = false) :
    operandBefore t = [] := by
  rcases List.eq_nil_or_concat' t with rfl | ⟨u, c, rfl⟩
  · rfl
  · rw [List.getLast?_concat, Option.any_some] at h
    simp [operandBefore, h]

/-- Without a character of operands at its start a text has no operand there. -/
theorem operandAfter_eq_nil {t : Text} (h : t.head?.any isOperandChar = false) :
    operandAfter t = [] := by
  cases t with
  | nil => rfl
  | cons c t =>
    rw [List.head?_cons, Option.any_some] at h
    simp [operandAfter, h]

/-! ## Texts without calls -/

/-- Without calls and groups there is nothing to resolve. -/
theorem resolve_of_isInert (limit depth : Int) (kinds : List Redex) {t : Text}
    (h : ∀ c ∈ t, Phrase.isInert c = true) : resolve limit depth kinds t = pure t := by
  -- The text is a phrase without calls, so the search finds none of any kind.
  have hclear : Phrase.Clear (.chars t .nil) := by
    induction t with
    | nil => trivial
    | cons c t ih =>
      refine ⟨h c List.mem_cons_self, ?_, ih fun d hd => h d (List.mem_cons_of_mem c hd)⟩
      cases t <;> exact id
  have hnone (k : Redex) : k.split? t = none := by
    have := Phrase.split?_eq_none (k := k) hclear ((Phrase.atLeast_chars t .nil).2 trivial)
    rwa [Phrase.text_chars, Phrase.text, List.append_nil] at this
  induction kinds with
  | nil => rw [resolve]
  | cons k ks ih => rw [resolve_of_none (hnone k), ih]

/-- The value of a text without calls, in which every minus is a sign, is what its operators leave
of it, read as a number. -/
theorem outcome_reduce_of_isInert {limit depth : Int} (hdepth : depth ≤ limit) {t : Text}
    (h : ∀ c ∈ dropUnaryPlus t, Phrase.isInert c = true) (hsigns : SignsOnly none (dropUnaryPlus t)) :
    (reduce limit depth t).outcome =
      (applyOperators Operator.all (dropUnaryPlus t)).outcome >>= fun u =>
        readNumber (cancelMinusPairs u) := by
  have hmark : markBinaryMinus (dropUnaryPlus t) = dropUnaryPlus t := hsigns.markBinaryMinusAfter_eq
  rw [reduce, Noted.outcome_bind_of_ok rfl, if_neg (not_lt.2 hdepth), Noted.outcome_bind_of_ok rfl,
    resolve_of_isInert limit depth _ h, Noted.outcome_bind_of_ok rfl, hmark, Noted.outcome_bind]
  rfl

/-! ## One operator -/

/-- What is left of two texts around an operator has only their characters and those of numbers. -/
theorem notMem_splice {c : Char} {u v : Text} (h : c ∉ u ++ v) (hc : isPlainChar c = false) (x : Float) :
    c ∉ beforeOperand u ++ plainText x ++ afterOperand v := by
  have hb := congrArg (List.count c) (beforeOperand_append_operandBefore u)
  have ha := congrArg (List.count c) (operandAfter_append_afterOperand v)
  have hx := count_plainText hc x
  rw [← List.count_eq_zero] at h ⊢
  simp only [List.count_append] at *
  omega

/-- An operator between two texts without operators is applied to the operands next to it. -/
theorem outcome_applyOperators_single {o : Operator} {os : List Operator} (ho : o ∈ os) {u v : Text}
    (h : ∀ p : Operator, p.symbol ∉ u ++ v) :
    (applyOperators os (u ++ o.symbol :: v)).outcome = (do
      let x ← readNumber (operandBefore u)
      let y ← readNumber (operandAfter v)
      pure (beforeOperand u ++ plainText (o.apply x y) ++ afterOperand v)) := by
  induction os with
  | nil => cases ho
  | cons p os ih =>
    by_cases hp : p = o
    · subst hp
      have hsplit : splitAtChar? p.symbol (u ++ p.symbol :: v) = some (u, v) := by
        have hu : p.symbol ∉ u := fun hmem => h p (List.mem_append_left v hmem)
        rw [Operand.splitAtChar?_append hu, splitAtChar?, if_pos rfl]
        simp
      -- No operator is left after it is applied.
      have hrest (x : Float) : applyOperators (p :: os)
          (beforeOperand u ++ plainText x ++ afterOperand v) =
            pure (beforeOperand u ++ plainText x ++ afterOperand v) :=
        Operand.applyOperators_of_notMem fun q _ =>
          notMem_splice (h q) (by cases q <;> decide) x
      simp only [applyOperators] at hrest
      rw [applyOperators, applyOperator_of_some hsplit, Noted.outcome_bind]
      simp only [Noted.outcome_bind, Noted.outcome_ofExcept, Noted.outcome_note, bind_assoc]
      congr 1
      funext x
      congr 1
      funext y
      have hvalue := congrArg Noted.outcome (hrest (p.apply x y))
      rwa [Noted.outcome_bind] at hvalue
    · -- Any operator before it in the table finds no symbol of its own and leaves the text alone.
      have hne : p.symbol ≠ o.symbol := by
        revert hp
        cases p <;> cases o <;> decide
      have hmem : p.symbol ∉ u ++ o.symbol :: v := by
        have := h p
        simp_all
      have hnone : splitAtChar? p.symbol (u ++ o.symbol :: v) = none := by
        rw [← List.append_nil (u ++ o.symbol :: v), Operand.splitAtChar?_append hmem]
        rfl
      rw [applyOperators, applyOperator_of_none hnone]
      exact ih ((List.mem_cons.1 ho).resolve_left (Ne.symm hp))

/-! ## Two literals -/

section Literals

open Literal

variable {limit depth : Int} {o : Operator} {a b : Text} {x y : Float}

/-- The operator after a text is no plus that is dropped: an operand ends before a plus. -/
def Operator.KeptAfter (o : Operator) (a : Text) : Prop :=
  o = .add → a.getLast?.any endsOperand = true

/-- What is read as a number is accepted. -/
theorem accepts_of_readNumber (ha : readNumber a = .ok x) :
    (State.start.runFrom a).accepts = true := exists_readNumber_iff.1 ⟨x, ha⟩

/-- Without its unary pluses a literal has no operator. -/
theorem symbol_notMem_literal (ha : readNumber a = .ok x) (p : Operator) :
    p.symbol ∉ dropUnaryPlus a := by
  intro hmem
  have hchar := isNumberChar_of_readNumber ha _ ((sublist_dropUnaryPlus a).subset hmem)
  cases p with
  | add => exact (State.accepts_dropUnaryPlus (accepts_of_readNumber ha)).2 hmem
  | _ => exact absurd hchar (by decide)

/-- Without their unary pluses two literals have no operator. -/
theorem symbol_notMem_literals (ha : readNumber a = .ok x) (hb : readNumber b = .ok y) (p : Operator) :
    p.symbol ∉ dropUnaryPlus a ++ dropUnaryPlus b := by
  rw [List.mem_append, not_or]
  exact ⟨symbol_notMem_literal ha p, symbol_notMem_literal hb p⟩

/-- Before an operator and after it, a literal loses the pluses that it loses by itself. -/
theorem dropUnaryPlus_literals (ha : readNumber a = .ok x) (hb : readNumber b = .ok y) :
    (o.KeptAfter a →
        dropUnaryPlus (a ++ o.symbol :: b) = dropUnaryPlus a ++ o.symbol :: dropUnaryPlus b) ∧
      (¬ o.KeptAfter a → dropUnaryPlus (a ++ o.symbol :: b) = dropUnaryPlus a ++ dropUnaryPlus b) := by
  have hlast := State.getLast?_ne_of_accepts (.inr rfl) (accepts_of_readNumber ha)
  have hhead := State.head?_ne_of_accepts (accepts_of_readNumber hb)
  have hne : b ≠ [] := by
    rintro rfl
    cases hb
  have hplus : o.symbol = '+' ↔ o = .add := by cases o <;> decide
  rw [dropUnaryPlus, dropUnaryPlusAfter_append_of_last hlast, dropUnaryPlusAfter, Option.or_none,
    dropUnaryPlusAfter_of_head (r := none) hhead]
  refine ⟨fun hkept => ?_, fun hdropped => ?_⟩
  · rw [if_neg]
    · rfl
    · rintro ⟨hadd, hnil | hend⟩
      · exact hne hnil
      · rw [hkept (hplus.1 hadd)] at hend
        cases hend
  · -- The operator is itself one of the pluses that go.
    obtain ⟨hadd, hend⟩ := Classical.not_imp.1 hdropped
    rw [if_pos ⟨hplus.2 hadd, .inr (Bool.eq_false_iff.2 hend)⟩]
    rfl

/-- The text of two literals has no calls. -/
theorem isInert_of_literals (ha : readNumber a = .ok x) (hb : readNumber b = .ok y) :
    ∀ c ∈ dropUnaryPlus (a ++ o.symbol :: b), Phrase.isInert c = true := by
  intro c hc
  rcases List.mem_append.1 ((sublist_dropUnaryPlus _).subset hc) with hc | hc
  · exact isInert_of_isNumberChar (isNumberChar_of_readNumber ha c hc)
  rcases List.mem_cons.1 hc with rfl | hc
  · cases o <;> decide
  · exact isInert_of_isNumberChar (isNumberChar_of_readNumber hb c hc)

/-- Without its unary pluses a literal has signs only, after whatever a sign can follow. -/
theorem signsOnly_literal (ha : readNumber a = .ok x) {q : Option Char} (hq : beforeSign q = true) :
    SignsOnly q (dropUnaryPlus a) :=
  State.signsOnly_of_accepts (q := .start) (fun _ => hq)
    (State.accepts_dropUnaryPlus (accepts_of_readNumber ha)).1

/-- The text of a number has signs only, after whatever a sign can follow. -/
theorem signsOnly_plainText (v : Float) {q : Option Char} (hq : beforeSign q = true) :
    SignsOnly q (plainText v) :=
  State.signsOnly_of_accepts (q := .start) (fun _ => hq) (accepts_of_readNumber (readNumber_plainText v))

/-- A value between what is left of two literals makes no pair of minuses. -/
theorem cancelMinusPairs_literals (ha : readNumber a = .ok x) (hb : readNumber b = .ok y) (v : Float) :
    cancelMinusPairs (beforeOperand (dropUnaryPlus a) ++ plainText v ++
        afterOperand (dropUnaryPlus b)) =
      beforeOperand (dropUnaryPlus a) ++ plainText v ++ afterOperand (dropUnaryPlus b) := by
  -- A minus is a character of operands, so none is next to the value in what is left.
  have hbefore := endsRun_beforeOperand (dropUnaryPlus a)
  have hafter := endsRun_afterOperand (dropUnaryPlus b)
  have hleft : SignsOnly none (beforeOperand (dropUnaryPlus a)) := by
    have h := signsOnly_literal ha (q := none) rfl
    rw [← beforeOperand_append_operandBefore (dropUnaryPlus a)] at h
    refine h.left fun hlast => ?_
    rw [hlast] at hbefore
    cases hbefore
  -- The three parts have signs only, each after the end of the one before.
  have hvalue : SignsOnly none (beforeOperand (dropUnaryPlus a) ++ plainText v) := by
    refine hleft.append (signsOnly_plainText v ?_)
    rw [Option.or_none]
    exact beforeSign_of_endsRun hbefore
  refine (hvalue.append (SignsOnly.of_head (q := (operandAfter (dropUnaryPlus b)).getLast?.or none)
    ?_ fun hhead => ?_)).cancelMinusPairs_eq
  · have h := signsOnly_literal hb (q := none) rfl
    rw [← operandAfter_append_afterOperand (dropUnaryPlus b)] at h
    exact h.right
  · rw [hhead] at hafter
    cases hafter

/-- An operator that is not dropped is applied to the parts of the two literals next to it, and its
value is read with the parts that are left. -/
theorem outcome_reduce_of_kept (hdepth : depth ≤ limit) (ha : readNumber a = .ok x)
    (hb : readNumber b = .ok y) (hkept : o.KeptAfter a) :
    (reduce limit depth (a ++ o.symbol :: b)).outcome = (do
      let x ← readNumber (operandBefore (dropUnaryPlus a))
      let y ← readNumber (operandAfter (dropUnaryPlus b))
      readNumber (beforeOperand (dropUnaryPlus a) ++ plainText (o.apply x y) ++
        afterOperand (dropUnaryPlus b))) := by
  have htext := (dropUnaryPlus_literals (o := o) ha hb).1 hkept
  have hsigns : SignsOnly none (dropUnaryPlus a ++ o.symbol :: dropUnaryPlus b) := by
    have hsymbol : o.symbol ≠ '-' ∧ beforeSign (some o.symbol) = true := by cases o <;> decide
    exact (signsOnly_literal ha rfl).append
      ⟨fun h => absurd h hsymbol.1, signsOnly_literal hb hsymbol.2⟩
  rw [outcome_reduce_of_isInert hdepth (isInert_of_literals ha hb) (htext ▸ hsigns), htext,
    outcome_applyOperators_single (by cases o <;> decide) (symbol_notMem_literals ha hb)]
  simp only [bind_assoc, pure_bind, cancelMinusPairs_literals ha hb]

/-- Where a plus is dropped the two literals are read as one. -/
theorem outcome_reduce_of_dropped (hdepth : depth ≤ limit) (ha : readNumber a = .ok x)
    (hb : readNumber b = .ok y) (hdropped : ¬ o.KeptAfter a) :
    (reduce limit depth (a ++ o.symbol :: b)).outcome =
      readNumber (dropUnaryPlus a ++ dropUnaryPlus b) := by
  have htext := (dropUnaryPlus_literals (o := o) ha hb).2 hdropped
  obtain ⟨-, hend⟩ := Classical.not_imp.1 hdropped
  have hsigns : SignsOnly none (dropUnaryPlus a ++ dropUnaryPlus b) := by
    have haccepts := accepts_of_readNumber ha
    have hlast : (dropUnaryPlus a).getLast? = a.getLast? :=
      getLast?_dropUnaryPlusAfter (State.getLast?_ne_of_accepts (.inr rfl) haccepts)
    refine (signsOnly_literal ha rfl).append (signsOnly_literal hb ?_)
    rw [Option.or_none, hlast]
    exact beforeSign_of_not_endsOperand hend (State.getLast?_ne_of_accepts (.inl rfl) haccepts)
  rw [outcome_reduce_of_isInert hdepth (isInert_of_literals ha hb) (htext ▸ hsigns), htext,
    Operand.applyOperators_of_notMem fun p _ => symbol_notMem_literals ha hb p]
  exact congrArg readNumber hsigns.cancelMinusPairs_eq

/-! ### Literals of characters of operands -/

/-- Characters of operands are no pluses, so none is dropped. -/
theorem dropUnaryPlus_of_isOperandChar {t : Text} (ht : ∀ c ∈ t, isOperandChar c = true) :
    dropUnaryPlus t = t := by
  have hplus : '+' ∉ t := fun hmem => absurd (ht _ hmem) (by decide)
  have := Phrase.dropUnaryPlusAfter_append hplus none []
  rwa [List.append_nil, dropUnaryPlusAfter, List.append_nil] at this

/-- After a literal of characters of operands no operator is dropped. -/
theorem Operator.keptAfter_of_isOperandChar (ha : readNumber a = .ok x)
    (hchars : ∀ c ∈ a, isOperandChar c = true) : o.KeptAfter a := by
  intro _
  have hlast := State.getLast?_ne_of_accepts (.inl rfl) (accepts_of_readNumber ha)
  cases hc : a.getLast? with
  | none =>
    rw [List.getLast?_eq_none_iff.1 hc] at ha
    cases ha
  | some c =>
    have hne : c ≠ '-' := fun h => hlast (hc.trans (congrArg some h))
    have hoperand := hchars c (List.mem_of_getLast? hc)
    simp only [isOperandChar, Bool.or_eq_true, decide_eq_true_eq] at hoperand
    rcases hoperand with (hdigit | rfl) | hminus
    · simp [endsOperand, hdigit]
    · rfl
    · exact absurd hminus hne

/-- Literals of characters of operands are the operands. -/
theorem outcome_reduce_of_isOperandChar (hdepth : depth ≤ limit) (ha : readNumber a = .ok x)
    (hb : readNumber b = .ok y) (hleft : ∀ c ∈ a, isOperandChar c = true)
    (hright : ∀ c ∈ b, isOperandChar c = true) :
    (reduce limit depth (a ++ o.symbol :: b)).outcome = .ok (o.apply x y) := by
  have hbefore := operandBefore_append (u := []) hleft rfl
  have hafter := operandAfter_append (u := []) hright rfl
  rw [List.nil_append] at hbefore
  rw [List.append_nil] at hafter
  rw [outcome_reduce_of_kept hdepth ha hb (Operator.keptAfter_of_isOperandChar ha hleft),
    dropUnaryPlus_of_isOperandChar hleft, dropUnaryPlus_of_isOperandChar hright, hbefore.1,
    hbefore.2, hafter.1, hafter.2, ha, hb]
  have hwhole (v : Float) : [] ++ plainText v ++ [] = plainText v := by simp
  simp only [hwhole]
  exact readNumber_plainText _

/-! ### Literals of which a part is left -/

/-- The mark of an exponent is part of no operand, and is left when one is taken. -/
theorem mem_beforeOperand_of_mark {m : Char} (hm : m = 'e' ∨ m = 'E') (hmem : m ∈ a) :
    m ∈ beforeOperand (dropUnaryPlus a) := by
  have hdrop : m ∈ dropUnaryPlus a :=
    mem_dropUnaryPlusAfter (by rcases hm with rfl | rfl <;> decide) hmem
  rw [← beforeOperand_append_operandBefore (dropUnaryPlus a), List.mem_append] at hdrop
  refine hdrop.resolve_right fun hoperand => ?_
  rw [operandBefore, List.mem_reverse] at hoperand
  have := List.mem_takeWhile_imp hoperand
  rcases hm with rfl | rfl <;> cases this

/-- A value after the mark of an exponent is part of no number. -/
theorem exists_error_of_exponent {u s t : Text} {m : Char} (hm : m = 'e' ∨ m = 'E') (hu : m ∈ u)
    (hs : IsNumberText s) : ∃ e, readNumber (u ++ s ++ t) = .error e := by
  cases h : readNumber (u ++ s ++ t) with
  | error e => exact ⟨e, rfl⟩
  | ok x =>
    -- From the mark on only an exponent can be read, and the text of a number is none.
    obtain ⟨w, v, rfl⟩ := List.append_of_mem hu
    have haccepts := accepts_of_readNumber h
    have hexp : (State.start.runFrom (w ++ m :: v)).isExponential = true := by
      rw [State.runFrom_append, State.runFrom_cons]
      exact State.isExponential_runFrom (State.isExponential_next hm _) v
    rw [State.runFrom_append, State.runFrom_append, State.runFrom_exponential hexp hs,
      State.runFrom_dead] at haccepts
    cases haccepts

/-- Two parts of which the first fails or the second fails after it have no value. -/
theorem exists_error_bind {ε α β : Type} {z : Except ε α} {f : α → Except ε β}
    (h : ∀ v, z = .ok v → ∃ e, f v = .error e) : ∃ e, z >>= f = .error e := by
  cases z with
  | error e => exact ⟨e, rfl⟩
  | ok v => exact h v rfl

/-- There is no value after an exponent, and none without an operand on both sides. -/
theorem exists_error_of_parts (hdepth : depth ≤ limit) (ha : readNumber a = .ok x)
    (hb : readNumber b = .ok y) (hkept : o.KeptAfter a)
    (hparts : 'e' ∈ a ∨ 'E' ∈ a ∨ a.getLast?.any isOperandChar = false ∨
      b.head?.any isOperandChar = false) :
    ∃ e, (reduce limit depth (a ++ o.symbol :: b)).outcome = .error e := by
  rw [outcome_reduce_of_kept hdepth ha hb hkept]
  refine exists_error_bind fun x' hx' => exists_error_bind fun y' hy' => ?_
  have hvalue := isNumberText_plainText (o.apply x' y')
  rcases hparts with he | he | hlast | hhead
  · exact exists_error_of_exponent (.inl rfl) (mem_beforeOperand_of_mark (.inl rfl) he) hvalue
  · exact exists_error_of_exponent (.inr rfl) (mem_beforeOperand_of_mark (.inr rfl) he) hvalue
  · -- The left operand is empty.
    have hsame : (dropUnaryPlus a).getLast? = a.getLast? :=
      getLast?_dropUnaryPlusAfter (State.getLast?_ne_of_accepts (.inr rfl) (accepts_of_readNumber ha))
    rw [operandBefore_eq_nil (hsame ▸ hlast)] at hx'
    cases hx'
  · -- The right operand is empty.
    have hsame : (dropUnaryPlus b).head? = b.head? :=
      head?_dropUnaryPlusAfter (State.head?_ne_of_accepts (accepts_of_readNumber hb))
    rw [operandAfter_eq_nil (hsame ▸ hhead)] at hy'
    cases hy'

/-- The value of an operator between two literals. If both are made of characters of operands, which
are the digits of formulas, the point and the minus, then it is the operator's value of theirs.
Otherwise it is found from the parts of the literals next to the operator and read with the parts
that are left, unless the operator is a plus after no operand, which is dropped. There is no value if
the first literal has an exponent, or if no character of operands is next to the operator on one
side. -/
theorem reduce_literals (hdepth : depth ≤ limit) (ha : readNumber a = .ok x)
    (hb : readNumber b = .ok y) :
    ((∀ c ∈ a ++ b, isOperandChar c = true) →
        (reduce limit depth (a ++ o.symbol :: b)).outcome = .ok (o.apply x y)) ∧
      (o.KeptAfter a →
        'e' ∈ a ∨ 'E' ∈ a ∨ a.getLast?.any isOperandChar = false ∨
          b.head?.any isOperandChar = false →
        ∃ e, (reduce limit depth (a ++ o.symbol :: b)).outcome = .error e) ∧
      (o.KeptAfter a → (reduce limit depth (a ++ o.symbol :: b)).outcome = (do
        let x ← readNumber (operandBefore (dropUnaryPlus a))
        let y ← readNumber (operandAfter (dropUnaryPlus b))
        readNumber (beforeOperand (dropUnaryPlus a) ++ plainText (o.apply x y) ++
          afterOperand (dropUnaryPlus b)))) ∧
      (¬ o.KeptAfter a → (reduce limit depth (a ++ o.symbol :: b)).outcome =
        readNumber (dropUnaryPlus a ++ dropUnaryPlus b)) := by
  refine ⟨fun hchars => ?_, exists_error_of_parts hdepth ha hb, outcome_reduce_of_kept hdepth ha hb,
    outcome_reduce_of_dropped hdepth ha hb⟩
  exact outcome_reduce_of_isOperandChar hdepth ha hb (fun c hc => hchars c (List.mem_append_left b hc))
    fun c hc => hchars c (List.mem_append_right a hc)

end Literals

/-- Parts of literals that recombine. In the sum of 1 and 100 the operands are 1 and 1, and the
exponent is read with their sum. In the product of 31, whose first digit is one of another script,
and 2 the operands are 1 and 2, and that digit is read with their product. -/
theorem reduce_literals_parts :
    (readNumber "1".toList = .ok (Float.ofBits 0x3FF0000000000000) ∧
      readNumber "1e2".toList = .ok (Float.ofBits 0x4059000000000000) ∧
      Operator.add.apply (Float.ofBits 0x3FF0000000000000) (Float.ofBits 0x4059000000000000) =
        Float.ofBits 0x4059400000000000 ∧
      (reduce 64 0 "1+1e2".toList).outcome = .ok (Float.ofBits 0x4069000000000000)) ∧
    (readNumber "\u06631".toList = .ok (Float.ofBits 0x403F000000000000) ∧
      readNumber "2".toList = .ok (Float.ofBits 0x4000000000000000) ∧
      Operator.multiply.apply (Float.ofBits 0x403F000000000000) (Float.ofBits 0x4000000000000000) =
        Float.ofBits 0x404F000000000000 ∧
      (reduce 64 0 "\u06631*2".toList).outcome = .ok (Float.ofBits 0x4040000000000000)) ∧
    Float.ofBits 0x4069000000000000 ≠ Float.ofBits 0x4059400000000000 ∧
    Float.ofBits 0x4040000000000000 ≠ Float.ofBits 0x404F000000000000 := by
  decide +kernel

/-- Literals with a minus and with a point at an end have the value of their product, and after an
exponent there is none. -/
theorem reduce_literals_product :
    (0 : Int) ≤ 64 ∧
      readNumber "-1.5".toList = .ok (Float.ofBits 0xBFF8000000000000) ∧
      readNumber "5.".toList = .ok (Float.ofBits 0x4014000000000000) ∧
      (∀ c ∈ "-1.5".toList ++ "5.".toList, isOperandChar c = true) ∧
      (reduce 64 0 ("-1.5".toList ++ Operator.multiply.symbol :: "5.".toList)).outcome =
        .ok (Operator.multiply.apply (Float.ofBits 0xBFF8000000000000)
          (Float.ofBits 0x4014000000000000)) ∧
      Operator.add.KeptAfter "1e2".toList ∧
      ∃ e, (reduce 64 0 ("1e2".toList ++ Operator.add.symbol :: "5.".toList)).outcome = .error e := by
  have hminus : readNumber "-1.5".toList = .ok (Float.ofBits 0xBFF8000000000000) := by
    decide +kernel
  have hpoint : readNumber "5.".toList = .ok (Float.ofBits 0x4014000000000000) := by
    decide +kernel
  have hexponent : readNumber "1e2".toList = .ok (Float.ofBits 0x4059000000000000) := by
    decide +kernel
  have hall : ("-1.5".toList ++ "5.".toList).all isOperandChar = true := by decide +kernel
  have hchars : ∀ c ∈ "-1.5".toList ++ "5.".toList, isOperandChar c = true :=
    List.all_eq_true.1 hall
  have hkept : Operator.add.KeptAfter "1e2".toList := fun _ => by decide
  exact ⟨by decide, hminus, hpoint, hchars,
    (reduce_literals (by decide) hminus hpoint).1 hchars, hkept,
    (reduce_literals (by decide) hexponent hpoint).2.1 hkept (.inl (by decide))⟩

end FormulaPlot
