import FormulaPlot.Proofs.Operator.Literals
import FormulaPlot.Proofs.Phrase.Inside

/-!
# Dropping unary pluses again

A nested reduction drops the unary pluses of a text that has lost its own before. Each plus that is
left the first time follows the end of an operand, so only one at the end of the text can go the
second time, and there is one only where the text ended in two pluses or more
(`dropUnaryPlus_stable`).

The pluses at the end of a text are looked at apart. The first of them stays if it follows the end
of an operand and is not the last one, and no other does (`dropUnaryPlus_append_replicate`).
-/

namespace FormulaPlot

/-- A text that ends in the end of an operand and two pluses or more after it. -/
def EndsInPluses (t : Text) : Prop :=
  ∃ u c n, endsOperand c = true ∧ t = u ++ c :: List.replicate (n + 2) '+'

/-! ## The pluses at the end -/

/-- A text is what is before the pluses at its end, and these pluses. -/
theorem exists_replicate_plus (t : Text) :
    ∃ s n, t = s ++ List.replicate n '+' ∧ s.getLast? ≠ some '+' := by
  induction t using List.reverseRecOn with
  | nil => exact ⟨[], 0, rfl, by simp⟩
  | append_singleton t c ih =>
    by_cases hc : c = '+'
    · obtain ⟨s, n, rfl, hs⟩ := ih
      exact ⟨s, n + 1, by rw [hc, List.append_assoc, List.replicate_succ'], hs⟩
    · exact ⟨t ++ [c], 0, by simp, by simpa using hc⟩

/-- Of pluses alone only the first can stay, which is dropped if it is the last. -/
theorem dropUnaryPlusAfter_replicate (q : Option Char) (n : Nat) :
    dropUnaryPlusAfter q (List.replicate n '+') =
      if 2 ≤ n ∧ q.any endsOperand = true then ['+'] else [] := by
  induction n generalizing q with
  | zero => rfl
  | succ n ih =>
    -- After a plus no other one stays, as no operand ends there.
    have hlater : dropUnaryPlusAfter (some '+') (List.replicate n '+') = [] := by
      rw [ih, if_neg]
      exact fun h => absurd h.2 (by decide)
    rw [List.replicate_succ, dropUnaryPlusAfter, hlater]
    cases n with
    | zero => simp
    | succ n => cases q.any endsOperand <;> simp

/-- Where pluses at the end of a text follow the end of an operand, the first one stays if it is not
the last one. -/
theorem dropUnaryPlus_append_replicate {s : Text} (hs : s.getLast? ≠ some '+') (n : Nat) :
    dropUnaryPlus (s ++ List.replicate n '+') =
      dropUnaryPlus s ++ if 2 ≤ n ∧ s.getLast?.any endsOperand = true then ['+'] else [] := by
  rw [dropUnaryPlus, dropUnaryPlusAfter_append_of_last hs, Option.or_none,
    dropUnaryPlusAfter_replicate, dropUnaryPlus]

/-- Without its unary pluses a text ends in a plus only if it ended in two pluses or more after the
end of an operand. -/
theorem getLast?_dropUnaryPlus_eq_plus {t : Text} :
    (dropUnaryPlus t).getLast? = some '+' ↔ EndsInPluses t := by
  constructor
  · intro hlast
    -- The pluses at the end are all that a plus at the end can come from.
    obtain ⟨s, n, rfl, hs⟩ := exists_replicate_plus t
    rw [dropUnaryPlus_append_replicate hs] at hlast
    split at hlast
    next h =>
      obtain ⟨hn, hoperand⟩ := h
      obtain ⟨c, hc, hend⟩ := (Option.any_eq_true _ _).1 hoperand
      obtain ⟨u, rfl⟩ := List.getLast?_eq_some_iff.1 hc
      refine ⟨u, c, n - 2, hend, ?_⟩
      rw [Nat.sub_add_cancel hn, List.append_assoc, List.singleton_append]
    next =>
      rw [List.append_nil, dropUnaryPlus, getLast?_dropUnaryPlusAfter hs] at hlast
      exact absurd hlast hs
  · rintro ⟨u, c, n, hend, rfl⟩
    have hc : (u ++ [c]).getLast? ≠ some '+' := by
      rw [List.getLast?_concat]
      rintro ⟨⟩
      cases hend
    have htext : u ++ c :: List.replicate (n + 2) '+' =
        (u ++ [c]) ++ List.replicate (n + 2) '+' := by
      rw [List.append_assoc, List.singleton_append]
    rw [htext, dropUnaryPlus_append_replicate hc, if_pos, List.getLast?_concat]
    exact ⟨Nat.le_add_left 2 n, by rwa [List.getLast?_concat]⟩

/-! ## The second time -/

/-- A text whose pluses follow operands and that does not end in one has no unary plus. -/
theorem dropUnaryPlusAfter_eq_self {q : Option Char} {t : Text} (hlast : t.getLast? ≠ some '+')
    (hplus : ∀ a b, t = a ++ '+' :: b → (a.getLast?.or q).any endsOperand = true) :
    dropUnaryPlusAfter q t = t := by
  induction t generalizing q with
  | nil => rfl
  | cons c t ih =>
    have hrest : dropUnaryPlusAfter (some c) t = t := by
      refine ih (fun h => ?_) fun a b hab => ?_
      · rw [List.getLast?_cons, h] at hlast
        exact hlast rfl
      · have hbefore := hplus (c :: a) b (congrArg (c :: ·) hab)
        rwa [getLast?_cons_or] at hbefore
    rw [dropUnaryPlusAfter, if_neg, hrest]
    rintro ⟨rfl, rfl | hq⟩
    · exact hlast rfl
    · have hfirst := hplus [] t rfl
      rw [List.getLast?_nil, Option.none_or, hq] at hfirst
      cases hfirst

/-- Without its unary pluses no text ends in two pluses. -/
theorem not_endsInPluses_dropUnaryPlus (t : Text) : ¬ EndsInPluses (dropUnaryPlus t) := by
  rintro ⟨u, c, n, -, htext⟩
  -- The last plus follows the one before it, which ends no operand.
  have hsplit : dropUnaryPlus t = (u ++ c :: List.replicate (n + 1) '+') ++ '+' :: [] := by
    rw [htext, List.replicate_succ', List.append_assoc, List.cons_append]
  have hbefore := Phrase.plusAfter_dropUnaryPlusAfter none t hsplit
  rw [List.replicate_succ', ← List.cons_append, ← List.append_assoc,
    List.getLast?_concat] at hbefore
  cases hbefore

/-- Dropping unary pluses again drops something only if a plus is left at the end. -/
theorem dropUnaryPlus_eq_self_iff (t : Text) :
    dropUnaryPlus (dropUnaryPlus t) = dropUnaryPlus t ↔ ¬ EndsInPluses t := by
  rw [← getLast?_dropUnaryPlus_eq_plus]
  constructor
  · intro h hlast
    rw [← h, getLast?_dropUnaryPlus_eq_plus] at hlast
    exact not_endsInPluses_dropUnaryPlus t hlast
  · exact fun hlast => dropUnaryPlusAfter_eq_self hlast fun a b hab =>
      Phrase.plusAfter_dropUnaryPlusAfter none t hab

/-! ## One more plus -/

/-- A plus that does not follow the end of an operand is dropped, and what is around it loses what
it loses without it. -/
theorem dropUnaryPlusAfter_insert {q : Option Char} {a b : Text} (hb : b ≠ [])
    (ha : (a.getLast?.or q).any endsOperand = false) :
    dropUnaryPlusAfter q (a ++ '+' :: b) = dropUnaryPlusAfter q (a ++ b) := by
  induction a generalizing q with
  | nil =>
    have hq : q.any endsOperand = false := ha
    rw [List.nil_append, List.nil_append, dropUnaryPlusAfter, if_pos ⟨rfl, .inr hq⟩]
    exact (dropUnaryPlusAfter_congr (hq.trans rfl) b).symm
  | cons c a ih =>
    rw [getLast?_cons_or] at ha
    have hrest := ih ha
    -- The end of the text is the same for the pluses before, so they go or stay as they did.
    have hwith : a ++ '+' :: b ≠ [] := by simp
    have hwithout : a ++ b ≠ [] := by simp [hb]
    rw [List.cons_append, List.cons_append, dropUnaryPlusAfter, dropUnaryPlusAfter, hrest]
    simp only [hwith, hwithout, false_or]

/-- The pluses that are left when unary ones are dropped follow ends of operands. Dropping unary
pluses again changes something only for texts that end in two pluses or more after the end of an
operand, and a third time changes nothing. A plus that is put where no operand ends, and not at the
end of the text, goes without a trace. -/
theorem dropUnaryPlus_stable (t : Text) :
    (∀ a b, dropUnaryPlus t = a ++ '+' :: b → ∃ u c, a = u ++ [c] ∧ endsOperand c = true) ∧
      (dropUnaryPlus (dropUnaryPlus t) = dropUnaryPlus t ↔ ¬ EndsInPluses t) ∧
      dropUnaryPlus (dropUnaryPlus (dropUnaryPlus t)) = dropUnaryPlus (dropUnaryPlus t) ∧
      ∀ a b, t = a ++ b → b ≠ [] → (∀ c ∈ a.getLast?, endsOperand c = false) →
        dropUnaryPlus (a ++ '+' :: b) = dropUnaryPlus t := by
  refine ⟨fun a b hab => ?_, dropUnaryPlus_eq_self_iff t,
    (dropUnaryPlus_eq_self_iff (dropUnaryPlus t)).2 (not_endsInPluses_dropUnaryPlus t), ?_⟩
  · have hbefore := Phrase.plusAfter_dropUnaryPlusAfter none t hab
    rw [Option.or_none] at hbefore
    obtain ⟨c, hc, hend⟩ := (Option.any_eq_true _ _).1 hbefore
    obtain ⟨u, rfl⟩ := List.getLast?_eq_some_iff.1 hc
    exact ⟨u, c, rfl, hend⟩
  · rintro a b rfl hb ha
    refine dropUnaryPlusAfter_insert hb ?_
    rw [Option.or_none, Option.any_eq_false]
    exact fun c hc => by simpa using ha c hc

/-- A plus after a multiplication or another plus goes, and pluses at the end go one at a time. -/
theorem dropUnaryPlus_stable_product :
    dropUnaryPlus "2*+3".toList = dropUnaryPlus "2*3".toList ∧
      dropUnaryPlus (dropUnaryPlus "1++".toList) ≠ dropUnaryPlus "1++".toList ∧
      (∃ u c, "2*3".toList = u ++ [c] ∧ endsOperand c = true) ∧
      dropUnaryPlus "2*3++4".toList = "2*3".toList ++ '+' :: ['4'] := by
  have hkept : dropUnaryPlus "2*3++4".toList = "2*3".toList ++ '+' :: ['4'] := by decide
  obtain ⟨-, -, -, hinsert⟩ := dropUnaryPlus_stable "2*3".toList
  obtain ⟨-, hagain, -⟩ := dropUnaryPlus_stable "1++".toList
  obtain ⟨hbefore, -⟩ := dropUnaryPlus_stable "2*3++4".toList
  exact ⟨hinsert ['2', '*'] ['3'] rfl (List.cons_ne_nil _ _) (fun c hc => by cases hc; rfl),
    fun h => hagain.1 h ⟨[], '1', 0, rfl, rfl⟩, hbefore _ _ hkept, hkept⟩

end FormulaPlot
