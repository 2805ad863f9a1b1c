import FormulaPlot.Proofs.Phrase.Reading

/-!
# Induction along the engine's loop

`resolve` calls itself on a text with a number in the place of a call, and through `reduce` on the
inside of that call. `resolve_induction` states once what such a loop proves: a property of all
texts and kinds follows from the four ways in which a turn of the loop can go. The later modules
apply it to what a run costs, to how deep it goes and to what two runs share.
-/

namespace FormulaPlot

/-- A call that is found stands in the text, its name before its parentheses. -/
theorem text_of_split {k : Redex} {t before rest inner after : Text}
    (h : k.split? t = some (before, rest)) (hg : splitGroup rest = .ok (inner, after)) :
    t = before ++ k.word ++ '(' :: inner ++ ')' :: after := by
  rw [Phrase.eq_of_split? h, eq_of_splitGroup hg]
  simp

/-- Where no group is found there is no opening parenthesis. -/
theorem notMem_of_split_group {t : Text} (h : Redex.group.split? t = none) : '(' ∉ t :=
  notMem_of_splitAtChar? (Option.map_eq_none_iff.1 h)

/-- There is none before the first group. -/
theorem notMem_before_of_split_group {t before rest : Text}
    (h : Redex.group.split? t = some (before, rest)) : '(' ∉ before := by
  obtain ⟨⟨b, a⟩, hb, he⟩ := Option.map_eq_some_iff.1 h
  obtain rfl : b = before := congrArg Prod.fst he
  exact (eq_of_splitAtChar? hb).2

/-- A call takes one parenthesis with it. -/
theorem openings_eq_of_split {k : Redex} {t before rest inner after : Text}
    (h : k.split? t = some (before, rest)) (hg : splitGroup rest = .ok (inner, after)) :
    openings t = openings before + openings inner + openings after + 1 := by
  have hword : k.word.count '(' = 0 :=
    List.count_eq_zero.2 fun hc => (Phrase.ne_of_mem_word k _ hc).1 rfl
  rw [text_of_split h hg]
  simp [openings, hword]
  omega

/-- Dropping unary pluses brings nothing new. -/
theorem sublist_dropUnaryPlus (t : Text) : (dropUnaryPlus t).Sublist t := by
  have after (q : Option Char) : (dropUnaryPlusAfter q t).Sublist t := by
    induction t generalizing q with
    | nil => exact List.Sublist.slnil
    | cons c t ih =>
      rw [dropUnaryPlusAfter]
      split
      · exact (ih _).cons c
      · exact (ih _).cons_cons c
  exact after none

/-- What holds of a text without kinds to resolve, and is handed on by every turn of the loop, holds
of all texts. -/
theorem resolve_induction {P : Int → List Redex → Text → Prop}
    (nil : ∀ depth t, P depth [] t)
    (absent : ∀ depth k ks t, k.split? t = none → P depth ks t → P depth (k :: ks) t)
    (unclosed : ∀ depth k ks t before rest e, k.split? t = some (before, rest) →
      splitGroup rest = .error e → P depth (k :: ks) t)
    (call : ∀ depth k ks t before rest inner after, k.split? t = some (before, rest) →
      splitGroup rest = .ok (inner, after) → P (depth + 1) Redex.all (dropUnaryPlus inner) →
      (∀ x, P depth (k :: ks) (before ++ plainText x ++ after)) → P depth (k :: ks) t)
    (depth : Int) (kinds : List Redex) (t : Text) : P depth kinds t := by
  -- The recursion is that of the engine: the kinds get fewer, or a parenthesis is gone.
  match kinds with
  | [] => exact nil depth t
  | k :: ks =>
    cases hk : k.split? t with
    | none =>
      exact absent depth k ks t hk (resolve_induction nil absent unclosed call depth ks t)
    | some parts =>
      obtain ⟨before, rest⟩ := parts
      cases hg : splitGroup rest with
      | error e => exact unclosed depth k ks t before rest e hk hg
      | ok parts =>
        obtain ⟨inner, after⟩ := parts
        exact call depth k ks t before rest inner after hk hg
          (resolve_induction nil absent unclosed call (depth + 1) Redex.all (dropUnaryPlus inner))
          fun x => resolve_induction nil absent unclosed call depth (k :: ks)
            (before ++ plainText x ++ after)
termination_by (openings t, kinds.length)
decreasing_by
  · exact Prod.Lex.right _ (Nat.lt_succ_self _)
  · -- The inside has fewer parentheses than the text, as it lacks its own.
    have := openings_eq_of_split hk hg
    have := openings_dropUnaryPlus inner
    exact Prod.Lex.left _ _ (by omega)
  · have := openings_eq_of_split hk hg
    -- The text of a number brings no parenthesis back.
    have := openings_plainText x
    refine Prod.Lex.left _ _ ?_
    simp only [openings, List.count_append] at *
    omega

end FormulaPlot
