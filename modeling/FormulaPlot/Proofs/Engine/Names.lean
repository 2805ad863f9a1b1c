import FormulaPlot.Proofs.Engine.Work

/-!
# The names that are applied

A number that takes the place of a call may complete a name with the characters before it: `s` and
`inf` make `sin`, `log` and `10.0` make `log10`. The engine then finds the name, but never applies
it: every function that a reduction applies is called in its text (`calledIn_of_mem_notes`).

The reason is in how numbers are written. A name with a parenthesis after it does not reach into a
number from either side (`calledIn_of_splice`): no name ends before the number does, and none begins
as a number ends. Dropping unary pluses joins no name to a parenthesis either, as the only pluses
left to be dropped after a number took the place of a call stand behind a number
(`calledIn_of_dropUnaryPlus`).
-/

namespace FormulaPlot

/-! ## Names before parentheses -/

/-- The name of a function stands in a text with a parenthesis right after it. -/
def Builtin.CalledIn (f : Builtin) (t : Text) : Prop := f.symbol ++ ['('] <:+: t

namespace Builtin

variable {f : Builtin}

/-- What is called in a part of a text is called in the text. -/
theorem CalledIn.of_isInfix {u t : Text} (h : f.CalledIn u) (hu : u <:+: t) : f.CalledIn t :=
  List.IsInfix.trans h hu

/-- No name begins at a character of a number and ends after the number. -/
theorem not_reaches_past_number {before s u x v : Text} (hs : IsNumberText s)
    (hsymbol : f.symbol = x ++ v) (hx : x ≠ []) : before ++ s ≠ u ++ x := by
  intro h
  have hprefix : x <+: (Redex.call f).word := ⟨v, hsymbol.symm⟩
  rcases List.append_eq_append_iff.1 h with ⟨z, -, hs'⟩ | ⟨z, -, rfl⟩
  · -- The name begins within the number, which ends in a character with which no name goes on.
    obtain ⟨w, d, hw, hd⟩ := hs.exists_last
    obtain ⟨y, e, rfl⟩ := (List.eq_nil_or_concat' x).resolve_left hx
    obtain rfl : d = e := by
      rw [hw, ← List.append_assoc] at hs'
      simpa using congrArg List.getLast? hs'
    have hinert : ∀ c ∈ y ++ [d], Phrase.isInert c = true := fun c hc =>
      Phrase.isInert_of_isPlainChar (hs.isPlainChar (hs' ▸ List.mem_append_right z hc))
    rw [Phrase.endsNumber_of_isPrefix hprefix hinert] at hd
    cases hd
  · -- The name begins before the number and so has all of it.
    refine Phrase.not_isInfix_word (.call f) hs (List.IsInfix.trans ?_ hprefix.isInfix)
    exact (List.suffix_append z s).isInfix

/-- What is called in a text with a number in its middle is called on one side of the number. -/
theorem calledIn_of_splice {before s after : Text} (hs : IsNumberText s)
    (h : f.CalledIn (before ++ s ++ after)) : f.CalledIn before ∨ f.CalledIn after := by
  obtain ⟨u, w, h⟩ := h
  have hparen : '(' ∉ s := fun hc => absurd (hs.isPlainChar hc) (by decide)
  have htext : (u ++ f.symbol) ++ '(' :: w = before ++ s ++ after := by simpa using h
  -- The parenthesis stands after the number or before it, and the name ends there.
  rcases split_around htext hparen with ⟨v, hv, rfl⟩ | ⟨v, rfl, -⟩
  · right
    rcases List.append_eq_append_iff.1 hv with ⟨x, hx, hsymbol⟩ | ⟨x, -, rfl⟩
    · rcases List.eq_nil_or_concat' x with rfl | ⟨y, e, rfl⟩
      · rw [List.nil_append] at hsymbol
        exact ⟨[], w, by simp [hsymbol]⟩
      · exact absurd hx (not_reaches_past_number hs hsymbol (by simp))
    · exact ⟨x, w, by simp⟩
  · exact .inl ⟨u, v, by simp⟩

/-- Dropping unary pluses behind a text calls nothing new, if every plus follows an operand. -/
theorem calledIn_of_dropUnaryPlusAfter (pre t : Text) (h : Phrase.PlusAfter (pre ++ t))
    (hf : f.CalledIn (pre ++ dropUnaryPlusAfter pre.getLast? t)) : f.CalledIn (pre ++ t) := by
  induction t generalizing pre with
  | nil => exact hf
  | cons c t ih =>
    have hsnoc : pre ++ c :: t = pre ++ [c] ++ t := by simp
    have hlast : (pre ++ [c]).getLast? = some c := by simp
    rw [hsnoc] at h ⊢
    refine ih (pre ++ [c]) h ?_
    rw [hlast]
    rw [dropUnaryPlusAfter] at hf
    split at hf
    next hc =>
      obtain ⟨rfl, hdrop⟩ := hc
      rcases h pre t hsnoc.symm with hend | ⟨u, s, hs, rfl⟩
      · -- A plus after the end of an operand is dropped if it is the last character.
        obtain rfl : t = [] := hdrop.resolve_right (by rw [hend]; decide)
        rw [dropUnaryPlusAfter, List.append_nil] at hf ⊢
        exact hf.of_isInfix (List.prefix_append pre ['+']).isInfix
      · -- The plus follows a number, and the name does not reach over the number.
        rcases calledIn_of_splice hs hf with hu | ht
        · exact hu.of_isInfix ⟨[], s ++ '+' :: dropUnaryPlusAfter (some '+') t, by simp⟩
        · exact ht.of_isInfix (List.suffix_append _ _).isInfix
    next hc => simpa using hf

/-- Dropping unary pluses calls nothing new, if every plus follows an operand. -/
theorem calledIn_of_dropUnaryPlus {t : Text} (h : Phrase.PlusAfter t)
    (hf : f.CalledIn (dropUnaryPlus t)) : f.CalledIn t :=
  calledIn_of_dropUnaryPlusAfter [] t h hf

end Builtin

/-! ## Notes of runs -/

namespace Noted

variable {ν ε α β : Type} {Q : ν → Prop}

/-- What is true of every note of a run. -/
def Each (Q : ν → Prop) (x : Noted ν ε α) : Prop := ∀ s ∈ x.notes, Q s

/-- What leaves no notes leaves none that is otherwise. -/
theorem each_of_notes_eq_nil {x : Noted ν ε α} (h : x.notes = []) : x.Each Q := by
  intro s hs
  rw [h] at hs
  cases hs

/-- A note is all that is left by it. -/
theorem each_note {s : ν} (h : Q s) : (note s : Noted ν ε Unit).Each Q := by
  intro s' hs
  obtain rfl := List.mem_singleton.1 hs
  exact h

/-- A note of two parts is one of the first or of the second. -/
theorem Each.bind {x : Noted ν ε α} {f : α → Noted ν ε β} (hx : x.Each Q)
    (hf : ∀ a, (f a).Each Q) : (x >>= f).Each Q := by
  intro s hs
  cases h : x.outcome with
  | error e =>
    rw [notes_bind_of_error h] at hs
    exact hx s hs
  | ok a =>
    rw [notes_bind_of_ok h, List.mem_append] at hs
    exact hs.elim (hx s) (hf a s)

end Noted

variable {Q : Step → Prop}

/-- Applying an operator leaves notes of that only. -/
theorem each_applyOperator (hQ : ∀ left o right result, Q (.applied left o right result))
    (o : Operator) (t : Text) : (applyOperator o t).Each Q := by
  cases hsplit : splitAtChar? o.symbol t with
  | none =>
    rw [applyOperator_of_none hsplit]
    exact Noted.each_of_notes_eq_nil rfl
  | some parts =>
    obtain ⟨before, after⟩ := parts
    have htext := (eq_of_splitAtChar? hsplit).1
    rw [applyOperator_of_some hsplit]
    refine Noted.Each.bind (Noted.each_of_notes_eq_nil rfl) fun a => ?_
    refine Noted.Each.bind (Noted.each_of_notes_eq_nil rfl) fun b => ?_
    exact Noted.Each.bind (Noted.each_note (hQ _ _ _ _)) fun _ => each_applyOperator hQ o _
termination_by t.count o.symbol
decreasing_by
  -- One symbol less is left each time.
  rw [htext, ← count_step o before after (o.apply a b)]
  exact Nat.lt_succ_self _

/-- Applying operators leaves notes of that only. -/
theorem each_applyOperators (hQ : ∀ left o right result, Q (.applied left o right result))
    (os : List Operator) (t : Text) : (applyOperators os t).Each Q := by
  induction os generalizing t with
  | nil => exact Noted.each_of_notes_eq_nil rfl
  | cons o os ih => exact (each_applyOperator hQ o t).bind ih

/-! ## Functions that are applied -/

/-- Whether a step, if it applies a function, applies one that is called in a text. -/
def Step.CallsIn (t : Text) : Step → Prop
  | replaced (.call f) _ _ => f.CalledIn t
  | _ => True

/-- What is called in one text may be called in another. -/
theorem Step.CallsIn.imp {t u : Text} (h : ∀ f : Builtin, f.CalledIn t → f.CalledIn u) {s : Step}
    (hs : s.CallsIn t) : s.CallsIn u := by
  cases s with
  | replaced k inner result =>
    cases k with
    | call f => exact h f hs
    | group => trivial
  | _ => trivial

/-- A reduction applies what is called in its text without unary pluses, if its calls do. -/
theorem each_reduce_of_resolve {limit depth : Int} {t : Text}
    (h : (resolve limit depth Redex.all (dropUnaryPlus t)).Each (Step.CallsIn (dropUnaryPlus t))) :
    (reduce limit depth t).Each (Step.CallsIn (dropUnaryPlus t)) := by
  rw [reduce]
  refine Noted.Each.bind (Noted.each_note trivial) fun _ => ?_
  split
  · exact Noted.each_of_notes_eq_nil rfl
  · refine Noted.Each.bind (Noted.each_note trivial) fun _ => h.bind fun u => ?_
    refine (each_applyOperators (fun _ _ _ _ => trivial) _ _).bind fun w => ?_
    exact Noted.Each.bind (Noted.each_note trivial) fun _ => Noted.each_of_notes_eq_nil rfl

/-- Resolving calls applies what is called in the text, where every plus follows an operand. -/
theorem each_resolve {limit : Int} (depth : Int) (kinds : List Redex) (t : Text)
    (ht : Phrase.PlusAfter t) : (resolve limit depth kinds t).Each (Step.CallsIn t) := by
  induction depth, kinds, t using resolve_induction with
  | nil depth t =>
    rw [resolve]
    exact Noted.each_of_notes_eq_nil rfl
  | absent depth k ks t hk ih =>
    rw [resolve_of_none hk]
    exact ih ht
  | unclosed depth k ks t before rest e hk hg =>
    rw [resolve_of_error hk hg]
    exact Noted.each_of_notes_eq_nil rfl
  | call depth k ks t before rest inner after hk hg hinner hrest =>
    have htext := text_of_split hk hg
    have hplus := ht
    rw [htext] at hplus
    rw [resolve_of_ok hk hg]
    -- The group drops pluses of its own, which calls nothing new: they follow operands in it, too.
    have hin : (reduce limit (depth + 1) inner).Each (Step.CallsIn t) := fun s hs => by
      have hcalls := hinner (Phrase.plusAfter_dropUnaryPlus inner)
      refine (each_reduce_of_resolve hcalls s hs).imp fun f hf => ?_
      refine (Builtin.calledIn_of_dropUnaryPlus hplus.inner hf).of_isInfix ?_
      exact ⟨before ++ k.word ++ ['('], ')' :: after, by rw [htext]; simp⟩
    refine hin.bind fun v => Noted.Each.bind (Noted.each_note ?_) fun _ s hs => ?_
    · cases k with
      | call f => exact ⟨before, inner ++ ')' :: after, by rw [htext]; simp [Redex.word]⟩
      | group => trivial
    · -- In what follows the value stands between two parts of the text, and names are in these.
      have hnumber := isNumberText_plainText (k.apply v)
      refine (hrest (k.apply v) (hplus.splice hnumber) s hs).imp fun f hf => ?_
      rcases Builtin.calledIn_of_splice hnumber hf with hbefore | hafter
      · exact hbefore.of_isInfix ⟨[], k.word ++ '(' :: inner ++ ')' :: after, by rw [htext]; simp⟩
      · exact hafter.of_isInfix ⟨before ++ k.word ++ '(' :: inner ++ [')'], [], by rw [htext]; simp⟩

/-- Whatever function a reduction applies, in its own text or in that of a call at any depth, and
whether it then ends with a value or fails: the name stands in the text without its unary pluses,
with a parenthesis right after it. -/
theorem calledIn_of_mem_notes {limit depth : Int} {t inner result : Text} {f : Builtin}
    (h : .replaced (.call f) inner result ∈ (reduce limit depth t).notes) :
    f.symbol ++ ['('] <:+: dropUnaryPlus t :=
  each_reduce_of_resolve (each_resolve depth Redex.all _ (Phrase.plusAfter_dropUnaryPlus t)) _ h

/-- The root of infinity makes a sine of the letter before it. It is found without a group, and so
no sine is applied, but two roots are. -/
theorem calledIn_of_mem_notes_roots :
    let run := reduce 64 0 "sqrt(4)+ssqrt(1/0)".toList
    run.outcome = .error .missingGroup ∧
      .replaced (.call .sqrt) "4".toList "2.0".toList ∈ run.notes ∧
      Builtin.sqrt.symbol ++ ['('] <:+: dropUnaryPlus "sqrt(4)+ssqrt(1/0)".toList ∧
      ∀ inner result, .replaced (.call .sin) inner result ∉ run.notes := by
  have hmem : .replaced (.call .sqrt) "4".toList "2.0".toList ∈
      (reduce 64 0 "sqrt(4)+ssqrt(1/0)".toList).notes := by decide +kernel
  refine ⟨by decide +kernel, hmem, calledIn_of_mem_notes hmem, fun inner result hsin => ?_⟩
  have hcalled : Builtin.sin.symbol ++ ['('] <:+: dropUnaryPlus "sqrt(4)+ssqrt(1/0)".toList :=
    calledIn_of_mem_notes hsin
  revert hcalled
  decide +kernel

end FormulaPlot
