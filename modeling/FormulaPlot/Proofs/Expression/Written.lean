import FormulaPlot.Proofs.Expression.Basic
import FormulaPlot.Proofs.Operator.Pair

/-!
# Operands joined as they are written

When the calls of an expression have their values, a text of operands is left in which a hyphen may
stand for subtraction (`written`). The engine marks the hyphens between digits. If no operand
after a hyphen begins with a minus, this finds all of them, or else some operand is a name and the
text has no value (`finish_written`).
-/

namespace FormulaPlot

namespace Operand

/-- Operands with joints between them, as a text. -/
def written (a : Operand) (rest : List (Joint × Operand)) : Text :=
  a.text ++ rest.flatMap fun (j, b) => j.symbol :: b.text

/-- The operands with the operators that their joints mean. -/
def meant (rest : List (Joint × Operand)) : List (Operator × Operand) :=
  rest.map fun x => (x.1.meaning, x.2)

/-! ## Marking subtraction -/

/-- What has no minus stays. -/
theorem markBinaryMinusAfter_append {u : Text} (h : '-' ∉ u) (q : Option Char) (t : Text) :
    markBinaryMinusAfter q (u ++ t) = u ++ markBinaryMinusAfter (u.getLast?.or q) t := by
  induction u generalizing q with
  | nil => rfl
  | cons c u ih =>
    have hc : c ≠ '-' := fun hc => h (hc ▸ List.mem_cons_self)
    rw [List.cons_append, markBinaryMinusAfter.eq_def]
    simp only [if_neg hc]
    rw [ih fun hu => h (List.mem_cons_of_mem c hu), getLast?_cons_or]
    rfl

/-- An operand that does not follow a digit stays, and what follows it follows a digit. -/
theorem markBinaryMinusAfter_text {a : Operand} (ha : a.plain = true) {q : Option Char}
    (hq : q.any isAsciiDigit = false) (t : Text) :
    ∃ d, isAsciiDigit d = true ∧
      markBinaryMinusAfter q (a.text ++ t) = a.text ++ markBinaryMinusAfter (some d) t := by
  obtain ⟨s, body, hbody, htext⟩ := exists_signed ha
  obtain ⟨u, d, hlast, hd⟩ := hbody.exists_last
  obtain ⟨c, v, hhead, hc⟩ := hbody.exists_head
  refine ⟨d, hd, ?_⟩
  -- The digits have no minus, so the only one is the sign.
  have hstay (q : Option Char) :
      markBinaryMinusAfter q (body ++ t) = body ++ markBinaryMinusAfter (some d) t := by
    rw [markBinaryMinusAfter_append hbody.minus_notMem, hlast, List.getLast?_concat]
    rfl
  rw [htext]
  cases s with
  | false => exact hstay q
  | true =>
    have hsign : markBinaryMinusAfter q ('-' :: (body ++ t)) =
        '-' :: markBinaryMinusAfter (some '-') (body ++ t) := by
      rw [hhead, List.cons_append, markBinaryMinusAfter.eq_def]
      simp only [hq, Bool.false_and]
      rfl
    rw [signed, if_pos rfl, List.cons_append, hsign, hstay]
    rfl

/-- The character of a joint before a text once subtraction is marked: a hyphen before a minus is
not found. -/
def mark (j : Joint) (t : Text) : Char :=
  if j = .hyphen ∧ t.head? = some '-' then '-' else j.meaning.symbol

/-- A joint after a digit is marked if what follows begins with a digit. -/
theorem markBinaryMinusAfter_joint {j : Joint} {d c : Char} (hd : isAsciiDigit d = true)
    (hc : c = '-' ∨ isAsciiDigit c = true) (t : Text) :
    ∃ q, isAsciiDigit q = false ∧ markBinaryMinusAfter (some d) (j.symbol :: c :: t) =
      mark j (c :: t) :: markBinaryMinusAfter (some q) (c :: t) := by
  cases j with
  | hyphen =>
    refine ⟨'-', by decide, ?_⟩
    rw [Joint.symbol, markBinaryMinusAfter.eq_def]
    rcases hc with rfl | hc
    · have hminus : isAsciiDigit '-' = false := by decide
      simp [hminus, mark]
    · have hne : c ≠ '-' := by
        rintro rfl
        exact absurd hc (by decide)
      simp [hd, hc, hne, mark, Joint.meaning, Operator.symbol]
  | operator o =>
    have hne : o.symbol ≠ '-' := by cases o <;> decide
    refine ⟨o.symbol, by cases o <;> decide, ?_⟩
    rw [Joint.symbol, markBinaryMinusAfter.eq_def]
    simp [hne, mark, Joint.meaning]

/-- Joints and the operands after them, once subtraction is marked. -/
def marked (rest : List (Joint × Operand)) : Text :=
  rest.flatMap fun x => mark x.1 x.2.text :: x.2.text

/-- Operands joined as they are written, once subtraction is marked. -/
theorem markBinaryMinus_written {a : Operand} {rest : List (Joint × Operand)}
    (ha : a.plain = true) (hrest : ∀ x ∈ rest, x.2.plain = true) :
    markBinaryMinus (written a rest) = a.text ++ marked rest := by
  -- The induction needs what comes before each operand, which is a joint and no digit.
  have aux (q : Option Char) (hq : q.any isAsciiDigit = false) :
      markBinaryMinusAfter q (written a rest) = a.text ++ marked rest := by
    induction rest generalizing a q with
    | nil =>
      obtain ⟨d, -, h⟩ := markBinaryMinusAfter_text ha hq []
      exact h
    | cons x rest ih =>
      obtain ⟨j, b⟩ := x
      obtain ⟨hb, hrest⟩ := List.forall_mem_cons.1 hrest
      have hcons : written a ((j, b) :: rest) = a.text ++ j.symbol :: written b rest := by
        simp [written]
      obtain ⟨c, v, hbv, hc⟩ := exists_head hb
      obtain ⟨t, hbt⟩ : ∃ t, written b rest = c :: t := ⟨_, by rw [written, hbv]; rfl⟩
      obtain ⟨d, hd, hmark⟩ := markBinaryMinusAfter_text ha hq (j.symbol :: written b rest)
      obtain ⟨r, hr, hjoint⟩ := markBinaryMinusAfter_joint (j := j) hd hc t
      have hsame : mark j (c :: t) = mark j b.text := by rw [mark, mark, hbv]; rfl
      rw [hcons, hmark, hbt, hjoint, hsame, ← hbt, ih hb hrest (some r) (by simpa using hr)]
      simp [marked]
  exact aux none rfl

/-- Every hyphen between operands is marked if none is followed by another. -/
theorem markBinaryMinus_joined {a : Operand} {rest : List (Joint × Operand)}
    (ha : a.plain = true) (hrest : ∀ x ∈ rest, x.2.plain = true)
    (hhyphen : ∀ x ∈ rest, x.1 = .hyphen → x.2.text.head? ≠ some '-') :
    markBinaryMinus (written a rest) = joined a (meant rest) := by
  rw [markBinaryMinus_written ha hrest, joined, meant, marked, List.flatMap_map]
  congr 1
  refine List.flatMap_congr fun x hx => ?_
  have hmark : mark x.1 x.2.text = x.1.meaning.symbol :=
    if_neg fun h => hhyphen x hx h.1 h.2
  exact congrArg (· :: x.2.text) hmark

/-! ## Names among operands -/

/-- What counts in an operand: all letters of a name, or a digit. -/
theorem counts (a : Operand) : (a.plain = false → 3 ≤ a.text.countP isNameLetter) ∧
    1 ≤ a.text.countP isNameLetter + a.text.countP isAsciiDigit := by
  rcases a.shape with ⟨hplain, s, body, hbody, htext⟩ | ⟨-, hname⟩
  · refine ⟨fun h => (by rw [hplain] at h; cases h), ?_⟩
    obtain ⟨c, u, hhead, hc⟩ := hbody.exists_head
    have hpos : 0 < a.text.countP isAsciiDigit := by
      refine List.countP_pos_iff.2 ⟨c, ?_, hc⟩
      rw [htext, hhead]
      cases s <;> simp [signed]
    omega
  · have hall : ∀ t ∈ Literal.names, t.countP isNameLetter = 3 := by decide
    have := hall _ hname
    omega

/-- Operands joined count as they do alone. -/
theorem counts_written (a : Operand) (rest : List (Joint × Operand)) :
    (written a rest).countP isNameLetter =
      a.text.countP isNameLetter + (rest.map fun x => x.2.text.countP isNameLetter).sum ∧
    (written a rest).countP isAsciiDigit =
      a.text.countP isAsciiDigit + (rest.map fun x => x.2.text.countP isAsciiDigit).sum := by
  have hjoint (j : Joint) : isNameLetter j.symbol = false ∧ isAsciiDigit j.symbol = false := by
    cases j with
    | hyphen => decide
    | operator o => cases o <;> decide
  induction rest with
  | nil => simp [written]
  | cons x rest ih =>
    have hj := hjoint x.1
    simp only [written, List.countP_append, List.flatMap_cons, List.countP_cons, hj.1, hj.2] at ih ⊢
    simp only [List.map_cons, List.sum_cons]
    constructor <;> simp <;> omega

/-- Operands joined are crowded if one of them is a name. -/
theorem crowded_written {a : Operand} {rest : List (Joint × Operand)} (hne : rest ≠ [])
    (hname : a.plain = false ∨ ∃ x ∈ rest, x.2.plain = false) : Crowded (written a rest) := by
  obtain ⟨hletters, hdigits⟩ := counts_written a rest
  unfold Crowded
  rw [hletters, hdigits]
  obtain ⟨ha3, ha1⟩ := a.counts
  have hsum : 1 ≤ (rest.map fun x => x.2.text.countP isNameLetter).sum +
      (rest.map fun x => x.2.text.countP isAsciiDigit).sum := by
    obtain ⟨x, rest, rfl⟩ := List.exists_cons_of_ne_nil hne
    have := x.2.counts.2
    simp only [List.map_cons, List.sum_cons]
    omega
  rcases hname with h | ⟨x, hx, h⟩
  · have := ha3 h
    omega
  · have h3 := x.2.counts.1 h
    have hle : x.2.text.countP isNameLetter ≤
        (rest.map fun x => x.2.text.countP isNameLetter).sum :=
      List.le_sum_of_mem (List.mem_map.2 ⟨x, hx, rfl⟩)
    omega

/-- A name alone has no subtraction. -/
theorem markBinaryMinus_text (a : Operand) : markBinaryMinus a.text = a.text := by
  cases hplain : a.plain with
  | true =>
    have hmark : markBinaryMinus (written a []) = joined a (meant []) :=
      markBinaryMinus_joined hplain (by simp) (by simp)
    simpa [written, joined, meant] using hmark
  | false =>
    have hname := (a.shape.resolve_left fun h => by
      rw [hplain] at h
      exact absurd h.1 Bool.noConfusion).2
    have hall : ∀ t ∈ Literal.names, markBinaryMinus t = t := by decide
    exact hall _ hname

/-- Operands that are joined have no value if one of them is a name. -/
theorem finish_written_of_name {a : Operand} {rest : List (Joint × Operand)} (hne : rest ≠ [])
    (hname : a.plain = false ∨ ∃ x ∈ rest, x.2.plain = false) : finish (written a rest) = none :=
  Option.eq_none_iff_forall_ne_some.2 fun _ hv =>
    not_crowded_of_finish hv (crowded_written hne hname)

/-- Operands that are written without a minus after a hyphen have the value of their levels. -/
theorem finish_written {a : Operand} {rest : List (Joint × Operand)}
    (hhyphen : ∀ x ∈ rest, x.1 = .hyphen → x.2.text.head? ≠ some '-') :
    finish (written a rest) =
      (levels combine? Operator.all a (meant rest)).map fun x => x.1.value := by
  by_cases hplain : a.plain = true ∧ ∀ x ∈ rest, x.2.plain = true
  · exact finish_of_markBinaryMinus (markBinaryMinus_joined hplain.1 hplain.2 hhyphen)
  by_cases hne : rest = []
  · subst hne
    apply finish_of_markBinaryMinus
    simpa [written, joined, meant] using markBinaryMinus_text a
  · have hname : a.plain = false ∨ ∃ x ∈ rest, x.2.plain = false := by
      by_contra h
      push Not at h
      exact hplain ⟨by simpa using h.1, fun x hx => by simpa using h.2 x hx⟩
    have hnone : levels combine? Operator.all a (meant rest) = none := by
      refine levels_of_name (by simpa [meant] using hne) (hname.imp_right ?_)
      rintro ⟨x, hx, h⟩
      exact ⟨(x.1.meaning, x.2), List.mem_map.2 ⟨x, hx, rfl⟩, h⟩
    rw [hnone, Option.map_none, finish_written_of_name hne hname]

end Operand

end FormulaPlot
