import FormulaPlot.Proofs.Expression.Written
import FormulaPlot.Proofs.Number.Automaton

/-!
# Texts that differ in their numbers

Two runs of the engine on one formula have texts that differ in the numbers spliced into them. What
the engine sees of a number is its `outline`: a name as it is, and of a finite number that it is one
and perhaps its sign. Texts are `Alike` if they are the same but for finite numbers in them, and
every step on a text without calls keeps them so: marking subtraction, splitting at an operator,
taking the operands beside it, putting a number for them, dropping pairs of minuses. At the end both
are read as numbers or neither is (`Alike.read`).

A sign that differs is a harder case than digits that differ. It makes no difference only where
nothing before the number goes on into it, which the flag of `Alike` tells.
-/

namespace FormulaPlot

open DecimalDigit Operand

/-- Digits on both sides of a point. -/
def IsNumeral (t : Text) : Prop :=
  ∃ whole fraction, IsDigits whole ∧ IsDigits fraction ∧ t = whole ++ '.' :: fraction

/-- What a run sees of a number: a name as it is, and of a finite number its point, with its sign if
signs count. -/
def outline (signs : Bool) (t : Text) : Text :=
  if '.' ∈ t then t.filter fun c => c = '.' || (signs && c = '-') else t

/-- Two numbers that look the same. -/
structure Similar (signs : Bool) (s s' : Text) : Prop where
  left : IsNumberText s
  right : IsNumberText s'
  outline_eq : outline signs s = outline signs s'

namespace IsNumeral

variable {t : Text}

/-- A numeral is an unsigned number. -/
theorem isUnsigned (h : IsNumeral t) : IsUnsigned t := by
  obtain ⟨whole, fraction, hw, hf, rfl⟩ := h
  exact .point hw hf

/-- A numeral is made of characters of operands. -/
theorem operandChar (h : IsNumeral t) {c : Char} (hc : c ∈ t) : isOperandChar c = true := by
  rcases h.isUnsigned.mem hc with hc | rfl
  · rw [isOperandChar, hc]
    rfl
  · rfl

/-- A numeral with a sign is made of characters of operands. -/
theorem operandChar_signed (h : IsNumeral t) {s : Bool} {c : Char} (hc : c ∈ signed s t) :
    isOperandChar c = true := by
  cases s with
  | false => exact h.operandChar hc
  | true =>
    rcases List.mem_cons.1 hc with rfl | hc
    · rfl
    · exact h.operandChar hc

/-- The last character of a numeral is a digit. -/
theorem exists_getLast? (h : IsNumeral t) : ∃ c, t.getLast? = some c ∧ isAsciiDigit c = true := by
  obtain ⟨u, c, rfl, hc⟩ := h.isUnsigned.exists_last
  exact ⟨c, List.getLast?_concat, hc⟩

/-- The last character of a numeral with a sign is a digit. -/
theorem exists_getLast?_signed (h : IsNumeral t) (s : Bool) :
    ∃ c, (signed s t).getLast? = some c ∧ isAsciiDigit c = true := by
  obtain ⟨c, hc, hdigit⟩ := h.exists_getLast?
  refine ⟨c, ?_, hdigit⟩
  cases s with
  | false => exact hc
  | true => rw [signed, if_pos rfl, List.getLast?_cons, hc]; rfl

end IsNumeral

/-- The outline of a finite number is its point and perhaps its sign. -/
theorem outline_signed {signs s : Bool} {t : Text} (h : IsNumeral t) :
    outline signs (signed s t) = signed (signs && s) ['.'] := by
  obtain ⟨whole, fraction, hw, hf, rfl⟩ := h
  have hdigits {u : Text} (hu : IsDigits u) :
      u.filter (fun c => c = '.' || (signs && c = '-')) = [] :=
    List.filter_eq_nil_iff.2 fun c hc => by
      have hdigit := hu.2 c hc
      have hpoint : c ≠ '.' := by rintro rfl; exact absurd hdigit (by decide)
      have hminus : c ≠ '-' := by rintro rfl; exact absurd hdigit (by decide)
      simp [hpoint, hminus]
  have hbody :
      (whole ++ '.' :: fraction).filter (fun c => c = '.' || (signs && c = '-')) = ['.'] := by
    simp [hdigits hw, hdigits hf]
  cases s with
  | false =>
    rw [signed, if_neg Bool.false_ne_true, outline, if_pos (by simp), hbody, Bool.and_false]
    rfl
  | true =>
    rw [signed, if_pos rfl, outline, if_pos (by simp), List.filter_cons, hbody]
    cases signs <;> rfl

/-- Numbers that look the same are one name, or finite and of one sign if signs count. -/
theorem Similar.cases {signs : Bool} {s s' : Text} (h : Similar signs s s') :
    (s = s' ∧ s ∈ Literal.names) ∨ ∃ b b' t t', IsNumeral t ∧ IsNumeral t' ∧ s = signed b t ∧
      s' = signed b' t' ∧ (b = b' ∨ signs = false) := by
  have hcases {u : Text} (hu : IsNumberText u) : u ∈ Literal.names ∧ outline signs u = u ∨
      ∃ b t, IsNumeral t ∧ u = signed b t ∧ outline signs u = signed (signs && b) ['.'] := by
    cases hu with
    | nan => exact .inl ⟨by decide, rfl⟩
    | infinite b => exact .inl ⟨by cases b <;> decide, by cases b <;> rfl⟩
    | @finite b whole fraction hw hf =>
      have hnumeral : IsNumeral (whole ++ '.' :: fraction) := ⟨_, _, hw, hf, rfl⟩
      exact .inr ⟨b, _, hnumeral, rfl, outline_signed hnumeral⟩
  -- A name has other letters than a point and a sign.
  have hpoint {u : Text} (hu : u ∈ Literal.names) (b : Bool) : u ≠ signed b ['.'] := by
    have hall : ∀ u ∈ Literal.names, ∀ b, u ≠ signed b ['.'] := by decide
    exact hall u hu b
  rcases hcases h.left with ⟨hname, heq⟩ | ⟨b, t, ht, rfl, heq⟩ <;>
    rcases hcases h.right with ⟨hname', heq'⟩ | ⟨b', t', ht', rfl, heq'⟩
  · exact .inl ⟨heq.symm.trans (h.outline_eq.trans heq'), hname⟩
  · exact absurd (heq.symm.trans (h.outline_eq.trans heq')) (hpoint hname _)
  · exact absurd (heq'.symm.trans (h.outline_eq.symm.trans heq)) (hpoint hname' _)
  · refine .inr ⟨b, b', t, t', ht, ht', rfl, rfl, ?_⟩
    have := heq.symm.trans (h.outline_eq.trans heq')
    revert this
    cases signs <;> cases b <;> cases b' <;> decide

/-- Numbers that look the same end in the same way. -/
theorem Similar.getLast? {signs : Bool} {s s' : Text} (h : Similar signs s s') :
    ∃ c c', s.getLast? = some c ∧ s'.getLast? = some c' ∧
      (isAsciiDigit c = true ∧ isAsciiDigit c' = true ∨ c = c' ∧ isNameLetter c = true) := by
  rcases h.cases with ⟨rfl, hname⟩ | ⟨b, b', t, t', ht, ht', rfl, rfl, -⟩
  · have hall : ∀ u ∈ Literal.names, u.getLast?.any isNameLetter = true := by decide
    have := hall s hname
    cases hs : s.getLast? with
    | none => rw [hs] at this; cases this
    | some c =>
      rw [hs] at this
      exact ⟨c, c, rfl, rfl, .inr ⟨rfl, this⟩⟩
  · obtain ⟨c, hc, hdigit⟩ := ht.exists_getLast?_signed b
    obtain ⟨c', hc', hdigit'⟩ := ht'.exists_getLast?_signed b'
    exact ⟨c, c', hc, hc', .inl ⟨hdigit, hdigit'⟩⟩

/-! ## Texts that look the same -/

/-- Whether no digit of another script stands in for one of formulas. -/
def isPlainDigit (c : Char) : Bool := !isDecimal c || isAsciiDigit c

/-- Two texts that are the same but for finite numbers in them. The flag says whether what is before
them goes on into a number that they may begin with. Signs differ only if they do not count and the
flag is not set. -/
inductive Alike (signs : Bool) : Bool → Text → Text → Prop where
  | nil (b : Bool) : Alike signs b [] []
  | char (b : Bool) {c : Char} (hc : signs = true ∨ isPlainDigit c = true) {t t' : Text}
    (h : Alike signs (isOperandChar c) t t') : Alike signs b (c :: t) (c :: t')
  | number (b : Bool) {n n' : Text} (hn : IsNumeral n) (hn' : IsNumeral n') {t t' : Text}
    (h : Alike signs true t t') : Alike signs b (n ++ t) (n' ++ t')
  | anySign (hsigns : signs = false) (s s' : Bool) {n n' : Text} (hn : IsNumeral n)
    (hn' : IsNumeral n') {t t' : Text} (h : Alike signs true t t') :
    Alike signs false (signed s n ++ t) (signed s' n' ++ t')

namespace Alike

variable {signs b : Bool} {t t' u u' : Text}

/-- What looks the same after anything looks the same where nothing goes on. -/
theorem weaken (h : Alike signs b t t') : Alike signs false t t' := by
  cases h with
  | nil => exact .nil _
  | char _ hc h => exact .char _ hc h
  | number _ hn hn' h => exact .number _ hn hn' h
  | anySign hs s s' hn hn' h => exact .anySign hs s s' hn hn' h

/-- What looks the same after a character of operands looks the same after anything. -/
theorem weaken_true (h : Alike signs true t t') (b : Bool) : Alike signs b t t' := by
  cases b
  · exact h.weaken
  · exact h

/-- Two texts that look the same are both empty or neither is. -/
theorem eq_nil_iff (h : Alike signs b t t') : t = [] ↔ t' = [] := by
  have hne {n : Text} (hn : IsNumeral n) : n ≠ [] := by
    obtain ⟨c, u, rfl, -⟩ := hn.isUnsigned.exists_head
    exact List.cons_ne_nil _ _
  have hsigned {n : Text} (hn : IsNumeral n) (s : Bool) : signed s n ≠ [] := by
    cases s
    · exact hne hn
    · exact List.cons_ne_nil _ _
  cases h with
  | nil => exact Iff.rfl
  | char _ hc h => simp
  | number _ hn hn' h => simp [hne hn, hne hn']
  | anySign hs s s' hn hn' h => simp [hsigned hn, hsigned hn']

/-- The same characters in front of texts that look the same. -/
theorem chars {c : Char} {v : Text} (hv : signs = true ∨ ∀ d ∈ v ++ [c], isPlainDigit d = true)
    (h : Alike signs (isOperandChar c) t t') (b : Bool) :
    Alike signs b (v ++ [c] ++ t) (v ++ [c] ++ t') := by
  -- Only the last character decides whether something goes on into what follows.
  induction v generalizing b with
  | nil => exact .char b (hv.imp_right fun hv => hv c (by simp)) h
  | cons d v ih =>
    refine .char b (hv.imp_right fun hv => hv d (by simp)) (ih (hv.imp_right fun hv e he => ?_) _)
    exact hv e (List.mem_cons_of_mem d he)

/-- Numbers that look the same in front of texts that look the same. -/
theorem of_similar {s s' : Text} (hs : Similar signs s s')
    (h : Alike signs (s.getLast?.any isOperandChar) t t') (hb : signs = true ∨ b = false) :
    Alike signs b (s ++ t) (s' ++ t') := by
  rcases hs.cases with ⟨rfl, hname⟩ | ⟨v, v', n, n', hn, hn', rfl, rfl, hsign⟩
  · have hall : ∀ u ∈ Literal.names, u.all isPlainDigit = true ∧ u ≠ [] := by decide +kernel
    obtain ⟨hplain, hne⟩ := hall s hname
    obtain ⟨v, c, rfl⟩ := (List.eq_nil_or_concat' s).resolve_left hne
    rw [List.getLast?_concat] at h
    exact chars (.inr fun c => List.all_eq_true.1 hplain c) h b
  · obtain ⟨c, hlast, hdigit⟩ := hn.exists_getLast?_signed v
    have hop : isOperandChar c = true := by rw [isOperandChar, hdigit]; rfl
    rw [hlast, Option.any_some, hop] at h
    -- Where signs count the two have the same one; where they do not, nothing may go on into them.
    cases signs with
    | false =>
      obtain rfl := hb.resolve_left Bool.false_ne_true
      exact .anySign rfl v v' hn hn' h
    | true =>
      obtain rfl := hsign.resolve_right (Ne.symm Bool.false_ne_true)
      cases v with
      | false => exact .number b hn hn' h
      | true => exact .char b (.inl rfl) (.number _ hn hn' h)

/-! ## Signs -/

/-- After a minus, texts that look the same begin with digits or not. -/
theorem head?_any (h : Alike signs true t t') :
    t.head?.any isAsciiDigit = t'.head?.any isAsciiDigit := by
  have hhead {n : Text} (hn : IsNumeral n) (t : Text) : (n ++ t).head?.any isAsciiDigit = true := by
    obtain ⟨c, u, rfl, hc⟩ := hn.isUnsigned.exists_head
    exact hc
  cases h with
  | nil => rfl
  | char _ hc h => rfl
  | number _ hn hn' h => rw [hhead hn, hhead hn']

/-- A minus is marked or kept by what is before and after it. -/
theorem markBinaryMinusAfter_minus (q : Option Char) (t : Text) :
    markBinaryMinusAfter q ('-' :: t) =
      if t = [] then []
      else (if q.any isAsciiDigit && t.head?.any isAsciiDigit then binaryMinus else '-') ::
        markBinaryMinusAfter (some '-') t := by
  cases t <;> rfl

/-- A signed numeral that follows no digit stays. -/
theorem markBinaryMinusAfter_signed {q : Option Char} (hq : q.any isAsciiDigit = false) (s : Bool)
    {n : Text} (hn : IsNumeral n) (t : Text) :
    markBinaryMinusAfter q (signed s n ++ t) =
      signed s n ++ markBinaryMinusAfter n.getLast? t := by
  obtain ⟨c, hlast, -⟩ := hn.exists_getLast?
  have happend (q : Option Char) :
      markBinaryMinusAfter q (n ++ t) = n ++ markBinaryMinusAfter n.getLast? t := by
    rw [Operand.markBinaryMinusAfter_append hn.isUnsigned.minus_notMem, hlast]
    rfl
  cases s with
  | false => exact happend q
  | true =>
    obtain ⟨d, u, hu, -⟩ := hn.isUnsigned.exists_head
    have hne : n ++ t ≠ [] := by rw [hu]; exact List.cons_ne_nil _ _
    change markBinaryMinusAfter q ('-' :: (n ++ t)) = _
    rw [markBinaryMinusAfter_minus, if_neg hne, hq, happend]
    rfl

/-- Marking subtraction keeps texts that look the same so. -/
theorem markAfter (h : Alike signs b t t') {q q' : Option Char}
    (hq : q.any isAsciiDigit = q'.any isAsciiDigit) (hb : b = false → q.any isAsciiDigit = false) :
    Alike signs b (markBinaryMinusAfter q t) (markBinaryMinusAfter q' t') := by
  -- The induction carries that the characters before are both digits or both none.
  induction h generalizing q q' with
  | nil b => exact .nil b
  | @char b c hc t t' h ih =>
    -- A minus is marked by what is around it, which is the same in both texts.
    by_cases hm : c = '-'
    · subst hm
      rw [markBinaryMinusAfter_minus, markBinaryMinusAfter_minus, ← hq, ← h.head?_any]
      have hrest : Alike signs (isOperandChar '-') (markBinaryMinusAfter (some '-') t)
          (markBinaryMinusAfter (some '-') t') := ih rfl fun h => absurd h (by decide)
      by_cases ht : t = []
      · rw [if_pos ht, if_pos (h.eq_nil_iff.1 ht)]
        exact .nil b
      · rw [if_neg ht, if_neg (mt h.eq_nil_iff.2 ht)]
        split
        · exact .char b (.inr (by decide +kernel)) hrest.weaken
        · exact .char b hc hrest
    · rw [markBinaryMinusAfter.eq_def, markBinaryMinusAfter.eq_def]
      simp only [if_neg hm]
      refine .char b hc (ih rfl fun hop => ?_)
      simp only [isOperandChar, Bool.or_eq_false_iff] at hop
      exact hop.1.1
  | number b hn hn' h ih =>
    obtain ⟨c, hc, hdigit⟩ := hn.exists_getLast?
    obtain ⟨c', hc', hdigit'⟩ := hn'.exists_getLast?
    rw [Operand.markBinaryMinusAfter_append hn.isUnsigned.minus_notMem,
      Operand.markBinaryMinusAfter_append hn'.isUnsigned.minus_notMem, hc, hc']
    exact .number b hn hn' (ih (by simp [hdigit, hdigit']) fun h => absurd h (by decide))
  | anySign hs s s' hn hn' h ih =>
    obtain ⟨c, hc, hdigit⟩ := hn.exists_getLast?
    obtain ⟨c', hc', hdigit'⟩ := hn'.exists_getLast?
    rw [markBinaryMinusAfter_signed (hb rfl) s hn, markBinaryMinusAfter_signed (hq ▸ hb rfl) s' hn',
      hc, hc']
    exact .anySign hs s s' hn hn' (ih (by simp [hdigit, hdigit']) fun h => absurd h (by decide))

/-- Marking subtraction keeps texts that look the same so. -/
theorem mark (h : Alike signs false t t') :
    Alike signs false (markBinaryMinus t) (markBinaryMinus t') :=
  h.markAfter rfl fun _ => rfl

/-- After a minus, another one stands in both of two texts that look the same or in neither. -/
theorem head_minus (h : Alike signs true t t') :
    (∃ u u', t = '-' :: u ∧ t' = '-' :: u' ∧ Alike signs true u u') ∨
      t.head? ≠ some '-' ∧ t'.head? ≠ some '-' := by
  have hhead {n : Text} (hn : IsNumeral n) (t : Text) : (n ++ t).head? ≠ some '-' := by
    obtain ⟨c, u, rfl, hc⟩ := hn.isUnsigned.exists_head
    intro he
    obtain rfl := Option.some.inj he
    exact absurd hc (by decide)
  cases h with
  | nil => exact .inr ⟨nofun, nofun⟩
  | @char _ c hc t t' h =>
    by_cases hm : c = '-'
    · subst hm
      exact .inl ⟨t, t', rfl, rfl, h⟩
    · exact .inr ⟨by simpa using hm, by simpa using hm⟩
  | number _ hn hn' h => exact .inr ⟨hhead hn _, hhead hn' _⟩

/-- A character before no minus is in no pair. -/
theorem cancelMinusPairs_cons (c : Char) {t : Text} (ht : t.head? ≠ some '-') :
    cancelMinusPairs (c :: t) = c :: cancelMinusPairs t := by
  cases t with
  | nil => rfl
  | cons d t => rw [cancelMinusPairs, if_neg fun h => ht (by rw [h.2]; rfl)]

/-- A signed numeral is in no pair. -/
theorem cancelMinusPairs_signed (s : Bool) {n : Text} (hn : IsNumeral n) (t : Text) :
    cancelMinusPairs (signed s n ++ t) =
      signed s n ++ cancelMinusPairs t := by
  have happend := cancelMinusPairs_append hn.isUnsigned.minus_notMem t
  cases s with
  | false => exact happend
  | true =>
    obtain ⟨c, u, hu, hc⟩ := hn.isUnsigned.exists_head
    have hhead : (n ++ t).head? ≠ some '-' := by
      rw [hu]
      rintro h
      obtain rfl := Option.some.inj h
      exact absurd hc (by decide)
    change cancelMinusPairs ('-' :: (n ++ t)) = _
    rw [cancelMinusPairs_cons '-' hhead, happend]
    rfl

/-- Dropping pairs of minuses keeps texts that look the same so. -/
theorem cancel (h : Alike signs b t t') :
    Alike signs b (cancelMinusPairs t) (cancelMinusPairs t') := by
  -- A pair takes two characters away, so the induction is on the length.
  induction hlength : t.length using Nat.strong_induction_on generalizing b t t' with
  | h length ih =>
    subst hlength
    cases h with
    | nil => exact .nil b
    | @char _ c hc t t' h =>
      have hrest := ih t.length (Nat.lt_succ_self _) h rfl
      by_cases hm : c = '-'
      · subst hm
        -- The next character is a minus in both texts or in neither.
        rcases h.head_minus with ⟨u, u', rfl, rfl, hu⟩ | ⟨hne, hne'⟩
        · -- The pair goes, and what is after a minus is alike after anything.
          have hpair := ih u.length (by simp) hu rfl
          exact hpair.weaken_true b
        · rw [cancelMinusPairs_cons _ hne, cancelMinusPairs_cons _ hne']
          exact .char b hc hrest
      · have hmem : '-' ∉ [c] := by simpa using Ne.symm hm
        have happend (t : Text) : cancelMinusPairs (c :: t) = c :: cancelMinusPairs t :=
          cancelMinusPairs_append hmem t
        rw [happend, happend]
        exact .char b hc hrest
    | @number _ n n' hn hn' t t' h =>
      have hpos : 0 < n.length := by
        obtain ⟨c, u, rfl, -⟩ := hn.isUnsigned.exists_head
        exact Nat.succ_pos _
      rw [cancelMinusPairs_append hn.isUnsigned.minus_notMem,
        cancelMinusPairs_append hn'.isUnsigned.minus_notMem]
      exact .number b hn hn' (ih t.length (by rw [List.length_append]; omega) h rfl)
    | @anySign hs s s' n n' hn hn' t t' h =>
      have hpos : 0 < (signed s n).length := by
        obtain ⟨c, u, rfl, -⟩ := hn.isUnsigned.exists_head
        cases s <;> exact Nat.succ_pos _
      rw [cancelMinusPairs_signed s hn, cancelMinusPairs_signed s' hn']
      exact .anySign hs s s' hn hn' (ih t.length (by rw [List.length_append]; omega) h rfl)

/-! ## Operands -/

/-- A character is found in both of two texts, between parts that look the same, or in neither. -/
def Splits (signs b : Bool) (c : Char) (t t' : Text) : Prop :=
  (splitAtChar? c t = none ∧ splitAtChar? c t' = none) ∨
    ∃ u v u' v', splitAtChar? c t = some (u, v) ∧ splitAtChar? c t' = some (u', v') ∧
      Alike signs b u u' ∧ Alike signs false v v'

/-- What has not the character goes in front of the first part. -/
theorem Splits.append {r : Bool} {c : Char} {x x' : Text} (h : Splits signs r c t t') (hx : c ∉ x)
    (hx' : c ∉ x') (hfront : ∀ {u u'}, Alike signs r u u' → Alike signs b (x ++ u) (x' ++ u')) :
    Splits signs b c (x ++ t) (x' ++ t') := by
  rw [Splits, splitAtChar?_append hx, splitAtChar?_append hx']
  rcases h with ⟨h, h'⟩ | ⟨u, v, u', v', h, h', hu, hv⟩
  · exact .inl ⟨by rw [h]; rfl, by rw [h']; rfl⟩
  · exact .inr ⟨x ++ u, v, x' ++ u', v', by rw [h]; rfl, by rw [h']; rfl, hfront hu, hv⟩

/-- A character that no number has is found in both of two texts that look the same, between parts
that look the same, or in neither. -/
theorem split (h : Alike signs b t t') {c : Char} (hc : isOperandChar c = false) :
    Splits signs b c t t' := by
  have hnotMem {n : Text} (hn : IsNumeral n) (s : Bool) : c ∉ signed s n := fun hmem => by
    rw [hn.operandChar_signed hmem] at hc
    cases hc
  induction h with
  | nil b => exact .inl ⟨rfl, rfl⟩
  | @char b d hd t t' h ih =>
    -- The character itself is never one of a number.
    by_cases hdc : d = c
    · subst hdc
      refine .inr ⟨[], t, [], t', ?_, ?_, .nil b, h.weaken⟩ <;>
        rw [splitAtChar?, if_pos rfl]
    · have hmem : c ∉ [d] := by simpa using Ne.symm hdc
      exact ih.append hmem hmem fun hu => .char b hd hu
  | number b hn hn' h ih =>
    exact ih.append (hnotMem hn false) (hnotMem hn' false) fun hu => .number b hn hn' hu
  | anySign hs s s' hn hn' h ih =>
    exact ih.append (hnotMem hn s) (hnotMem hn' s') fun hu => .anySign hs s s' hn hn' hu

/-- Two texts begin with operands that look the same, and so does what is after these. -/
def Begins (signs b : Bool) (t t' : Text) : Prop :=
  ∃ v u v' u', t = v ++ u ∧ t' = v' ++ u' ∧ Alike signs b v v' ∧ Alike signs true u u' ∧
    (∀ c ∈ v, isOperandChar c = true) ∧ (∀ c ∈ v', isOperandChar c = true) ∧
    EndsRun u.head? ∧ EndsRun u'.head?

/-- Characters of operands go in front of the operands. -/
theorem Begins.append {r : Bool} {x x' : Text} (h : Begins signs r t t')
    (hx : ∀ c ∈ x, isOperandChar c = true) (hx' : ∀ c ∈ x', isOperandChar c = true)
    (hfront : ∀ {w w'}, Alike signs r w w' → Alike signs b (x ++ w) (x' ++ w')) :
    Begins signs b (x ++ t) (x' ++ t') := by
  obtain ⟨v, u, v', u', rfl, rfl, hv, hu, hall, hall', hends⟩ := h
  refine ⟨x ++ v, u, x' ++ v', u', by rw [List.append_assoc], by rw [List.append_assoc], hfront hv,
    hu, ?_, ?_, hends⟩
  · exact fun c hc => (List.mem_append.1 hc).elim (hx c) (hall c)
  · exact fun c hc => (List.mem_append.1 hc).elim (hx' c) (hall' c)

/-- Two texts that look the same begin with operands that look the same, and so does what is
left. -/
theorem begins (h : Alike signs b t t') : Begins signs b t t' := by
  induction h with
  | nil b => exact ⟨[], [], [], [], rfl, rfl, .nil b, .nil true, nofun, nofun, rfl, rfl⟩
  | @char b c hc t t' h ih =>
    cases hop : isOperandChar c with
    | false =>
      have hends : EndsRun (some c) := by simp [EndsRun, hop]
      exact ⟨[], c :: t, [], c :: t', rfl, rfl, .nil b, .char true hc h, nofun, nofun, hends, hends⟩
    | true =>
      have hall : ∀ d ∈ [c], isOperandChar d = true := by simpa using hop
      exact ih.append hall hall fun hw => .char b hc hw
  | number b hn hn' h ih =>
    exact ih.append (fun _ => hn.operandChar) (fun _ => hn'.operandChar)
      fun hw => .number b hn hn' hw
  | anySign hs s s' hn hn' h ih =>
    exact ih.append (fun _ => hn.operandChar_signed) (fun _ => hn'.operandChar_signed)
      fun hw => .anySign hs s s' hn hn' hw

/-- Two texts end in operands that look the same, and so does what is before these. -/
def Ends (signs b : Bool) (t t' : Text) : Prop :=
  ∃ u v u' v', t = u ++ v ∧ t' = u' ++ v' ∧ Alike signs b u u' ∧ Alike signs false v v' ∧
    (∀ c ∈ v, isOperandChar c = true) ∧ (∀ c ∈ v', isOperandChar c = true) ∧
    EndsRun u.getLast? ∧ EndsRun u'.getLast?

/-- Characters of operands go in front of what is before the operands, or of these where nothing
is. -/
theorem Ends.append {r : Bool} {x x' : Text} (h : Ends signs r t t') (ht : Alike signs r t t')
    (hx : ∀ c ∈ x, isOperandChar c = true) (hx' : ∀ c ∈ x', isOperandChar c = true)
    (hfront : ∀ {w w'}, Alike signs r w w' → Alike signs b (x ++ w) (x' ++ w')) :
    Ends signs b (x ++ t) (x' ++ t') := by
  obtain ⟨u, v, u', v', rfl, rfl, hu, hv, hall, hall', hends, hends'⟩ := h
  -- With nothing before them, the operands reach over the new characters.
  by_cases hnil : u = []
  · obtain rfl := hnil
    obtain rfl := hu.eq_nil_iff.1 rfl
    refine ⟨[], x ++ v, [], x' ++ v', rfl, rfl, .nil b, (hfront ht).weaken, ?_, ?_, rfl, rfl⟩
    · exact fun c hc => (List.mem_append.1 hc).elim (hx c) (hall c)
    · exact fun c hc => (List.mem_append.1 hc).elim (hx' c) (hall' c)
  · have hnil' : u' ≠ [] := mt hu.eq_nil_iff.2 hnil
    refine ⟨x ++ u, v, x' ++ u', v', by rw [List.append_assoc], by rw [List.append_assoc],
      hfront hu, hv, hall, hall', ?_, ?_⟩
    · rwa [List.getLast?_append_of_ne_nil _ hnil]
    · rwa [List.getLast?_append_of_ne_nil _ hnil']

/-- Two texts that look the same end in operands that look the same, and so does what is before. -/
theorem ends (h : Alike signs b t t') : Ends signs b t t' := by
  induction h with
  | nil b => exact ⟨[], [], [], [], rfl, rfl, .nil b, .nil false, nofun, nofun, rfl, rfl⟩
  | @char b c hc t t' h ih =>
    cases hop : isOperandChar c with
    | true =>
      have hall : ∀ d ∈ [c], isOperandChar d = true := by simpa using hop
      exact ih.append h hall hall fun hw => .char b hc hw
    | false =>
      obtain ⟨u, v, u', v', rfl, rfl, hu, hv, hall, hall', hends, hends'⟩ := ih
      have hlast {u : Text} (hu : EndsRun u.getLast?) : EndsRun (c :: u).getLast? := by
        cases u with
        | nil => simp [EndsRun, hop]
        | cons d u => rwa [List.getLast?_cons_cons]
      exact ⟨c :: u, v, c :: u', v', rfl, rfl, .char b hc hu, hv, hall, hall', hlast hends,
        hlast hends'⟩
  | number b hn hn' h ih =>
    exact ih.append h (fun _ => hn.operandChar) (fun _ => hn'.operandChar)
      fun hw => .number b hn hn' hw
  | anySign hs s s' hn hn' h ih =>
    exact ih.append h (fun _ => hn.operandChar_signed) (fun _ => hn'.operandChar_signed)
      fun hw => .anySign hs s s' hn hn' hw

/-- Texts that look the same after which nothing goes on, in front of texts that look the same. -/
theorem append {w w' : Text} (h : Alike signs b u u') (hend : EndsRun u.getLast?)
    (hb : u = [] → b = false) (hw : Alike signs false w w') :
    Alike signs b (u ++ w) (u' ++ w') := by
  have htail {x t : Text} (ht : t ≠ []) (hend : EndsRun (x ++ t).getLast?) :
      EndsRun t.getLast? := by
    rwa [List.getLast?_append_of_ne_nil _ ht] at hend
  -- After a numeral an operand may go on.
  have hnumeral {n x : Text} {c : Char} (hc : n.getLast? = some c) (hdigit : isAsciiDigit c = true)
      (hend : EndsRun (x ++ n).getLast?) : False := by
    rw [List.getLast?_append, hc, Option.some_or] at hend
    simp [EndsRun, isOperandChar, hdigit] at hend
  induction h with
  | nil b =>
    rw [hb rfl]
    exact hw
  | @char b c hc t t' h ih =>
    -- Only at the end of the first text it matters what goes on into the second.
    by_cases ht : t = []
    · subst ht
      have hop : isOperandChar c = false := by simpa [EndsRun] using hend
      exact .char b hc (ih rfl fun _ => hop)
    · exact .char b hc (ih (htail ht (x := [c]) hend) fun h => absurd h ht)
  | @number b n n' hn hn' t t' h ih =>
    by_cases ht : t = []
    · obtain ⟨c, hc, hdigit⟩ := hn.exists_getLast?
      exact (hnumeral (x := []) hc hdigit (by simpa [ht] using hend)).elim
    · rw [List.append_assoc, List.append_assoc]
      exact .number b hn hn' (ih (htail ht hend) fun h => absurd h ht)
  | @anySign hs s s' n n' hn hn' t t' h ih =>
    by_cases ht : t = []
    · obtain ⟨c, hc, hdigit⟩ := hn.exists_getLast?
      have hsplit : signed s n = signed s [] ++ n := by cases s <;> rfl
      exact (hnumeral (x := signed s []) hc hdigit (by simpa [ht, hsplit] using hend)).elim
    · rw [List.append_assoc, List.append_assoc]
      exact .anySign hs s s' hn hn' (ih (htail ht hend) fun h => absurd h ht)

/-- The operands beside an operator look the same, and so does what is left when numbers that look
the same take their place. -/
theorem step (hb : Alike signs false t t') (ha : Alike signs false u u') :
    Alike signs false (operandBefore t) (operandBefore t') ∧
      Alike signs false (operandAfter u) (operandAfter u') ∧
      ∀ {r r' : Text}, Similar signs r r' →
        Alike signs false (beforeOperand t ++ r ++ afterOperand u)
          (beforeOperand t' ++ r' ++ afterOperand u') := by
  obtain ⟨x, v, x', v', rfl, rfl, hx, hv, hall, hall', hends, hends'⟩ := hb.ends
  obtain ⟨w, y, w', y', rfl, rfl, hw, hy, hall2, hall2', hends2, hends2'⟩ := ha.begins
  -- The operands are all that the engine takes, so the rest is what is around them.
  obtain ⟨hop, hbefore⟩ := operandBefore_append hall hends
  obtain ⟨hop', hbefore'⟩ := operandBefore_append hall' hends'
  obtain ⟨hop2, hafter⟩ := operandAfter_append hall2 hends2
  obtain ⟨hop2', hafter'⟩ := operandAfter_append hall2' hends2'
  rw [hop, hop', hop2, hop2', hbefore, hbefore', hafter, hafter']
  refine ⟨hv, hw, fun {r r'} hr => ?_⟩
  rw [List.append_assoc, List.append_assoc]
  exact hx.append hends (fun _ => rfl) (of_similar hr (hy.weaken_true _) (.inr rfl))

/-! ## Numbers -/

/-- What is no character of operands and no digit does not go on into a number. -/
theorem isOpen_next {c : Char} (hc : isPlainDigit c = true) (hop : isOperandChar c = false)
    (q : Literal.State) : (q.next c).isOpen = false := by
  simp only [isOperandChar, Bool.or_eq_false_iff, decide_eq_false_iff_not] at hop
  obtain ⟨⟨hdigit, hpoint⟩, hminus⟩ := hop
  have hdecimal : isDecimal c = false := by simpa [isPlainDigit, hdigit] using hc
  cases q <;> simp only [Literal.State.next, Literal.State.closeMantissa, Literal.State.close,
    hdecimal, Bool.false_eq_true, if_false, if_neg hpoint, if_neg hminus] <;> repeat' split
  all_goals rfl

/-- Texts that look the same lead the automaton of literals to the same state. -/
theorem runFrom_eq (h : Alike signs b t t') {q : Literal.State}
    (hq : signs = false → b = false → q.isOpen = false) : q.runFrom t = q.runFrom t' := by
  -- A state from which the flag is not set does not go on into a numeral.
  induction h generalizing q with
  | nil b => rfl
  | char b hc h ih =>
    exact ih fun hs hop =>
      isOpen_next (hc.resolve_left (by rw [hs]; exact Bool.false_ne_true)) hop q
  | number b hn hn' h ih =>
    obtain ⟨whole, fraction, hw, hf, rfl⟩ := hn
    obtain ⟨whole', fraction', hw', hf', rfl⟩ := hn'
    rw [Literal.State.runFrom_append q (whole ++ _), Literal.State.runFrom_append q (whole' ++ _),
      Literal.State.runFrom_numeral hw hf, Literal.State.runFrom_numeral hw' hf']
    exact ih nofun
  | anySign hs s s' hn hn' h ih =>
    obtain ⟨whole, fraction, hw, hf, rfl⟩ := hn
    obtain ⟨whole', fraction', hw', hf', rfl⟩ := hn'
    rw [Literal.State.runFrom_append, Literal.State.runFrom_append,
      Literal.State.runFrom_signed hw hf (hq hs rfl),
      Literal.State.runFrom_signed hw' hf' (hq hs rfl)]
    exact ih nofun

/-- Of texts that look the same both are read as numbers or neither is. -/
theorem read (h : Alike signs false t t') {x : Float} (hx : readNumber t = .ok x) :
    ∃ x', readNumber t' = .ok x' := by
  have haccepts := exists_readNumber_iff.1 ⟨x, hx⟩
  rw [h.runFrom_eq fun _ _ => rfl] at haccepts
  exact exists_readNumber_iff.2 haccepts

end Alike

end FormulaPlot
