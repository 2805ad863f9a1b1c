import FormulaPlot.Proofs.Phrase.Order

/-!
# Matching parentheses

Whether the parentheses of a text match, and how deep they are nested, can be read off the excess of
opening over closing ones in its pieces. Only its parentheses matter for both (`balanced_parens`),
so what drops or inserts other characters keeps them.

Two scans of the engine end where a text closes all that is open before it (`Closes`): the one that
finds the end of a group (`closes_of_closeGroup`) and the one with a stack
(`unbalancedAt?_eq_none`). A text that is reduced to a number is a phrase, so its parentheses match
(`balanced_of_reduce`).
-/

namespace FormulaPlot

/-! ## Excess -/

/-- The number of opening parentheses of a text less that of the closing ones. -/
def excess (t : Text) : Int := openings t - t.count ')'

@[simp] theorem excess_nil : excess [] = 0 := rfl

@[simp] theorem excess_append (t u : Text) : excess (t ++ u) = excess t + excess u := by
  simp only [excess, openings, List.count_append]
  omega

@[simp] theorem excess_open (t : Text) : excess ('(' :: t) = excess t + 1 := by
  simp [excess, openings]
  omega

@[simp] theorem excess_close (t : Text) : excess (')' :: t) = excess t - 1 := by
  simp [excess, openings]
  omega

theorem excess_cons {c : Char} (ho : c ≠ '(') (hc : c ≠ ')') (t : Text) :
    excess (c :: t) = excess t := by
  simp [excess, openings, ho, hc]

/-- Without parentheses there is no excess. -/
theorem excess_eq_zero {t : Text} (h : ∀ c ∈ t, c ≠ '(' ∧ c ≠ ')') : excess t = 0 := by
  induction t with
  | nil => rfl
  | cons c t ih =>
    obtain ⟨ho, hc⟩ := h c List.mem_cons_self
    rw [excess_cons ho hc]
    exact ih fun d hd => h d (List.mem_cons_of_mem c hd)

/-- What opens nothing has no excess. -/
theorem excess_nonpos {t : Text} (h : '(' ∉ t) : excess t ≤ 0 := by
  rw [excess, openings, List.count_eq_zero.2 h]
  omega

/-- A text is balanced if it has no excess and none of its beginnings closes more than it opens. -/
theorem balanced_iff {t : Text} : Balanced t ↔ excess t = 0 ∧ ∀ u, u <+: t → 0 ≤ excess u := by
  simp only [Balanced, List.mem_inits, excess, openings]
  constructor
  · rintro ⟨heq, hle⟩
    exact ⟨by omega, fun u hu => by have := hle u hu; omega⟩
  · rintro ⟨heq, hle⟩
    exact ⟨by omega, fun u hu => by have := hle u hu; omega⟩

/-- The ends of a balanced text open no more than they close. -/
theorem Balanced.excess_suffix {t u : Text} (h : Balanced t) (hu : u <:+ t) : excess u ≤ 0 := by
  obtain ⟨v, rfl⟩ := hu
  obtain ⟨hzero, hle⟩ := balanced_iff.1 h
  have := hle v (List.prefix_append v u)
  rw [excess_append] at hzero
  omega

/-- A balanced text in parentheses is balanced. -/
theorem Balanced.group {t : Text} (h : Balanced t) : Balanced ('(' :: t ++ [')']) := by
  obtain ⟨hzero, hle⟩ := balanced_iff.1 h
  refine balanced_iff.2 ⟨by simp [hzero], fun u hu => ?_⟩
  -- A beginning is the whole group, nothing, or the parenthesis and a beginning of the inside.
  rcases List.prefix_concat_iff.1 hu with rfl | hu
  · simp [hzero]
  · rcases List.prefix_cons_iff.1 hu with rfl | ⟨v, rfl, hv⟩
    · exact le_rfl
    · have := hle v hv
      rw [excess_open]
      omega

/-! ## Parentheses -/

/-- The parentheses. -/
def isParen (c : Char) : Bool := c = '(' || c = ')'

/-- The parentheses of a text. -/
def parens (t : Text) : Text := t.filter isParen

/-- The text of a number has no parenthesis. -/
theorem ne_of_mem_plainText {x : Float} {c : Char} (h : c ∈ plainText x) : c ≠ '(' ∧ c ≠ ')' := by
  have := isPlainChar_of_mem_plainText h
  constructor <;> rintro rfl <;> cases this

/-- Only the parentheses count for the excess. -/
theorem excess_parens (t : Text) : excess (parens t) = excess t := by
  induction t with
  | nil => rfl
  | cons c t ih =>
    rw [parens] at ih
    rw [parens, List.filter_cons]
    split
    next h =>
      rcases (by simpa [isParen] using h : c = '(' ∨ c = ')') with rfl | rfl
      · rw [excess_open, excess_open, ih]
      · rw [excess_close, excess_close, ih]
    next h =>
      obtain ⟨ho, hc⟩ : c ≠ '(' ∧ c ≠ ')' := by simpa [isParen] using h
      rw [excess_cons ho hc, ih]

/-- A text is balanced if its parentheses are. -/
theorem balanced_parens (t : Text) : Balanced (parens t) ↔ Balanced t := by
  rw [balanced_iff, balanced_iff, excess_parens]
  refine and_congr_right fun _ => ⟨fun h u hu => ?_, fun h u hu => ?_⟩
  · rw [← excess_parens]
    exact h _ (hu.filter isParen)
  · -- A beginning of the parentheses comes from a beginning of the text.
    obtain ⟨v, hv⟩ := hu
    obtain ⟨u', v', rfl, rfl, -⟩ := List.filter_eq_append_iff.1 hv.symm
    exact (excess_parens u').symm ▸ h u' (List.prefix_append u' v')

/-- Dropping unary pluses drops no parenthesis. -/
theorem parens_dropUnaryPlus (t : Text) : parens (dropUnaryPlus t) = parens t := by
  have after (q : Option Char) : parens (dropUnaryPlusAfter q t) = parens t := by
    induction t generalizing q with
    | nil => rfl
    | cons c t ih =>
      rw [dropUnaryPlusAfter]
      split
      next h => rw [ih, h.1]; rfl
      next => simp only [parens, List.filter_cons] at ih ⊢; rw [ih]
  exact after none

/-! ## Scans -/

/-- A text closes all of `n` open parentheses, and no beginning of it closes more than is open. -/
def Closes (n : Int) (t : Text) : Prop := n + excess t = 0 ∧ ∀ u, u <+: t → 0 ≤ n + excess u

/-- Nothing closes nothing. -/
theorem closes_nil {n : Int} : Closes n [] ↔ n = 0 := by
  simp only [Closes, List.prefix_nil, forall_eq, excess_nil]
  omega

/-- A text closes what is open if the rest closes what is open after its first character. -/
theorem closes_cons {n : Int} {c : Char} {t : Text} :
    Closes n (c :: t) ↔ 0 ≤ n ∧ Closes (n + excess [c]) t := by
  have hcons (u : Text) : excess (c :: u) = excess [c] + excess u := excess_append [c] u
  rw [Closes, Closes, hcons, ← add_assoc]
  constructor
  · rintro ⟨hzero, h⟩
    refine ⟨by simpa using h [] List.nil_prefix, hzero, fun u hu => ?_⟩
    have := h (c :: u) ((List.prefix_cons_inj c).2 hu)
    rwa [hcons, ← add_assoc] at this
  · rintro ⟨hn, hzero, h⟩
    refine ⟨hzero, fun u hu => ?_⟩
    -- The empty beginning is the one that says that nothing is missing before.
    rcases List.prefix_cons_iff.1 hu with rfl | ⟨v, rfl, hv⟩
    · rwa [excess_nil, add_zero]
    · rw [hcons, ← add_assoc]
      exact h v hv

theorem closes_open {n : Int} {t : Text} : Closes n ('(' :: t) ↔ 0 ≤ n ∧ Closes (n + 1) t :=
  closes_cons

theorem closes_close {n : Int} {t : Text} : Closes n (')' :: t) ↔ 0 ≤ n ∧ Closes (n - 1) t :=
  closes_cons

theorem closes_other {n : Int} {c : Char} (ho : c ≠ '(') (hc : c ≠ ')') {t : Text} :
    Closes n (c :: t) ↔ 0 ≤ n ∧ Closes n t := by
  rw [closes_cons, excess_cons ho hc, excess_nil, add_zero]

/-- A text that closes what is open begins where no less than nothing is open. -/
theorem Closes.nonneg {n : Int} {t : Text} (h : Closes n t) : 0 ≤ n := by
  simpa using h.2 [] List.nil_prefix

/-- The balanced texts are those that close what is open when nothing is. -/
theorem closes_zero_iff {t : Text} : Closes 0 t ↔ Balanced t := by
  simp only [Closes, zero_add, balanced_iff]

/-- The inside of a group closes what is open before it. -/
theorem closes_of_closeGroup {n : Nat} {t inner rest : Text}
    (h : closeGroup n t = some (inner, rest)) : Closes n inner := by
  -- The scan counts the open parentheses, and what it takes closes them all.
  induction t generalizing n inner with
  | nil => cases h
  | cons c t ih =>
    rw [closeGroup.eq_def] at h
    simp only at h
    split at h
    next hc =>
      subst hc
      obtain ⟨⟨i, r⟩, hi, he⟩ := Option.map_eq_some_iff.1 h
      obtain ⟨rfl, rfl⟩ : '(' :: i = inner ∧ r = rest := by simpa using he
      exact closes_open.2 ⟨Int.natCast_nonneg n, ih hi⟩
    next ho =>
      split at h
      next hc =>
        subst hc
        -- With none open, this parenthesis ends the scan.
        cases n with
        | zero =>
          obtain ⟨rfl, rfl⟩ := Prod.mk.inj (Option.some.inj h)
          exact closes_nil.2 rfl
        | succ m =>
          obtain ⟨⟨i, r⟩, hi, he⟩ := Option.map_eq_some_iff.1 h
          obtain ⟨rfl, rfl⟩ : ')' :: i = inner ∧ r = rest := by simpa using he
          exact closes_close.2 ⟨by omega, by simpa using ih hi⟩
      next hc =>
        obtain ⟨⟨i, r⟩, hi, he⟩ := Option.map_eq_some_iff.1 h
        obtain ⟨rfl, rfl⟩ : c :: i = inner ∧ r = rest := by simpa using he
        exact (closes_other ho hc).2 ⟨Int.natCast_nonneg n, ih hi⟩

/-- The inside of a group is balanced. -/
theorem balanced_of_splitGroup {t inner rest : Text} (h : splitGroup t = .ok (inner, rest)) :
    Balanced inner := by
  cases t with
  | nil => cases h
  | cons c t =>
    simp only [splitGroup] at h
    split at h
    next =>
      split at h
      next hp =>
        cases h
        exact closes_zero_iff.1 (closes_of_closeGroup hp)
      next => cases h
    next => cases h

/-- A group is missing or stays open where none is found. -/
theorem eq_of_splitGroup_error {t : Text} {e : EvalError} (h : splitGroup t = .error e) :
    e = .missingGroup ∨ e = .openGroup := by
  cases t with
  | nil => exact .inl (Except.error.inj h).symm
  | cons c t =>
    simp only [splitGroup] at h
    split at h
    next =>
      split at h
      next => cases h
      next => exact .inr (Except.error.inj h).symm
    next => exact .inl (Except.error.inj h).symm

/-- The scan with a stack finds nothing if the text closes what is open. -/
theorem unbalancedFrom_eq_none {position : Nat} {stack : List Nat} {t : Text} :
    unbalancedFrom position stack t = none ↔ Closes stack.length t := by
  induction t generalizing position stack with
  | nil =>
    rw [unbalancedFrom, List.getLast?_eq_none_iff, closes_nil, Int.natCast_eq_zero,
      List.length_eq_zero_iff]
  | cons c t ih =>
    rw [unbalancedFrom.eq_def]
    simp only
    split
    next hc =>
      subst hc
      rw [ih, closes_open, and_iff_right (Int.natCast_nonneg _), List.length_cons, Int.natCast_succ]
    next ho =>
      split
      next hc =>
        subst hc
        rw [closes_close, and_iff_right (Int.natCast_nonneg _)]
        cases stack with
        | nil =>
          -- Nothing is open, so there is nothing for the parenthesis to close.
          exact iff_of_false (Option.some_ne_none _) fun h => absurd h.nonneg (by decide)
        | cons top stack => rw [ih, List.length_cons, Int.natCast_succ, add_sub_cancel_right]
      next hc => rw [ih, closes_other ho hc, and_iff_right (Int.natCast_nonneg _)]

/-- The scan with a stack finds nothing in the balanced texts. -/
theorem unbalancedAt?_eq_none {t : Text} : unbalancedAt? t = none ↔ Balanced t := by
  rw [unbalancedAt?, unbalancedFrom_eq_none]
  exact closes_zero_iff

/-! ## Reduced texts -/

/-- The text of a phrase is balanced. -/
theorem Phrase.balanced_text {p : Phrase} (hp : Clear p) : Balanced (text p) :=
  balanced_of_splitGroup (splitGroup_text hp [])

/-- A text that is reduced to a number is balanced. -/
theorem balanced_of_reduce {limit depth : Int} {t : Text} {v : Float}
    (h : (reduce limit depth t).outcome = .ok v) : Balanced t := by
  obtain ⟨p, hp, -, htext⟩ := Phrase.exists_phrase (toOption_eq_some.2 h)
  have := Phrase.balanced_text hp
  rwa [htext, ← balanced_parens, parens_dropUnaryPlus, balanced_parens] at this

end FormulaPlot
