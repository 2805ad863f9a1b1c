import Mathlib.Order.Bounds.Defs
import FormulaPlot.Proofs.Engine.Balance

/-!
# Two ways to match parentheses

`groupEnd` counts the depth from an opening parenthesis on and knows nothing of the text before it.
`unbalancedAt?` keeps a stack for the whole text. They agree (`groupEnd_agrees`): the stack finds
fault with a text if a closing parenthesis ends no group, and then with the first one, or else if an
opening one has no end, and then with the first of these.

Both are compared with the groups of a text, an opening and a closing parenthesis around a balanced
text (`IsGroup`). A closing parenthesis ends a group if some text before it opens more than it
closes (`exists_opening`), and an opening one has an end if some text after it closes more than it
opens (`exists_closing`). For the stack it is enough that the pieces between the parentheses that
are open are balanced (`Open`).
-/

namespace FormulaPlot

/-! ## Balanced pieces -/

/-- No beginning of two texts after one another closes more than it opens, if none of the first text
does and none of the second with what the first one leaves open. -/
theorem nonneg_of_prefix_append {t u : Text} (ht : ∀ v, v <+: t → 0 ≤ excess v)
    (hu : ∀ v, v <+: u → 0 ≤ excess t + excess v) {v : Text} (hv : v <+: t ++ u) :
    0 ≤ excess v := by
  obtain ⟨w, hw⟩ := hv
  -- The beginning lies in the first text or reaches into the second.
  rcases List.append_eq_append_iff.1 hw with ⟨r, rfl, -⟩ | ⟨r, rfl, rfl⟩
  · exact ht v (List.prefix_append v r)
  · rw [excess_append]
    exact hu r (List.prefix_append r w)

/-- Balanced texts after one another are balanced. -/
theorem Balanced.append {t u : Text} (ht : Balanced t) (hu : Balanced u) : Balanced (t ++ u) := by
  obtain ⟨ht0, htle⟩ := balanced_iff.1 ht
  obtain ⟨hu0, hule⟩ := balanced_iff.1 hu
  refine balanced_iff.2 ⟨by rw [excess_append, ht0, hu0, add_zero], fun v hv => ?_⟩
  exact nonneg_of_prefix_append htle (fun w hw => by rw [ht0, zero_add]; exact hule w hw) hv

/-- A text without parentheses is balanced. -/
theorem balanced_of_ne {t : Text} (h : ∀ c ∈ t, c ≠ '(' ∧ c ≠ ')') : Balanced t :=
  balanced_iff.2 ⟨excess_eq_zero h, fun _ hu =>
    (excess_eq_zero fun c hc => h c (hu.subset hc)).ge⟩

/-- If some end of a text opens more than it closes, an opening parenthesis stands before a balanced
rest of the text. -/
theorem exists_opening {t : Text} (h : ∃ s, s <:+ t ∧ 0 < excess s) :
    ∃ u v, t = u ++ '(' :: v ∧ Balanced v := by
  induction t with
  | nil =>
    obtain ⟨s, hs, hpos⟩ := h
    rw [List.suffix_nil.1 hs] at hpos
    exact absurd hpos (lt_irrefl 0)
  | cons c t ih =>
    by_cases hrest : ∃ s, s <:+ t ∧ 0 < excess s
    · obtain ⟨u, v, rfl, hv⟩ := ih hrest
      exact ⟨c :: u, v, rfl, hv⟩
    · -- The whole text is its shortest end with an excess, so it starts with the parenthesis.
      have hle (s : Text) (hs : s <:+ t) : excess s ≤ 0 := not_lt.1 fun hpos => hrest ⟨s, hs, hpos⟩
      have htail := hle t List.suffix_rfl
      obtain ⟨s, hs, hpos⟩ := h
      obtain rfl := (List.suffix_cons_iff.1 hs).resolve_right fun hs => hrest ⟨s, hs, hpos⟩
      obtain rfl : c = '(' := by
        by_contra ho
        by_cases hc : c = ')'
        · rw [hc, excess_close] at hpos
          omega
        · rw [excess_cons ho hc] at hpos
          omega
      rw [excess_open] at hpos
      refine ⟨[], t, rfl, balanced_iff.2 ⟨by omega, ?_⟩⟩
      rintro u ⟨v, rfl⟩
      have := hle v (List.suffix_append u v)
      rw [excess_append] at hpos
      omega

/-- If some beginning of a text closes more than it opens, a closing parenthesis stands after a
balanced part of the text. -/
theorem exists_closing {t : Text} (h : ∃ s, s <+: t ∧ excess s < 0) :
    ∃ u v, t = u ++ ')' :: v ∧ Balanced u := by
  induction t using List.reverseRecOn with
  | nil =>
    obtain ⟨s, hs, hneg⟩ := h
    rw [List.prefix_nil.1 hs] at hneg
    exact absurd hneg (lt_irrefl 0)
  | append_singleton t c ih =>
    by_cases hrest : ∃ s, s <+: t ∧ excess s < 0
    · obtain ⟨u, v, rfl, hu⟩ := ih hrest
      exact ⟨u, v ++ [c], by simp, hu⟩
    · -- The whole text is its shortest beginning with a negative excess, so it ends there.
      have hle (s : Text) (hs : s <+: t) : 0 ≤ excess s := not_lt.1 fun hneg => hrest ⟨s, hs, hneg⟩
      have hinit := hle t List.prefix_rfl
      obtain ⟨s, hs, hneg⟩ := h
      obtain rfl := (List.prefix_concat_iff.1 hs).resolve_right fun hs => hrest ⟨s, hs, hneg⟩
      rw [excess_append] at hneg
      obtain rfl : c = ')' := by
        by_contra hc
        by_cases ho : c = '('
        · rw [ho, excess_open, excess_nil] at hneg
          omega
        · rw [excess_cons ho hc, excess_nil] at hneg
          omega
      rw [excess_close, excess_nil] at hneg
      exact ⟨t, [], rfl, balanced_iff.2 ⟨by omega, hle⟩⟩

/-! ## Groups -/

/-- A group of a text goes from an opening parenthesis to a closing one, and what is between them is
balanced. -/
def IsGroup (t : Text) (i j : Nat) : Prop :=
  ∃ before inner after, t = before ++ '(' :: (inner ++ ')' :: after) ∧ Balanced inner ∧
    before.length = i ∧ i + 1 + inner.length = j

/-- A character of a text stands between what is before and what is after it. -/
theorem getElem?_eq_some_iff_append {t : Text} {i : Nat} {c : Char} :
    t[i]? = some c ↔ ∃ u v, t = u ++ c :: v ∧ u.length = i := by
  constructor
  · intro h
    obtain ⟨hi, rfl⟩ := List.getElem?_eq_some_iff.1 h
    exact ⟨t.take i, t.drop (i + 1), by rw [List.cons_getElem_drop_succ, List.take_append_drop],
      List.length_take_of_le hi.le⟩
  · rintro ⟨u, v, rfl, rfl⟩
    simp

/-- The ends that are found are those of the groups. -/
theorem groupEnd_eq_ok {t : Text} {i j : Nat} : groupEnd t i = .ok j ↔ IsGroup t i j := by
  constructor
  · intro h
    rw [groupEnd] at h
    cases hsplit : splitGroup (t.drop i) with
    | error e => rw [hsplit] at h; cases h
    | ok parts =>
      obtain ⟨inner, rest⟩ := parts
      rw [hsplit] at h
      obtain rfl := Except.ok.inj h
      have hdrop := eq_of_splitGroup hsplit
      have hi : i ≤ t.length := by
        by_contra hlt
        rw [List.drop_eq_nil_of_le (by omega)] at hdrop
        cases hdrop
      refine ⟨t.take i, inner, rest, ?_, balanced_of_splitGroup hsplit, List.length_take_of_le hi,
        rfl⟩
      rw [← List.cons_append, ← hdrop, List.take_append_drop]
  · rintro ⟨before, inner, after, rfl, hinner, rfl, rfl⟩
    rw [groupEnd, List.drop_left, splitGroup, if_pos rfl, closeGroup_of_balanced hinner]
    rfl

namespace IsGroup

variable {t : Text} {i j i' j' : Nat}

/-- A group ends in one place. -/
theorem end_unique (h : IsGroup t i j) (h' : IsGroup t i j') : j = j' :=
  Except.ok.inj ((groupEnd_eq_ok.2 h).symm.trans (groupEnd_eq_ok.2 h'))

/-- A group starts with an opening parenthesis. -/
theorem getElem?_start (h : IsGroup t i j) : t[i]? = some '(' := by
  obtain ⟨before, inner, after, rfl, -, rfl, -⟩ := h
  simp

/-- A group ends with a closing parenthesis. -/
theorem getElem?_end (h : IsGroup t i j) : t[j]? = some ')' := by
  obtain ⟨before, inner, after, rfl, -, rfl, rfl⟩ := h
  refine getElem?_eq_some_iff_append.2 ⟨before ++ '(' :: inner, after, by simp, ?_⟩
  rw [List.length_append, List.length_cons]
  omega

/-- A group ends after its start. -/
theorem lt (h : IsGroup t i j) : i < j := by
  obtain ⟨before, inner, after, -, -, -, rfl⟩ := h
  omega

/-- What is between the ends of a group is balanced. -/
theorem balanced_inner (h : IsGroup t i j) : Balanced ((t.take j).drop (i + 1)) := by
  obtain ⟨before, inner, after, rfl, hinner, rfl, rfl⟩ := h
  have htake : (before ++ '(' :: (inner ++ ')' :: after)).take (before.length + 1 + inner.length) =
      before ++ '(' :: inner := by
    rw [← List.cons_append, ← List.append_assoc]
    exact List.take_left' (by simp; omega)
  have hdrop : (before ++ '(' :: inner).drop (before.length + 1) = inner := by
    rw [List.append_cons]
    exact List.drop_left' (by simp)
  rw [htake, hdrop]
  exact hinner

/-- A group of a part of a text is a group of the text. -/
theorem append (h : IsGroup t i j) (u v : Text) :
    IsGroup (u ++ t ++ v) (u.length + i) (u.length + j) := by
  obtain ⟨before, inner, after, rfl, hinner, rfl, rfl⟩ := h
  exact ⟨u ++ before, inner, after ++ v, by simp, hinner, by simp, by omega⟩

end IsGroup

section Beginning

variable {t u v : Text} {i j : Nat} (ht : t = u ++ v)

include ht

/-- Where a beginning of a text has closed no more than is open, its closing parentheses end
groups. -/
theorem exists_isGroup_end (hu : ∀ w, w <+: u → 0 ≤ excess w) (hlt : j < u.length)
    (hc : t[j]? = some ')') : ∃ i, IsGroup t i j := by
  subst ht
  rw [List.getElem?_append_left hlt] at hc
  obtain ⟨a, b, rfl, rfl⟩ := getElem?_eq_some_iff_append.1 hc
  -- This parenthesis closes one that is open, so some end of what is before it opens more than it
  -- closes.
  have hclosed := hu (a ++ [')']) ⟨b, by simp⟩
  rw [excess_append, excess_close, excess_nil] at hclosed
  obtain ⟨c, d, rfl, hd⟩ := exists_opening ⟨a, List.suffix_rfl, by omega⟩
  refine ⟨c.length, c, d, b ++ v, by simp, hd, rfl, ?_⟩
  rw [List.length_append, List.length_cons]
  omega

/-- The opening parentheses in a balanced beginning of a text have ends. -/
theorem exists_isGroup_start (hu : Balanced u) (hlt : i < u.length) (hc : t[i]? = some '(') :
    ∃ j, IsGroup t i j := by
  subst ht
  rw [List.getElem?_append_left hlt] at hc
  obtain ⟨a, b, rfl, rfl⟩ := getElem?_eq_some_iff_append.1 hc
  have hopen := hu.excess_suffix ⟨a, rfl⟩
  rw [excess_open] at hopen
  obtain ⟨c, d, rfl, hc'⟩ := exists_closing ⟨b, List.prefix_rfl, by omega⟩
  exact ⟨_, a, c, d ++ v, by simp, hc', rfl, rfl⟩

end Beginning

/-- Of two groups one is after the other, or it is inside of it. -/
theorem IsGroup.lt_or_lt {t : Text} {i j i' j' : Nat} (h : IsGroup t i j) (h' : IsGroup t i' j')
    (hlt : i < i') : j < i' ∨ j' < j := by
  by_contra hcross
  rw [not_or, not_lt, not_lt] at hcross
  obtain ⟨hle, hle'⟩ := hcross
  have hne : i' ≠ j := by
    rintro rfl
    exact absurd (h.getElem?_end.symm.trans h'.getElem?_start) (by decide)
  have hstart := h'.getElem?_start
  obtain ⟨before, inner, after, rfl, hinner, rfl, rfl⟩ := h
  -- The second group starts inside of the first, at a place of the text in it.
  obtain ⟨k, rfl⟩ : ∃ k, i' = (before ++ ['(']).length + k := ⟨i' - (before.length + 1), by
    rw [List.length_append, List.length_singleton]; omega⟩
  rw [List.append_cons, List.getElem?_append_right (by omega), Nat.add_sub_cancel_left] at hstart
  rw [List.length_append, List.length_singleton] at hne hle hlt
  -- The parenthesis is in the balanced text, so its group ends there.
  obtain ⟨l, hl⟩ := exists_isGroup_start (t := inner) (List.append_nil _).symm hinner (i := k)
    (by omega) (by rwa [List.getElem?_append_left (by omega)] at hstart)
  have hl' := hl.append (before ++ ['(']) (')' :: after)
  rw [List.append_assoc, ← List.append_cons] at hl'
  have hend := h'.end_unique hl'
  have hlength := (List.getElem?_eq_some_iff.1 hl.getElem?_end).1
  rw [List.length_append, List.length_singleton] at hend
  omega

/-! ## The stack -/

/-- What is read when the parentheses at the positions of a stack are open, the last one first: the
texts before, between and after them are balanced. -/
inductive Open : Text → List Nat → Prop
  | none {t : Text} : Balanced t → Open t []
  | push {t u : Text} {stack : List Nat} : Open t stack → Balanced u →
      Open (t ++ '(' :: u) (t.length :: stack)

namespace Open

variable {t u : Text} {stack : List Nat}

/-- A balanced text leaves open what is open. -/
theorem append (h : Open t stack) (hu : Balanced u) : Open (t ++ u) stack := by
  cases h with
  | none ht => exact .none (ht.append hu)
  | push h hv =>
    rw [List.append_assoc, List.cons_append]
    exact .push h (hv.append hu)

/-- A closing parenthesis closes the last one that is open. -/
theorem close {i : Nat} (h : Open t (i :: stack)) : Open (t ++ [')']) stack := by
  cases h with
  | push h hu =>
    rw [List.append_assoc]
    exact h.append hu.group

/-- The first parenthesis that is open is after a balanced text, and nothing after it closes more
than is opened after it. -/
theorem exists_first {p : Nat} (h : Open t stack) (hp : stack.getLast? = some p) :
    ∃ u v, t = u ++ '(' :: v ∧ u.length = p ∧ Balanced u ∧ ∀ w, w <+: v → 0 ≤ excess w := by
  induction h with
  | none => cases hp
  | @push t v stack h hv ih =>
    have hv' := (balanced_iff.1 hv).2
    cases stack with
    | nil =>
      cases h with
      | none ht => exact ⟨t, v, rfl, Option.some.inj hp, ht, hv'⟩
    | cons i stack =>
      -- A parenthesis that is opened later does not change which one is the first.
      rw [List.getLast?_cons_cons] at hp
      obtain ⟨a, b, rfl, hlength, ha, hb⟩ := ih hp
      refine ⟨a, b ++ '(' :: v, by simp, hlength, ha, fun w hw => ?_⟩
      refine nonneg_of_prefix_append hb (fun w hw => ?_) hw
      have hb0 := hb b List.prefix_rfl
      rcases List.prefix_cons_iff.1 hw with rfl | ⟨x, rfl, hx⟩
      · rwa [excess_nil, add_zero]
      · have := hv' x hx
        rw [excess_open]
        omega

end Open

/-- What the scan with a stack finds fault with is after a balanced text: a closing parenthesis, or
an opening one after which no more is closed than is opened. -/
def FirstFault (t : Text) (p : Nat) : Prop :=
  ∃ u v, u.length = p ∧ Balanced u ∧
    (t = u ++ ')' :: v ∨ t = u ++ '(' :: v ∧ ∀ w, w <+: v → 0 ≤ excess w)

/-- What the scan finds in the rest of a text is the first fault of the text. -/
theorem firstFault_of_unbalancedFrom {t u : Text} {stack : List Nat} {p : Nat} (hu : Open u stack)
    (h : unbalancedFrom u.length stack t = some p) : FirstFault (u ++ t) p := by
  -- The induction is on what is still to be read, and `Open` keeps what the stack knows of the rest.
  induction t generalizing u stack with
  | nil =>
    obtain ⟨a, b, rfl, hlength, ha, hb⟩ := hu.exists_first h
    exact ⟨a, b, hlength, ha, .inr ⟨List.append_nil _, hb⟩⟩
  | cons c t ih =>
    have hnext {stack : List Nat} (hu : Open (u ++ [c]) stack)
        (h : unbalancedFrom (u.length + 1) stack t = some p) : FirstFault (u ++ c :: t) p := by
      rw [List.append_cons]
      exact ih hu (by rwa [List.length_append, List.length_singleton])
    rw [unbalancedFrom.eq_def] at h
    simp only at h
    split at h
    next hc =>
      subst hc
      exact hnext (hu.push (balanced_iff.2 ⟨rfl, by simp⟩)) h
    next ho =>
      split at h
      next hc =>
        subst hc
        cases stack with
        | nil =>
          cases hu with
          | none hu => exact ⟨u, t, Option.some.inj h, hu, .inl rfl⟩
        | cons i stack => exact hnext hu.close h
      next hc => exact hnext (hu.append (balanced_of_ne (by simp [ho, hc]))) h

/-- The scan finds the first fault of a text. -/
theorem firstFault_of_unbalancedAt? {t : Text} {p : Nat} (h : unbalancedAt? t = some p) :
    FirstFault t p :=
  firstFault_of_unbalancedFrom (u := []) (.none (by decide)) h

/-! ## The two scans -/

/-- A closing parenthesis that ends no group. -/
def Stray (t : Text) (j : Nat) : Prop := t[j]? = some ')' ∧ ∀ i, groupEnd t i ≠ .ok j

/-- An opening parenthesis whose end is not found. -/
def Unclosed (t : Text) (i : Nat) : Prop := t[i]? = some '(' ∧ ∃ e, groupEnd t i = .error e

section Faults

variable {t u v : Text} {i j : Nat}

/-- A closing parenthesis is stray if it ends no group. -/
theorem stray_iff : Stray t j ↔ t[j]? = some ')' ∧ ¬ ∃ i, IsGroup t i j := by
  simp only [Stray, ne_eq, groupEnd_eq_ok, not_exists]

/-- An opening parenthesis is not closed if no group starts with it. -/
theorem unclosed_iff : Unclosed t i ↔ t[i]? = some '(' ∧ ¬ ∃ j, IsGroup t i j := by
  simp only [Unclosed, ← groupEnd_eq_ok]
  cases groupEnd t i <;> simp

/-- The closing parenthesis after a balanced text is the first stray one. -/
theorem isLeast_stray (hu : Balanced u) (ht : t = u ++ ')' :: v) :
    IsLeast {j | Stray t j} u.length := by
  refine ⟨stray_iff.2 ⟨by rw [ht]; simp, ?_⟩, fun j hj => not_lt.1 fun hlt => ?_⟩
  · rintro ⟨i, before, inner, after, h, hinner, rfl, hlength⟩
    -- The group would start in the balanced text, with a parenthesis that this one closes.
    rw [ht, ← List.cons_append, ← List.append_assoc] at h
    obtain ⟨rfl, -⟩ := List.append_inj h (by rw [← hlength]; simp; omega)
    have := hu.excess_suffix (List.suffix_append before ('(' :: inner))
    rw [excess_open, (balanced_iff.1 hinner).1] at this
    omega
  · obtain ⟨hc, hnone⟩ := stray_iff.1 hj
    exact hnone (exists_isGroup_end ht (balanced_iff.1 hu).2 hlt hc)

/-- An opening parenthesis after a balanced text is the first one that is not closed, if no more is
closed than opened after it. -/
theorem isLeast_unclosed (hu : Balanced u) (ht : t = u ++ '(' :: v)
    (hv : ∀ w, w <+: v → 0 ≤ excess w) : IsLeast {i | Unclosed t i} u.length := by
  refine ⟨unclosed_iff.2 ⟨by rw [ht]; simp, ?_⟩, fun i hi => not_lt.1 fun hlt => ?_⟩
  · rintro ⟨j, before, inner, after, h, hinner, hlength, -⟩
    rw [ht] at h
    obtain ⟨rfl, hrest⟩ := List.append_inj h hlength.symm
    have := hv (inner ++ [')']) ⟨after, by simpa using (List.cons.inj hrest).2.symm⟩
    rw [excess_append, (balanced_iff.1 hinner).1, excess_close, excess_nil] at this
    omega
  · obtain ⟨hc, hnone⟩ := unclosed_iff.1 hi
    exact hnone (exists_isGroup_start ht hu hlt hc)

/-- With such an opening parenthesis in it, a text has no stray one. -/
theorem not_stray (hu : Balanced u) (ht : t = u ++ '(' :: v) (hv : ∀ w, w <+: v → 0 ≤ excess w)
    (j : Nat) : ¬ Stray t j := by
  rw [stray_iff]
  rintro ⟨hc, hnone⟩
  obtain ⟨hu0, hule⟩ := balanced_iff.1 hu
  -- No beginning of the whole text closes more than it opens.
  refine hnone (exists_isGroup_end (List.append_nil t).symm (fun w hw => ?_)
    (List.getElem?_eq_some_iff.1 hc).1 hc)
  rw [ht] at hw
  refine nonneg_of_prefix_append hule (fun w hw => ?_) hw
  rw [hu0, zero_add]
  rcases List.prefix_cons_iff.1 hw with rfl | ⟨x, rfl, hx⟩
  · exact le_rfl
  · have := hv x hx
    rw [excess_open]
    omega

end Faults

/-- The scan with a stack finds no fault with a text just if all of its parentheses are at the ends
of groups. The fault that it finds is the first closing parenthesis that ends no group, or if there
is none, the first opening one without an end. The texts in groups are balanced, and different
groups are nested or apart from each other, with different ends. -/
theorem groupEnd_agrees (t : Text) :
    (unbalancedAt? t = none ↔
      (∀ i, t[i]? = some '(' → ∃ j, groupEnd t i = .ok j) ∧
        ∀ j, t[j]? = some ')' → ∃ i, t[i]? = some '(' ∧ groupEnd t i = .ok j) ∧
    (∀ p, unbalancedAt? t = some p →
      ((∃ j, Stray t j) → IsLeast {j | Stray t j} p) ∧
        ((¬ ∃ j, Stray t j) → IsLeast {i | Unclosed t i} p)) ∧
    (∀ i j, groupEnd t i = .ok j →
      t[i]? = some '(' ∧ t[j]? = some ')' ∧ i < j ∧
        unbalancedAt? ((t.take j).drop (i + 1)) = none) ∧
    ∀ i j i' j', groupEnd t i = .ok j → groupEnd t i' = .ok j' → i ≠ i' →
      j ≠ j' ∧ ((i < i' ∧ j' < j) ∨ (i' < i ∧ j < j') ∨ j < i' ∨ j' < i) := by
  -- The fault is of one of two kinds, and of the second only if there is none of the first.
  have hfault {p : Nat} (h : unbalancedAt? t = some p) :
      (IsLeast {j | Stray t j} p) ∨ (∀ j, ¬ Stray t j) ∧ IsLeast {i | Unclosed t i} p := by
    obtain ⟨u, v, rfl, hu, ht | ⟨ht, hv⟩⟩ := firstFault_of_unbalancedAt? h
    · exact .inl (isLeast_stray hu ht)
    · exact .inr ⟨not_stray hu ht hv, isLeast_unclosed hu ht hv⟩
  refine ⟨⟨fun h => ?_, fun ⟨hstart, hend⟩ => ?_⟩, fun p hp => ?_, fun i j h => ?_,
    fun i j i' j' h h' hne => ?_⟩
  · -- The whole text is a balanced beginning of itself.
    have ht := unbalancedAt?_eq_none.1 h
    constructor
    · intro i hc
      obtain ⟨j, hj⟩ := exists_isGroup_start (List.append_nil t).symm ht
        (List.getElem?_eq_some_iff.1 hc).1 hc
      exact ⟨j, groupEnd_eq_ok.2 hj⟩
    · intro j hc
      obtain ⟨i, hi⟩ := exists_isGroup_end (List.append_nil t).symm (balanced_iff.1 ht).2
        (List.getElem?_eq_some_iff.1 hc).1 hc
      exact ⟨i, hi.getElem?_start, groupEnd_eq_ok.2 hi⟩
  · cases hp : unbalancedAt? t with
    | none => rfl
    | some p =>
      exfalso
      -- A fault of either kind would be a parenthesis at the end of no group.
      rcases hfault hp with ⟨⟨hc, hnone⟩, -⟩ | ⟨-, ⟨hc, e, he⟩, -⟩
      · obtain ⟨i, -, hi⟩ := hend p hc
        exact hnone i hi
      · obtain ⟨j, hj⟩ := hstart p hc
        rw [hj] at he
        cases he
  · rcases hfault hp with hleast | ⟨hnone, hleast⟩
    · exact ⟨fun _ => hleast, fun hnone => absurd ⟨p, hleast.1⟩ hnone⟩
    · exact ⟨fun ⟨j, hj⟩ => absurd hj (hnone j), fun _ => hleast⟩
  · have hgroup := groupEnd_eq_ok.1 h
    exact ⟨hgroup.getElem?_start, hgroup.getElem?_end, hgroup.lt,
      unbalancedAt?_eq_none.2 hgroup.balanced_inner⟩
  · have hgroup := groupEnd_eq_ok.1 h
    have hgroup' := groupEnd_eq_ok.1 h'
    have hlt := hgroup.lt
    have hlt' := hgroup'.lt
    -- The group that starts later ends inside of the other or starts after it.
    rcases Nat.lt_or_gt_of_ne hne with hstart | hstart
    · rcases hgroup.lt_or_lt hgroup' hstart with hend | hend <;> omega
    · rcases hgroup'.lt_or_lt hgroup hstart with hend | hend <;> omega

end FormulaPlot
