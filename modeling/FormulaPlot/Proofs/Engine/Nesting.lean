import FormulaPlot.Proofs.Engine.Balance
import FormulaPlot.Proofs.Engine.Induction

/-!
# Nesting

The nesting of a text is the largest excess of opening over closing parentheses in any piece of it.
It follows a turn of the engine's loop: the inside of a call is nested one level less than the text,
and with a number in the place of the call the text is nested no deeper (`nest_of_split`). With its
first group a text is nested as deep as that group and what is around it, and no deeper
(`nest_le_max`).
-/

namespace FormulaPlot

/-- The largest excess of opening over closing parentheses in a piece of a text. -/
def nest (t : Text) : Int := ((t.tails.flatMap List.inits).map excess).foldr max 0

/-- A number bounds the nesting if it bounds the excess of all pieces. -/
theorem nest_le_iff {t : Text} {n : Int} : nest t ≤ n ↔ 0 ≤ n ∧ ∀ u, u <:+: t → excess u ≤ n := by
  have fold (l : List Int) : l.foldr max 0 ≤ n ↔ 0 ≤ n ∧ ∀ x ∈ l, x ≤ n := by
    induction l with
    | nil => simp
    | cons a l ih =>
      rw [List.foldr_cons, max_le_iff, ih, List.forall_mem_cons]
      tauto
  rw [nest, fold, List.forall_mem_map]
  refine and_congr_right fun _ => ⟨fun h u hu => ?_, fun h u hu => ?_⟩
  · obtain ⟨v, hv, huv⟩ := List.infix_iff_prefix_suffix.1 hu
    exact h u (List.mem_flatMap.2 ⟨v, (List.mem_tails v t).2 huv, (List.mem_inits u v).2 hv⟩)
  · obtain ⟨v, hv, huv⟩ := List.mem_flatMap.1 hu
    exact h u (List.infix_iff_prefix_suffix.2
      ⟨v, (List.mem_inits u v).1 huv, (List.mem_tails v t).1 hv⟩)

/-- No piece of a text has more excess than its nesting. -/
theorem excess_le_nest {t u : Text} (h : u <:+: t) : excess u ≤ nest t :=
  (nest_le_iff.1 le_rfl).2 u h

/-- Nesting is not negative. -/
theorem nest_nonneg (t : Text) : 0 ≤ nest t := (nest_le_iff.1 le_rfl).1

/-- Only the parentheses count for nesting. -/
theorem nest_parens (t : Text) : nest (parens t) = nest t := by
  refine le_antisymm (nest_le_iff.2 ⟨nest_nonneg t, fun u hu => ?_⟩)
    (nest_le_iff.2 ⟨nest_nonneg _, fun u hu => ?_⟩)
  · -- A piece of the parentheses comes from a piece of the text with the same excess.
    obtain ⟨a, b, hab⟩ := hu
    obtain ⟨v, b', rfl, hv, -⟩ := List.filter_eq_append_iff.1 hab.symm
    obtain ⟨a', u', rfl, -, rfl⟩ := List.filter_eq_append_iff.1 hv
    rw [← parens, excess_parens]
    exact excess_le_nest ⟨a', b', rfl⟩
  · rw [← excess_parens]
    exact excess_le_nest (hu.filter isParen)

/-- Dropping unary pluses keeps the nesting. -/
theorem nest_dropUnaryPlus (t : Text) : nest (dropUnaryPlus t) = nest t := by
  rw [← nest_parens, parens_dropUnaryPlus, nest_parens]

/-- Two texts together are nested no deeper than the sum of both. -/
theorem nest_append_le (t u : Text) : nest (t ++ u) ≤ nest t + nest u := by
  have ht := nest_nonneg t
  have hu := nest_nonneg u
  refine nest_le_iff.2 ⟨by omega, fun v hv => ?_⟩
  -- The piece is in one of the texts or has an end of the one and a beginning of the other.
  rcases List.infix_append_iff.1 hv with hv | hv | ⟨x, y, rfl, hx, hy⟩
  · have := excess_le_nest hv
    omega
  · have := excess_le_nest hv
    omega
  · have := excess_le_nest hx.isInfix
    have := excess_le_nest hy.isInfix
    rw [excess_append]
    omega

/-- A piece of three texts lies in one of them, reaches from one into the next or over the
second. -/
theorem infix_append_append {u a g b : Text} (h : u <:+: a ++ g ++ b) :
    u <:+: a ∨ u <:+: g ∨ u <:+: b ∨ (∃ x y, u = x ++ y ∧ x <:+ a ∧ y <+: g) ∨
      (∃ x y, u = x ++ y ∧ x <:+ g ∧ y <+: b) ∨ ∃ x y, u = x ++ g ++ y ∧ x <:+ a ∧ y <+: b := by
  rcases List.infix_append_iff.1 h with hu | hu | ⟨x, y, rfl, hx, hy⟩
  · rcases List.infix_append_iff.1 hu with hu | hu | hu
    · exact .inl hu
    · exact .inr (.inl hu)
    · exact .inr (.inr (.inr (.inl hu)))
  · exact .inr (.inr (.inl hu))
  · obtain ⟨w, hw⟩ := hx
    rcases List.append_eq_append_iff.1 hw with ⟨v, rfl, rfl⟩ | ⟨v, rfl, rfl⟩
    · exact .inr (.inr (.inr (.inr (.inr ⟨v, y, rfl, List.suffix_append w v, hy⟩))))
    · exact .inr (.inr (.inr (.inr (.inl ⟨x, y, rfl, List.suffix_append v x, hy⟩))))

/-- Groups around a text are nested at least as deep as they are many. -/
theorem le_nest_groups (k : Nat) (s : Text) :
    k ≤ nest (List.replicate k '(' ++ s ++ List.replicate k ')') := by
  have hexcess : excess (List.replicate k '(') = k := by
    simp [excess, openings, List.count_replicate]
  rw [List.append_assoc, ← hexcess]
  exact excess_le_nest (List.prefix_append _ _).isInfix

/-- What has no excess can give way to what has no parentheses, and the nesting does not grow. -/
theorem nest_splice {a g s b : Text} (hg : excess g = 0) (hs : ∀ c ∈ s, c ≠ '(' ∧ c ≠ ')') :
    nest (a ++ s ++ b) ≤ nest (a ++ g ++ b) := by
  -- What is put in has no excess itself, in none of its pieces.
  have hflat {v : Text} (hv : v <:+: s) : excess v = 0 :=
    excess_eq_zero fun c hc => hs c (hv.subset hc)
  have ha {x : Text} (hx : x <:+: a) : excess x ≤ nest (a ++ g ++ b) :=
    excess_le_nest (hx.trans (List.append_assoc a g b ▸ List.prefix_append a (g ++ b)).isInfix)
  have hb {x : Text} (hx : x <:+: b) : excess x ≤ nest (a ++ g ++ b) :=
    excess_le_nest (hx.trans (List.suffix_append (a ++ g) b).isInfix)
  have hzero := nest_nonneg (a ++ g ++ b)
  refine nest_le_iff.2 ⟨hzero, fun u hu => ?_⟩
  rcases infix_append_append hu with hu | hu | hu | ⟨x, y, rfl, hx, hy⟩ | ⟨x, y, rfl, hx, hy⟩ |
    ⟨x, y, rfl, hx, hy⟩
  · exact ha hu
  · rwa [hflat hu]
  · exact hb hu
  · rw [excess_append, hflat hy.isInfix, add_zero]
    exact ha hx.isInfix
  · rw [excess_append, hflat hx.isInfix, zero_add]
    exact hb hy.isInfix
  · -- A piece that reaches over the number is one that reaches over what stood there.
    obtain ⟨v, rfl⟩ := hx
    obtain ⟨w, rfl⟩ := hy
    have hpiece := excess_le_nest (t := v ++ x ++ g ++ (y ++ w)) (u := x ++ g ++ y)
      ⟨v, w, by simp⟩
    simpa only [excess_append, hg, excess_eq_zero hs] using hpiece

/-- The inside of a group is nested one level less than a text that the group is in. -/
theorem nest_inner {a inner b : Text} (h : Balanced inner) :
    nest inner + 1 ≤ nest (a ++ '(' :: inner ++ ')' :: b) := by
  have hopen := excess_le_nest (t := a ++ '(' :: inner ++ ')' :: b) (u := ['('])
    ⟨a, inner ++ ')' :: b, by simp⟩
  have hone : excess ['('] = 1 := rfl
  have hle : nest inner ≤ nest (a ++ '(' :: inner ++ ')' :: b) - 1 := by
    refine nest_le_iff.2 ⟨by omega, fun u hu => ?_⟩
    obtain ⟨x, y, rfl⟩ := hu
    -- The piece from the parenthesis on has one more, and what is between closes no more than it
    -- opens.
    have hpiece := excess_le_nest (t := a ++ '(' :: (x ++ u ++ y) ++ ')' :: b)
      (u := '(' :: x ++ u) ⟨a, y ++ ')' :: b, by simp⟩
    have hx := (balanced_iff.1 h).2 x (List.append_assoc x u y ▸ List.prefix_append x (u ++ y))
    rw [List.cons_append, excess_open, excess_append] at hpiece
    omega
  omega

/-- With its first group, a text is nested as deep as the group and what is around it. -/
theorem nest_le_max {a inner s b : Text} (ha : '(' ∉ a) (h : Balanced inner)
    (hs : ∀ c ∈ s, c ≠ '(' ∧ c ≠ ')') :
    nest (a ++ '(' :: inner ++ ')' :: b) ≤ max (nest inner + 1) (nest (a ++ s ++ b)) := by
  have hinner := nest_nonneg inner
  -- One parenthesis more around the inside adds one level.
  have hg : nest ('(' :: inner ++ [')']) ≤ nest inner + 1 := by
    have h1 := nest_append_le ['('] (inner ++ [')'])
    have h2 := nest_append_le inner [')']
    have hopen : nest ['('] = 1 := by decide
    have hclose : nest [')'] = 0 := by decide
    have hsplit : '(' :: inner ++ [')'] = ['('] ++ (inner ++ [')']) := rfl
    rw [hsplit]
    omega
  have hgroup := h.group
  have hzero := (balanced_iff.1 hgroup).1
  have hsplit : a ++ '(' :: inner ++ ')' :: b = a ++ ('(' :: inner ++ [')']) ++ b := by simp
  rw [hsplit]
  generalize '(' :: inner ++ [')'] = g at hg hgroup hzero ⊢
  have hmax : nest inner + 1 ≤ max (nest inner + 1) (nest (a ++ s ++ b)) := le_max_left _ _
  have hrest {x : Text} (hx : x <:+: a ++ s ++ b) :
      excess x ≤ max (nest inner + 1) (nest (a ++ s ++ b)) :=
    (excess_le_nest hx).trans (le_max_right _ _)
  have ha' {x : Text} (hx : x <:+: a) : x <:+: a ++ s ++ b :=
    hx.trans (List.append_assoc a s b ▸ List.prefix_append a (s ++ b)).isInfix
  have hb' {x : Text} (hx : x <:+: b) : x <:+: a ++ s ++ b :=
    hx.trans (List.suffix_append (a ++ s) b).isInfix
  refine nest_le_iff.2 ⟨by omega, fun u hu => ?_⟩
  -- Each way in which the piece may lie to the group is bounded by one of the two.
  rcases infix_append_append hu with hu | hu | hu | ⟨x, y, rfl, hx, hy⟩ | ⟨x, y, rfl, hx, hy⟩ |
    ⟨x, y, rfl, hx, hy⟩
  · exact hrest (ha' hu)
  · exact (excess_le_nest hu).trans (hg.trans hmax)
  · exact hrest (hb' hu)
  · -- Before the first group nothing is opened.
    have hx0 : excess x ≤ 0 := excess_nonpos fun hc => ha (hx.subset hc)
    have := excess_le_nest hy.isInfix
    rw [excess_append]
    omega
  · -- An end of the group opens no more than it closes.
    have hx0 := hgroup.excess_suffix hx
    have := hrest (hb' hy.isInfix)
    rw [excess_append]
    omega
  · -- Over the whole group the piece is as deep as over what stands in its place.
    obtain ⟨v, rfl⟩ := hx
    obtain ⟨w, rfl⟩ := hy
    have hpiece := hrest (x := x ++ s ++ y) ⟨v, w, by simp⟩
    simpa only [excess_append, hzero, excess_eq_zero hs] using hpiece

/-- The inside of a call is nested one level less than the text, and with a number in the place of
the call the text is nested no deeper. -/
theorem nest_of_split {k : Redex} {t before rest inner after : Text}
    (h : k.split? t = some (before, rest)) (hg : splitGroup rest = .ok (inner, after)) :
    nest inner + 1 ≤ nest t ∧ ∀ x, nest (before ++ plainText x ++ after) ≤ nest t := by
  have hbalanced := balanced_of_splitGroup hg
  have htext := text_of_split h hg
  refine ⟨htext ▸ nest_inner hbalanced, fun x => ?_⟩
  have hcall : excess (k.word ++ ('(' :: inner ++ [')'])) = 0 := by
    rw [excess_append, excess_eq_zero (Phrase.ne_of_mem_word k),
      (balanced_iff.1 hbalanced.group).1, add_zero]
  have hsplit : t = before ++ (k.word ++ ('(' :: inner ++ [')'])) ++ after := by
    rw [htext]
    simp
  rw [hsplit]
  exact nest_splice hcall fun c hc => ne_of_mem_plainText hc

end FormulaPlot
