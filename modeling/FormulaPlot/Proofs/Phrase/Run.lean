import FormulaPlot.Proofs.Phrase.Meaning

/-!
# Runs on phrases

The engine gives a phrase the value that it has (`reduce_text_iff`): a run on the text of a phrase
ends with a number exactly if the phrase has that value and none of its calls is too deep.

The proof follows the loop of `resolve`. Its invariant is that the text is that of a phrase whose
calls are of the kinds that are left, and each turn makes the phrase smaller or leaves a kind.
`phrase_induction` states once what follows from this, and `resolve_text_iff` is its first use.
-/

namespace FormulaPlot

/-- The value of a text, if its reduction gives one. -/
theorem toOption_reduce (limit depth : Int) (t : Text) :
    (reduce limit depth t).outcome.toOption =
      if limit < depth then none
      else (resolve limit depth Redex.all (dropUnaryPlus t)).outcome.toOption.bind finish := by
  rw [reduce]
  split
  · rfl
  · simp only [Noted.outcome_bind, Noted.outcome_note, Noted.outcome_ofExcept, toOption_bind]
    have hfinish (u : Text) : finish u =
        (applyOperators Operator.all (markBinaryMinus u)).outcome.toOption.bind fun u =>
          (readNumber (cancelMinusPairs u)).toOption := by
      rw [finish, toOption_bind]
    simp only [hfinish]
    rfl

/-- What is left after a call has its value. -/
theorem toOption_resolve_of_ok {limit depth : Int} {k : Redex} {ks : List Redex}
    {t before rest inner after : Text} (h : k.split? t = some (before, rest))
    (hg : splitGroup rest = .ok (inner, after)) :
    (resolve limit depth (k :: ks) t).outcome.toOption =
      (reduce limit (depth + 1) inner).outcome.toOption.bind fun v =>
        (resolve limit depth (k :: ks)
          (before ++ plainText (k.apply v) ++ after)).outcome.toOption := by
  rw [resolve_of_ok h hg]
  simp only [Noted.outcome_bind, Noted.outcome_note, toOption_bind]
  rfl

namespace Phrase

/-- A phrase without calls is its text. -/
theorem flatten_of_atLeast {p : Phrase} (hp : AtLeast Redex.all.length p) (q : Option Char) :
    flatten none q p = some (text p) := by
  induction p generalizing q with
  | nil => rfl
  | char c rest ih =>
    rw [flatten, if_neg fun h => absurd h.2 (by simp [drops]), ih hp]
    rfl
  | call k inner rest => exact absurd k.rank_lt (not_lt.2 hp.1)

/-- A phrase without calls is not deep. -/
theorem fits_of_atLeast {limit depth : Int} {around : List Redex} {p : Phrase}
    (hp : AtLeast Redex.all.length p) : Fits limit depth around p := by
  induction p with
  | nil => trivial
  | char c rest ih => exact ih hp
  | call k inner rest => exact absurd k.rank_lt (not_lt.2 hp.1)

/-- Every call has a rank. -/
theorem atLeast_zero (p : Phrase) : AtLeast 0 p := by
  induction p with
  | nil => trivial
  | char c rest ih => exact ih
  | call k inner rest ihi ihr => exact ⟨Nat.zero_le _, ihi, ihr⟩

/-- Fewer kinds are fewer. -/
theorem AtLeast.mono {m n : Nat} (h : m ≤ n) {p : Phrase} (hp : AtLeast n p) : AtLeast m p := by
  induction p with
  | nil => trivial
  | char c rest ih => exact ih hp
  | call k inner rest ihi ihr => exact ⟨h.trans hp.1, ihi hp.2.1, ihr hp.2.2⟩

/-- If the calls of a phrase without its unary pluses are resolved as they should be, the phrase is
reduced as it should be. -/
theorem reduce_of_resolve {limit depth : Int} {p : Phrase}
    (h : ∀ u, (resolve limit depth Redex.all (text (dropPlus true none p))).outcome.toOption =
      some u ↔ Fits limit depth [] (dropPlus true none p) ∧
        flatten none none (dropPlus true none p) = some u) (w : Float) :
    (reduce limit depth (text p)).outcome.toOption = some w ↔
      depth ≤ limit ∧ Fits limit depth [] p ∧ value none (dropPlus true none p) = some w := by
  rw [toOption_reduce, dropUnaryPlus_text, value]
  split
  next hdeep =>
    -- The two sides fail at the limit together.
    constructor
    · intro h
      cases h
    · intro h
      exact absurd h.1 (not_le.2 hdeep)
  next hdeep =>
    rw [Option.bind_eq_some_iff, Option.bind_eq_some_iff]
    constructor
    · rintro ⟨u, hu, hv⟩
      obtain ⟨hfits, hflat⟩ := (h u).1 hu
      exact ⟨not_lt.1 hdeep, (fits_dropPlus _ _ _).1 hfits, u, hflat, hv⟩
    · rintro ⟨-, hfits, u, hflat, hv⟩
      exact ⟨u, (h u).2 ⟨(fits_dropPlus _ _ _).2 hfits, hflat⟩, hv⟩

/-- The kinds that are left from a rank on begin with the kind of that rank. -/
theorem drop_rank (k : Redex) :
    Redex.all.drop k.rank = k :: Redex.all.drop (k.rank + 1) := by
  rw [List.drop_eq_getElem_cons k.rank_lt]
  exact congrArg (· :: _) k.get_rank

/-- What holds of phrases without calls, and is handed on by every turn of the loop on a phrase,
holds of all clear and settled phrases. A turn leaves the first kind, as no call is of it, or puts a
number in the place of its first call, whose inside is resolved one level deeper. -/
theorem phrase_induction {P : Int → Nat → Phrase → Prop}
    (flat : ∀ depth n p, Redex.all.length ≤ n → AtLeast Redex.all.length p → P depth n p)
    (absent : ∀ depth (k : Redex) p, Clear p → AtLeast (k.rank + 1) p → P depth (k.rank + 1) p →
      P depth k.rank p)
    (call : ∀ depth (k : Redex) p inner g, Clear p → Settled none p → AtLeast k.rank p →
      First k p inner g → P (depth + 1) 0 (dropPlus true none inner) →
      (∀ x, P depth k.rank (g (plainText x))) → P depth k.rank p)
    (depth : Int) (n : Nat) (p : Phrase) (hp : Clear p) (hs : Settled none p) (hn : AtLeast n p) :
    P depth n p := by
  rcases Nat.lt_or_ge n Redex.all.length with hlt | hge
  · obtain ⟨k, rfl⟩ : ∃ k : Redex, k.rank = n := by
      have hall : ∀ n (h : n < Redex.all.length), Redex.all[n].rank = n := by decide
      exact ⟨_, hall n hlt⟩
    -- The first call of the kind has its turn, or there is none and the kind is done.
    rcases first_or_atLeast hn with ⟨inner, g, hg⟩ | hnone
    · have hocc := hg.occurs
      have hset := hocc.settled hs .nan
      refine call depth k p inner g hp hs hn hg ?_ fun x => ?_
      · exact phrase_induction flat absent call (depth + 1) 0 (dropPlus true none inner)
          (clear_dropPlus (hocc.clear hp .nan).1 hset.1 _ _) (settled_dropPlus true none inner)
          (atLeast_zero _)
      · exact phrase_induction flat absent call depth k.rank (g (plainText x))
          (hocc.clear hp (isNumberText_plainText x)).2
          (hocc.settled hs (isNumberText_plainText x)).2
          (hocc.atLeast hn _).2
    · exact absent depth k p hp hnone
        (phrase_induction flat absent call depth (k.rank + 1) p hp hs hnone)
  · exact flat depth n p hge (hn.mono hge)
termination_by (p.calls, Redex.all.length - n)
decreasing_by
  · -- The inside has fewer calls than the phrase.
    have := hocc.calls_eq []
    exact Prod.Lex.left _ _ (by rw [calls_dropPlus]; omega)
  · -- So has the phrase with a number in the place of one call.
    have := hocc.calls_eq (plainText x)
    exact Prod.Lex.left _ _ (by omega)
  · have := k.rank_lt
    exact Prod.Lex.right _ (by omega)

/-- The engine resolves the calls of a phrase whose kinds are left if they have values and are not
too deep. -/
theorem resolve_text_iff {limit depth : Int} (n : Nat) (p : Phrase) (hp : Clear p)
    (hs : Settled none p) (hn : AtLeast n p) (u : Text) :
    (resolve limit depth (Redex.all.drop n) (text p)).outcome.toOption = some u ↔
      Fits limit depth [] p ∧ flatten none none p = some u := by
  refine phrase_induction (P := fun depth n p => ∀ u,
    (resolve limit depth (Redex.all.drop n) (text p)).outcome.toOption = some u ↔
      Fits limit depth [] p ∧ flatten none none p = some u) ?flat ?absent ?call depth n p hp hs hn u
  case flat =>
    -- No call is left of any kind, so the engine gives the text back.
    intro depth n p hge hnone u
    rw [List.drop_of_length_le hge, flatten_of_atLeast hnone]
    rw [resolve]
    simp [fits_of_atLeast hnone, Except.toOption]
  case absent =>
    intro depth k p hp hnone ih
    rwa [drop_rank, resolve_of_none (split?_eq_none hp hnone)]
  case call =>
    intro depth k p inner g hp hs hn hg hinner hrest u
    obtain ⟨before, after, hgs, hsplit⟩ := split?_of_first hp hn hg
    have hocc := hg.occurs
    have hrank := (hocc.atLeast hn []).1
    -- The inside is reduced one level deeper.
    have hred (v : Float) : (reduce limit (depth + 1) (text inner)).outcome.toOption = some v ↔
        depth + 1 ≤ limit ∧ Fits limit depth [k] inner ∧ value (some k) inner = some v := by
      rw [fits_cons hrank, ← value_dropPlus hrank (hocc.settled hs .nan).1]
      exact reduce_of_resolve hinner v
    rw [drop_rank, toOption_resolve_of_ok hsplit (splitGroup_text (hocc.clear hp .nan).1 after),
      ← drop_rank, hg.flatten_eq (by rintro _ ⟨⟩), Option.bind_eq_some_iff,
      Option.bind_eq_some_iff]
    constructor
    · rintro ⟨v, hv, hu⟩
      rw [← hgs, hrest] at hu
      obtain ⟨hdeep, hfits, hval⟩ := (hred v).1 hv
      exact ⟨(hg.fits_iff (by simp) _).2 ⟨hdeep, hfits, hu.1⟩, v, hval, hu.2⟩
    · rintro ⟨hfits, v, hval, hflat⟩
      obtain ⟨hdeep, hinside, hfit⟩ := (hg.fits_iff (by simp) (plainText (k.apply v))).1 hfits
      refine ⟨v, (hred v).2 ⟨hdeep, hinside, hval⟩, ?_⟩
      rw [← hgs, hrest]
      exact ⟨hfit, hflat⟩

/-- The engine gives a settled phrase the value that it has without its unary pluses, if none of
its calls is too deep. -/
theorem reduce_text_iff {limit depth : Int} {p : Phrase} (hp : Clear p) (hs : Settled none p)
    (w : Float) :
    (reduce limit depth (text p)).outcome.toOption = some w ↔
      depth ≤ limit ∧ Fits limit depth [] p ∧ value none (dropPlus true none p) = some w :=
  reduce_of_resolve (fun u => resolve_text_iff 0 (dropPlus true none p) (clear_dropPlus hp hs _ _)
    (settled_dropPlus true none p) (atLeast_zero _) u) w

end Phrase

end FormulaPlot
