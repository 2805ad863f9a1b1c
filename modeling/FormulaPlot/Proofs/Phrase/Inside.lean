import FormulaPlot.Proofs.Phrase.Order

/-!
# A text in a call

What a text is reduced to alone is what it is reduced to as the inside of a call or group that is
all of a text but what stands before it (`toOption_reduce_call`).

Two things are different in there. A plus at the end of the inside is not at the end of the whole
text, so that it may outlast the first of the two times that pluses are dropped
(`exists_inside`). And the calls of the inside that come before its own call in the order of the
kinds are resolved with the whole text, which brings them no deeper (`Fits.mono`) and leaves their
values (`value_later`).
-/

namespace FormulaPlot

/-! ## A plus at the end -/

/-- Marking subtraction keeps a plus at the end. -/
theorem getLast?_markBinaryMinus {t : Text} (h : t.getLast? = some '+') :
    (markBinaryMinus t).getLast? = some '+' := by
  obtain ⟨u, rfl⟩ := List.getLast?_eq_some_iff.1 h
  -- What is marked depends on the character before, so the induction is for any of them.
  have aux (q : Option Char) : ∃ w, markBinaryMinusAfter q (u ++ ['+']) = w ++ ['+'] := by
    induction u generalizing q with
    | nil => exact ⟨[], rfl⟩
    | cons c u ih =>
      obtain ⟨w, hw⟩ := ih (by simp) (some c)
      rw [List.cons_append, markBinaryMinusAfter.eq_def]
      simp only
      split
      · split
        next hnil => simp at hnil
        next =>
          rw [hw]
          exact ⟨_ :: w, rfl⟩
      · rw [hw]
        exact ⟨c :: w, rfl⟩
  obtain ⟨w, hw⟩ := aux none
  rw [markBinaryMinus, hw, List.getLast?_concat]

/-- A text without calls that has a value does not end in a plus, whose right operand is missing. -/
theorem getLast?_ne_of_finish {t : Text} {v : Float} (h : finish t = some v) :
    t.getLast? ≠ some '+' := by
  intro ht
  -- Each operator keeps the plus at the end, but at the end of a run no operator is left.
  obtain ⟨u, hu, hnone, -⟩ := exists_of_finish (P := fun u => u.getLast? = some '+')
    (fun o before after a b hp _ hb => by
      rcases List.eq_nil_or_concat' after with rfl | ⟨w, c, rfl⟩
      · cases hb
      · obtain rfl : c = '+' := by simpa [List.getLast?_cons] using hp
        rw [afterOperand, dropWhile_append_cons (by decide)]
        simp)
    (getLast?_markBinaryMinus ht) h
  exact hnone .add (List.mem_of_getLast? hu)

/-- Pluses are dropped after one character as after another if both end operands or neither does. -/
theorem dropUnaryPlusAfter_congr {q r : Option Char}
    (h : q.any endsOperand = r.any endsOperand) (t : Text) :
    dropUnaryPlusAfter q t = dropUnaryPlusAfter r t := by
  cases t with
  | nil => rfl
  | cons c t => rw [dropUnaryPlusAfter, dropUnaryPlusAfter, h]

/-- When the unary pluses of the inside of a group are dropped again, after those of the whole text,
then it loses what it loses alone, unless that leaves a plus at its end. -/
theorem exists_inside (q : Option Char) (t : Text) :
    ∃ d, dropUnaryPlusAfter q (t ++ [')']) = d ++ [')'] ∧
      ((dropUnaryPlusAfter q t).getLast? ≠ some '+' →
        dropUnaryPlusAfter q d = dropUnaryPlusAfter q t) := by
  induction t generalizing q with
  | nil => exact ⟨[], Phrase.dropUnaryPlusAfter_cons (by decide) q [], fun _ => rfl⟩
  | cons c t ih =>
    obtain ⟨d, hd, hdrop⟩ := ih (some c)
    have hne : t ++ [')'] ≠ [] := by simp
    rw [List.cons_append, dropUnaryPlusAfter, dropUnaryPlusAfter.eq_def q (c :: t), hd]
    simp only [hne, false_or]
    by_cases hunary : c = '+' ∧ q.any endsOperand = false
    · -- The plus is dropped both times.
      have hq : q.any endsOperand = (some c).any endsOperand := by
        rw [hunary.1, hunary.2]
        rfl
      rw [if_pos hunary, if_pos ⟨hunary.1, .inr hunary.2⟩]
      exact ⟨d, rfl, fun h => (dropUnaryPlusAfter_congr hq d).trans (hdrop h)⟩
    rw [if_neg hunary]
    refine ⟨c :: d, rfl, fun h => ?_⟩
    by_cases hlast : c = '+' ∧ t = []
    · -- A plus at the end is dropped the second time only.
      obtain ⟨rfl, rfl⟩ := hlast
      obtain rfl : d = [] := by simpa [dropUnaryPlusAfter] using hd.symm
      simp [dropUnaryPlusAfter]
    -- From here on the plus, if it is one, follows an operand and stays each time.
    have hkeep : ¬ (c = '+' ∧ (t = [] ∨ q.any endsOperand = false)) := fun hc =>
      hc.2.elim (fun ht => hlast ⟨hc.1, ht⟩) fun hq => hunary ⟨hc.1, hq⟩
    rw [if_neg hkeep] at h ⊢
    have hrest := hdrop fun hplus => by
      rw [List.getLast?_cons, hplus] at h
      exact h rfl
    have hkeep' : ¬ (c = '+' ∧ (d = [] ∨ q.any endsOperand = false)) := by
      rintro ⟨rfl, rfl | hq⟩
      · rw [← hrest] at h
        exact h rfl
      · exact hunary ⟨rfl, hq⟩
    rw [dropUnaryPlusAfter, if_neg hkeep', hrest]

namespace Phrase

/-- What is left of a phrase outside of all calls ends in a plus if the phrase does. -/
theorem getLast?_of_flatten {p : Phrase} {q : Option Char} {u : Text}
    (h : flatten none q p = some u) (hp : (text p).getLast? = some '+') :
    u.getLast? = some '+' := by
  induction p generalizing q u with
  | nil => cases hp
  | char c rest ih =>
    rw [flatten, if_neg fun h => absurd h.2 (by simp [drops])] at h
    obtain ⟨w, hw, rfl⟩ := Option.map_eq_some_iff.1 h
    rw [text, List.getLast?_cons] at hp
    -- The last character is that of the rest, unless this is the last one.
    cases hrest : (text rest).getLast? with
    | some d =>
      rw [hrest] at hp
      obtain rfl : d = '+' := Option.some.inj hp
      rw [List.getLast?_cons, ih hw hrest]
      rfl
    | none =>
      obtain rfl : rest = nil := by
        rw [List.getLast?_eq_none_iff, ← isNil_iff] at hrest
        cases rest <;> simp [isNil] at hrest ⊢
      rw [hrest] at hp
      obtain rfl : c = '+' := Option.some.inj hp
      cases hw
      rfl
  | call k inner rest _ ih =>
    rw [flatten_call] at h
    obtain ⟨v, -, h⟩ := Option.bind_eq_some_iff.1 h
    obtain ⟨w, hw, rfl⟩ := Option.map_eq_some_iff.1 h
    -- A call ends in a parenthesis, so the plus comes after it.
    have hrest : (text rest).getLast? = some '+' := by
      simp only [text, List.getLast?_append, List.getLast?_cons] at hp
      cases hr : (text rest).getLast? with
      | none => simp [hr] at hp
      | some d => simpa [hr] using hp
    rw [List.getLast?_append, ih hw hrest]
    rfl

/-- A text that is reduced to a number does not end in a plus once its unary pluses are dropped. -/
theorem getLast?_dropUnaryPlus_ne {limit depth : Int} {t : Text} {v : Float}
    (h : (reduce limit depth t).outcome.toOption = some v) :
    (dropUnaryPlus t).getLast? ≠ some '+' := by
  obtain ⟨p, hp, hs, htext⟩ := exists_phrase h
  rw [toOption_reduce] at h
  split at h
  · cases h
  obtain ⟨u, hu, hv⟩ := Option.bind_eq_some_iff.1 h
  rw [← htext] at hu ⊢
  have hflat := ((resolve_text_iff 0 p hp hs (atLeast_zero p) u).1 hu).2
  exact fun hplus => getLast?_ne_of_finish hv (getLast?_of_flatten hflat hplus)

/-! ## Depth -/

/-- With fewer calls of every kind around it, or at a lower level, a phrase is no deeper. -/
theorem Fits.mono {limit depth depth' : Int} {around around' : List Redex} {p : Phrase}
    (h : Fits limit depth around p)
    (hle : ∀ n, depth' + (around'.countP fun e => decide (e.rank ≤ n)) ≤
      depth + (around.countP fun e => decide (e.rank ≤ n))) :
    Fits limit depth' around' p := by
  induction p generalizing around around' with
  | nil => trivial
  | char c rest ih => exact ih h hle
  | call k inner rest ihi ihr =>
    obtain ⟨hdeep, hinner, hrest⟩ := h
    refine ⟨?_, ihi hinner fun n => ?_, ihr hrest hle⟩
    · have := hle k.rank
      simp only [List.length_append, List.length_singleton,
        ← List.countP_eq_length_filter] at hdeep ⊢
      omega
    · -- Of the calls around, those count that are of no later kind than both calls.
      have := hle (min n k.rank)
      simp only [List.countP_append, List.countP_filter, ← Bool.decide_and, ← le_min_iff]
      omega

/-! ## The inside as a phrase -/

/-- A text that is reduced to a number is a phrase as the inside of a call, once the unary pluses of
the whole text are dropped, and its value there is the number. -/
theorem exists_phrase_inside {limit depth : Int} (k : Redex) {t : Text} {v : Float}
    (h : (reduce limit (depth + 1) t).outcome.toOption = some v) :
    ∃ p, Clear p ∧ Settled none p ∧ dropUnaryPlusAfter (some '(') (t ++ [')']) = text p ++ [')'] ∧
      (depth + 1 ≤ limit ∧ Fits limit depth [k] p) ∧ value (some k) p = some v := by
  obtain ⟨d, hd, hdrop⟩ := exists_inside none t
  have hsame : dropUnaryPlus d = dropUnaryPlus t := hdrop (getLast?_dropUnaryPlus_ne h)
  have hred : (reduce limit (depth + 1) d).outcome.toOption = some v := by
    rwa [toOption_reduce, hsame, ← toOption_reduce]
  -- The inside has lost its unary pluses as a part of the whole text.
  have hplus (a b : Text) (hab : d = a ++ '+' :: b) :
      (a.getLast?.or none).any endsOperand = true := by
    have hgroup : dropUnaryPlusAfter none (t ++ [')']) = a ++ '+' :: (b ++ [')']) := by
      rw [hd, hab]
      simp
    exact plusAfter_dropUnaryPlusAfter none (t ++ [')']) hgroup
  -- The run drops pluses once more, but the phrase must be for what was left the first time.
  have hreads : Reads d := by
    obtain ⟨p, hp, -, htext⟩ := exists_phrase hred
    exact reads_of_dropUnaryPlus (fun a b hab => .inl (by simpa using hplus a b hab))
      ⟨p, hp.clean, htext⟩
  obtain ⟨p, hp, rfl⟩ := hreads.exists_clear
  have hs : Settled none p := settled_of_text fun a b hab => any_canPrecedePlus (hplus a b hab)
  obtain ⟨hdeep, hfits, hvalue⟩ := (reduce_text_iff hp hs v).1 hred
  have hfirst : AtLeast (Redex.call .sqrt).rank p := atLeast_zero p
  rw [value_dropPlus hfirst hs] at hvalue
  refine ⟨p, hp, hs, (dropUnaryPlusAfter_congr (by decide) _).trans hd,
    ⟨hdeep, hfits.mono fun n => ?_⟩, value_later (Nat.zero_le _) hvalue⟩
  have hle : ([k].countP fun e => decide (e.rank ≤ n)) ≤ [k].length := List.countP_le_length
  rw [List.length_singleton] at hle
  rw [List.countP_nil]
  omega

/-! ## A call alone -/

/-- A call with nothing else around it but for a minus before it. -/
def alone (s : Bool) (k : Redex) (inner : Phrase) : Phrase := chars (signed s []) (call k inner nil)

section Alone

variable {s : Bool} {k : Redex} {p : Phrase}

/-- A minus makes no name longer. -/
theorem clear_alone (hp : Clear p) : Clear (alone s k p) := by
  cases s with
  | false => exact ⟨hp, trivial⟩
  | true => exact ⟨by decide, not_lengthens (fun f => by cases f <;> decide) _, hp, trivial⟩

/-- Around a call alone there is no plus. -/
theorem settled_alone (hp : Settled none p) : Settled none (alone s k p) := by
  cases s with
  | false => exact ⟨hp, trivial⟩
  | true => exact ⟨fun hc => absurd hc (by decide), hp, trivial⟩

/-- What is left of a call alone is its value. -/
theorem flatten_alone {v : Float} (hv : value (some k) p = some v) :
    flatten none none (alone s k p) = some (signed s (plainText (k.apply v))) := by
  rw [alone, flatten_chars (by cases s <;> decide), flatten_call, hv]
  cases s <;> simp [flatten, signed]

/-- Pluses are dropped from the inside of a call alone only. -/
theorem dropUnaryPlus_alone {t : Text}
    (h : dropUnaryPlusAfter (some '(') (t ++ [')']) = text p ++ [')']) :
    dropUnaryPlus (signed s (k.word ++ '(' :: (t ++ [')']))) = text (alone s k p) := by
  have hword : '+' ∉ signed s k.word := by
    have hall : ∀ k ∈ Redex.all, ∀ s, '+' ∉ signed s k.word := by decide
    exact hall k k.mem_all s
  have hsigned : signed s (k.word ++ '(' :: (t ++ [')'])) =
      signed s k.word ++ '(' :: (t ++ [')']) := by
    cases s <;> rfl
  rw [hsigned, dropUnaryPlus, dropUnaryPlusAfter_append hword,
    dropUnaryPlusAfter_cons (by decide), h]
  cases s <;> simp [alone, signed, text]

end Alone

end Phrase

open Phrase

/-- A call or group that is all of a text, but for a minus before it, gives way to its value. -/
theorem toOption_reduce_call {limit depth : Int} (s : Bool) (k : Redex) {t : Text} {v : Float}
    (h : (reduce limit (depth + 1) t).outcome.toOption = some v) :
    (reduce limit depth (signed s (k.word ++ '(' :: (t ++ [')'])))).outcome.toOption =
      finish (signed s (plainText (k.apply v))) := by
  obtain ⟨p, hp, hs, htext, ⟨hdeep, hfits⟩, hvalue⟩ := exists_phrase_inside k h
  have hfit : Fits limit depth [] (alone s k p) := (fits_chars _ _).2 ⟨hdeep, hfits, trivial⟩
  have hresolve := (resolve_text_iff 0 (alone s k p) (clear_alone hp) (settled_alone hs)
    (atLeast_zero _) _).2 ⟨hfit, flatten_alone hvalue⟩
  rw [List.drop_zero] at hresolve
  rw [toOption_reduce, if_neg (by omega), dropUnaryPlus_alone htext, hresolve, Option.bind_some]

end FormulaPlot
