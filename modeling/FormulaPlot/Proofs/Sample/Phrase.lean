import FormulaPlot.Proofs.Phrase.Meaning
import FormulaPlot.Proofs.Sample.Text

/-!
# Phrases that differ in their numbers

Two phrases vary in their numbers (`Phrase.Varies`) if they have the same calls and the same
characters but for numbers of the same look. What the engine finds in one of them it then finds in
the other: names and groups (`Phrase.Varies.clear`), the first call and what is left with a number
in its place (`Phrase.Varies.first`), the depth of the calls (`Phrase.Varies.fits_iff`) and the
pluses to drop (`Phrase.Varies.dropPlus`). When no call is left the texts look the same
(`Phrase.Varies.alike`).

The flag says, as that of `Alike`, whether what is before a phrase goes on into a number that it may
begin with. A call gives way to a number, so it counts as one. Phrases that vary loosely may have
calls and numbers anywhere; the texts of others look the same in the end.
-/

namespace FormulaPlot

namespace Phrase

/-- Two phrases that are the same but for numbers in them. The flag says whether what is before them
goes on into a number that they may begin with. -/
inductive Varies (loose signs : Bool) : Bool → Phrase → Phrase → Prop where
  | nil (b : Bool) : Varies loose signs b nil nil
  | char (b : Bool) {c : Char} (hc : loose = true ∨ isPlainDigit c = true) {p p' : Phrase}
    (h : Varies loose signs (isOperandChar c) p p') : Varies loose signs b (char c p) (char c p')
  | number {b : Bool} (hb : loose = true ∨ b = false) {s s' : Text} (hs : Similar signs s s')
    {p p' : Phrase} (h : Varies loose signs (s.getLast?.any isOperandChar) p p') :
    Varies loose signs b (chars s p) (chars s' p')
  | call {b : Bool} (hb : loose = true ∨ b = false) (k : Redex) {i i' p p' : Phrase}
    (hi : Varies loose signs false i i') (h : Varies loose signs true p p') :
    Varies loose signs b (call k i p) (call k i' p')

/-! ## Phrases that start with a text -/

/-- The first call of a phrase that starts with a text is that of the rest. -/
theorem first_of_chars {k : Redex} {s : Text} {p inner : Phrase} {g : Text → Phrase}
    (h : First k (chars s p) inner g) : ∃ g', First k p inner g' ∧ ∀ u, g u = chars s (g' u) := by
  induction s generalizing g with
  | nil => exact ⟨g, h, fun _ => rfl⟩
  | cons c s ih =>
    cases h with
    | char _ h =>
      obtain ⟨g', hg', hchars⟩ := ih h
      exact ⟨g', hg', fun u => congrArg (char c) (hchars u)⟩

/-- What is clear is so without the text that it starts with. -/
theorem clear_of_chars {s : Text} {p : Phrase} (h : Clear (chars s p)) : Clear p := by
  induction s with
  | nil => exact h
  | cons c s ih => exact ih h.2.2

/-- What is settled is so after the text that it starts with. -/
theorem settled_of_chars {s : Text} {q : Option Char} {p : Phrase} (h : Settled q (chars s p)) :
    Settled (s.getLast?.or q) p := by
  induction s generalizing q with
  | nil => exact h
  | cons c s ih =>
    rw [getLast?_cons_or]
    exact ih h.2

/-- A phrase that starts with a number is not empty. -/
theorem isNil_chars {s : Text} (hs : IsNumberText s) (p : Phrase) : (chars s p).isNil = false := by
  obtain ⟨u, d, rfl, -⟩ := hs.exists_last
  cases u <;> rfl

/-- After what goes on into a number a plus is dropped only at the end of a phrase. -/
theorem isNil_of_dropped {q : Option Char} {p : Phrase} (hp : Settled q (char '+' p))
    (hq : q.any (fun c => endsOperand c || c = '-') = true) {last : Bool}
    (h : (last && p.isNil) = true ∨ q.any endsOperand = false) : p.isNil = true := by
  rcases h with hlast | hend
  · exact (Bool.and_eq_true_iff.1 hlast).2
  · -- A settled plus follows the end of an operand or of a number, and a minus is neither.
    have hplus := hp.1 rfl
    cases q with
    | none => cases hq
    | some c =>
      rw [Option.any_some] at hend hplus hq
      rw [hend, Bool.false_or, decide_eq_true_eq] at hq
      rw [hq] at hplus
      exact absurd hplus (by decide)

/-- What goes on into a number is the end of an operand or a minus. -/
theorem ends_or_minus {c : Char} (h : isOperandChar c = true) :
    (endsOperand c || decide (c = '-')) = true := by
  simp only [isOperandChar, Bool.or_eq_true, decide_eq_true_eq] at h
  simp only [endsOperand, Bool.or_eq_true, decide_eq_true_eq]
  tauto

/-- Numbers have no plus. -/
theorem plus_notMem {s : Text} (hs : IsNumberText s) : '+' ∉ s := fun hc =>
  absurd (hs.isPlainChar hc) (by decide)

namespace Varies

variable {loose signs b : Bool} {p p' : Phrase}

/-- What varies after a character of operands varies after anything. -/
theorem weaken (h : Varies loose signs true p p') (b : Bool) : Varies loose signs b p p' := by
  cases h with
  | nil => exact .nil b
  | char _ hc h => exact .char b hc h
  | number hb hs h => exact .number (.inl (hb.resolve_right (Ne.symm Bool.false_ne_true))) hs h
  | call hb k hi h => exact .call (.inl (hb.resolve_right (Ne.symm Bool.false_ne_true))) k hi h

/-- Two phrases that vary are both empty or neither is. -/
theorem isNil_eq (h : Varies loose signs b p p') : p.isNil = p'.isNil := by
  cases h with
  | nil => rfl
  | char _ hc h => rfl
  | number hb hs h => rw [isNil_chars hs.left, isNil_chars hs.right]
  | call hb k hi h => rfl

/-- Two phrases that vary have calls of the same ranks. -/
theorem atLeast (h : Varies loose signs b p p') {n : Nat} (hp : AtLeast n p) : AtLeast n p' := by
  induction h with
  | nil => trivial
  | char _ hc h ih => exact ih hp
  | number hb hs h ih => exact (atLeast_chars _ _).2 (ih ((atLeast_chars _ _).1 hp))
  | call hb k hi h ihi ih => exact ⟨hp.1, ihi hp.2.1, ih hp.2.2⟩

/-- Two phrases that vary have calls of the same depths. -/
theorem fits_iff (h : Varies loose signs b p p') {limit depth : Int} {around : List Redex} :
    Fits limit depth around p ↔ Fits limit depth around p' := by
  induction h generalizing around with
  | nil => exact Iff.rfl
  | char _ hc h ih => exact ih
  | number hb hs h ih => rw [fits_chars, fits_chars, ih]
  | call hb k hi h ihi ih => simp only [Fits, ihi, ih]

/-- What makes a longer name of one of two phrases that vary makes one of the other. -/
theorem lengthens (h : Varies loose signs b p p') {c : Char} (hc : Lengthens c p') :
    Lengthens c p := by
  cases h with
  | nil => exact hc
  | char _ hd h => exact hc
  | number hb hs h =>
    obtain ⟨u, d, rfl, -⟩ := hs.right.exists_last
    cases u <;> cases hc
  | call hb k hi h => exact hc

/-- Numbers that vary bring no name. -/
theorem clear (h : Varies loose signs b p p') (hp : Clear p) : Clear p' := by
  induction h with
  | nil => trivial
  | char b hc h ih => exact ⟨hp.1, fun hlong => hp.2.1 (h.lengthens hlong), ih hp.2.2⟩
  | number hb hs h ih => exact clear_chars hs.right (ih (clear_of_chars hp))
  | call hb k hi h ihi ih => exact ⟨ihi hp.1, ih hp.2⟩

/-- Numbers that vary leave a phrase settled. -/
theorem settled (h : Varies loose signs b p p') {q : Option Char} (hp : Settled q p) :
    Settled q p' := by
  induction h generalizing q with
  | nil => trivial
  | char _ hc h ih => exact ⟨hp.1, ih hp.2⟩
  | number hb hs h ih =>
    exact settled_chars hs.right (ih ((settled_of_chars hp).of_imp fun _ => by decide)) q
  | call hb k hi h ihi ih => exact ⟨ihi hp.1, ih hp.2⟩

/-- The first calls of two phrases that vary do so inside, and the phrases still vary with numbers
of the same look in the places of the calls. -/
theorem first (h : Varies loose signs b p p') {k : Redex} {inner : Phrase} {g : Text → Phrase}
    (hfirst : First k p inner g) :
    ∃ inner' g', First k p' inner' g' ∧ Varies loose signs false inner inner' ∧
      ∀ {s s' : Text}, Similar signs s s' → Varies loose signs b (g s) (g' s') := by
  -- Where the first call stands in the one phrase, it stands in the other.
  induction h generalizing g with
  | nil => cases hfirst
  | char b hc h ih =>
    cases hfirst with
    | char _ hfirst =>
      obtain ⟨inner', g', hfirst', hinner, hg⟩ := ih hfirst
      exact ⟨inner', _, .char _ hfirst', hinner, fun hs => .char b hc (hg hs)⟩
  | @number b hb t t' ht p p' h ih =>
    -- A number has no calls, so the first one is after it.
    obtain ⟨f, hf, hchars⟩ := first_of_chars hfirst
    obtain ⟨inner', g', hfirst', hinner, hg⟩ := ih hf
    refine ⟨inner', fun s => chars t' (g' s), ?_, hinner, fun hs => ?_⟩
    · -- The characters of the other number are passed over in the same way.
      clear hg hinner ht h ih hfirst hchars
      induction t' with
      | nil => exact hfirst'
      | cons c t' ih => exact .char c ih
    · rw [hchars]
      exact .number hb ht (hg hs)
  | @call b hb e i i' p p' hi h ihi ih =>
    cases hfirst with
    | here => exact ⟨i', _, .here i' p', hi, fun hs => .number hb hs (h.weaken _)⟩
    | inside he hfirst =>
      obtain ⟨inner', g', hfirst', hinner, hg⟩ := ihi hfirst
      exact ⟨inner', _, .inside he hfirst' p', hinner, fun hs => .call hb e (hg hs) h⟩
    | after he hnone hfirst =>
      obtain ⟨inner', g', hfirst', hinner, hg⟩ := ih hfirst
      exact ⟨inner', _, .after he (hi.atLeast hnone) hfirst', hinner,
        fun hs => .call hb e hi (hg hs)⟩

/-- Empty phrases vary after anything. -/
theorem of_isNil (h : Varies loose signs b p p') (hp : p.isNil = true) (b' : Bool) :
    Varies loose signs b' p p' := by
  cases h with
  | nil => exact .nil b'
  | char => cases hp
  | number hb hs h => rw [isNil_chars hs.left] at hp; cases hp
  | call => cases hp

/-- Two phrases that vary do so without their unary pluses. -/
theorem dropPlus (h : Varies loose signs b p p') {q q' : Option Char} (hp : Settled q p)
    (hflag : b = true → q.any (fun c => endsOperand c || c = '-') = true)
    (hq : q.any endsOperand = q'.any endsOperand) (last : Bool) :
    Varies loose signs b (dropPlus last q p) (dropPlus last q' p') := by
  induction h generalizing q q' last with
  | nil b => exact .nil b
  | @char b c hc p p' h ih =>
    have hrest : Varies loose signs (isOperandChar c) (Phrase.dropPlus last (some c) p)
        (Phrase.dropPlus last (some c) p') :=
      ih hp.2 (fun hop => ends_or_minus hop) rfl last
    rw [Phrase.dropPlus, Phrase.dropPlus, ← hq, ← h.isNil_eq]
    split
    next hdrop =>
      -- A plus that is dropped follows what goes on into a number only if it is the last character.
      obtain ⟨rfl, hdrop⟩ := hdrop
      cases b with
      | false => exact hrest
      | true =>
        -- The plus is the last character, so nothing is left after it.
        have hnil := isNil_of_dropped hp (hflag rfl) hdrop
        refine hrest.of_isNil ?_ true
        cases p with
        | nil => rfl
        | char => cases hnil
        | call => cases hnil
    next => exact .char b hc hrest
  | @number b hb s s' hs p p' h ih =>
    -- What follows the numbers sees only whether an operand ends there.
    obtain ⟨c, c', hc, hc', hends⟩ := hs.getLast?
    have hset := settled_of_chars hp
    rw [dropPlus_chars (plus_notMem hs.left), dropPlus_chars (plus_notMem hs.right)]
    refine .number hb hs (ih hset (fun hop => ?_) ?_ last)
    · rw [hc] at hop ⊢
      exact ends_or_minus hop
    · rw [hc, hc']
      rcases hends with ⟨hdigit, hdigit'⟩ | ⟨rfl, -⟩
      · simp [endsOperand, hdigit, hdigit']
      · rfl
  | call hb k hi h ihi ih =>
    have hinner := ihi (hp.1.of_imp fun h => absurd h (by decide)) (fun h => absurd h (by decide))
      (q := some '(') rfl false
    exact .call hb k hinner (ih hp.2 (fun _ => rfl) rfl last)

/-- Without calls, the texts of two phrases that vary look the same. -/
theorem alike (h : Varies signs signs b p p') (hp : AtLeast Redex.all.length p) :
    Alike signs b (text p) (text p') := by
  induction h with
  | nil b => exact .nil b
  | char b hc h ih => exact .char b hc (ih hp)
  | number hb hs h ih =>
    rw [text_chars, text_chars]
    exact .of_similar hs (ih ((atLeast_chars _ _).1 hp)) hb
  | call hb k hi h => exact absurd k.rank_lt (not_lt.2 hp.1)

end Varies

end Phrase

end FormulaPlot
