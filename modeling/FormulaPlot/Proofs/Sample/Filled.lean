import FormulaPlot.Formula.Substitution
import FormulaPlot.Proofs.Phrase.Reading
import FormulaPlot.Proofs.Sample.Phrase

/-!
# Two samples of a formula

Two samples of a formula are one text with two numbers in the places of its variable (`Filled`). If
one of them is that of a phrase then so is the other, and the phrases vary in these numbers
(`Filled.exists_varies`), since names and parentheses stand around a number but not in it.

With an empty group in the places of the variable the text has no sample in it. From this text it is
seen whether a number, a call or a group touches what goes on into it (`touches`).
-/

namespace FormulaPlot

open DecimalDigit

/-! ## What touches -/

/-- What goes on into a number that follows: a character of operands, or a group, which gives way to
a number. -/
def sticks (c : Char) : Bool := isOperandChar c || c = ')'

/-- Whether something goes on into a name or group of a text after `pre`, which is the text before
from its end on. The digits of a name do not go on into its group. Where digits of another script
stand, everything counts as touching. -/
def touches (pre : Text) : Text → Bool
  | [] => false
  | c :: t =>
    (pre.head?.any sticks &&
        (isAsciiLetter c || (c = '(' && !Builtin.log10.symbol.reverse.isPrefixOf pre))) ||
      !isPlainDigit c || touches (c :: pre) t

/-- A text touches if a part of it does. -/
theorem touches_append (pre t u : Text) :
    touches pre (t ++ u) = (touches pre t || touches (t.reverse ++ pre) u) := by
  induction t generalizing pre with
  | nil => rfl
  | cons c t ih =>
    simp only [List.cons_append, touches, ih, Bool.or_assoc, List.reverse_cons, List.append_assoc,
      List.nil_append]

/-- After the first character of a text that does not touch, the rest does not touch. -/
theorem touches_cons {pre t : Text} {c : Char} (h : touches pre (c :: t) = false) :
    isPlainDigit c = true ∧ touches (c :: pre) t = false := by
  simp only [touches, Bool.or_eq_false_iff, Bool.not_eq_false'] at h
  exact ⟨h.1.2, h.2⟩

/-- What is before a call or number of a phrase, from its end on: no letter of a name stands there
outside of parentheses. -/
def Outside (pre : Text) : Prop :=
  ∀ c ∈ pre.takeWhile (fun c => c ≠ '(' && c ≠ ')'), Phrase.isInert c = true

/-- After an inert character no name has begun. -/
theorem Outside.cons {pre : Text} (h : Outside pre) {c : Char} (hc : Phrase.isInert c = true) :
    Outside (c :: pre) := by
  intro d hd
  rw [List.takeWhile_cons] at hd
  split at hd
  · rcases List.mem_cons.1 hd with rfl | hd
    · exact hc
    · exact h d hd
  · cases hd

/-- After a parenthesis no name has begun. -/
theorem outside_paren {c : Char} (hc : c = '(' ∨ c = ')') (pre : Text) : Outside (c :: pre) := by
  intro d hd
  rw [List.takeWhile_cons_of_neg (by rcases hc with rfl | rfl <;> decide)] at hd
  cases hd

/-- Where a text does not touch, nothing goes on into a group. -/
theorem not_sticks_of_group {pre t : Text} (h : touches pre ('(' :: t) = false)
    (hpre : Outside pre) : pre.head?.any sticks = false := by
  -- No name has begun, so the digits before the group are not those of one.
  have hname : Builtin.log10.symbol.reverse.isPrefixOf pre = false := by
    rw [← Bool.not_eq_true, List.isPrefixOf_iff_prefix]
    rintro ⟨u, rfl⟩
    exact absurd (hpre 'g' (by simp [Builtin.symbol, Builtin.name])) (by decide)
  simp only [touches, hname, Bool.or_eq_false_iff] at h
  simpa using h.1.1

/-- Where a text does not touch, nothing goes on into a name. -/
theorem not_sticks_of_call {pre t : Text} {k : Redex} (h : touches pre (k.word ++ '(' :: t) = false)
    (hpre : Outside pre) : pre.head?.any sticks = false := by
  cases k with
  | group => exact not_sticks_of_group h hpre
  | call f =>
    -- Names begin with letters, at which the text would touch.
    have hletter : ∀ f ∈ Builtin.all, f.symbol.head?.any isAsciiLetter = true := by decide
    obtain ⟨a, b, w, hf, -, -⟩ := f.symbol_eq
    have ha := hletter f f.mem_all
    rw [hf] at ha
    simp only [Redex.word, hf, List.cons_append, touches, show isAsciiLetter a = true from ha,
      Bool.or_eq_false_iff] at h
    simpa using h.1.1

/-! ## One text with two numbers -/

/-- A text with two numbers in the places of its empty groups. -/
inductive Filled (v v' : Text) : Text → Text → Text → Prop where
  | nil : Filled v v' [] [] []
  | char (c : Char) {t₀ t t' : Text} (h : Filled v v' t₀ t t') :
    Filled v v' (c :: t₀) (c :: t) (c :: t')
  | hole {t₀ t t' : Text} (h : Filled v v' t₀ t t') :
    Filled v v' ('(' :: ')' :: t₀) (v ++ t) (v' ++ t')

/-- The variable gives way to a number where it would give way to an empty group. -/
theorem filled_substituteAfter (v v' : Text) (x : Char) (q : Option Char) (t : Text) :
    Filled v v' (substituteAfter q x ['(', ')'] t) (substituteAfter q x v t)
      (substituteAfter q x v' t) := by
  induction t generalizing q with
  | nil => exact .nil
  | cons c t ih =>
    rw [substituteAfter, substituteAfter, substituteAfter]
    split
    · exact (ih (some c)).hole
    · exact (ih (some c)).char c

namespace Filled

variable {v v' t₀ t t' : Text}

/-- A character that is not in the number stands in all texts at one place. -/
theorem split {c : Char} (hc : c ∉ v) {x y : Text} (h : Filled v v' t₀ (x ++ c :: y) t') :
    ∃ x₀ y₀ x' y', t₀ = x₀ ++ c :: y₀ ∧ t' = x' ++ c :: y' ∧ Filled v v' x₀ x x' ∧
      Filled v v' y₀ y y' := by
  -- The induction is on how the texts are filled, so what is before the character is left open.
  generalize hw : x ++ c :: y = w at h
  induction h generalizing x with
  | nil => simp at hw
  | @char d t₀ t t' h ih =>
    cases x with
    | nil =>
      obtain ⟨rfl, rfl⟩ := List.cons.inj hw
      exact ⟨[], t₀, [], t', rfl, rfl, .nil, h⟩
    | cons e x =>
      obtain ⟨rfl, htail⟩ := List.cons.inj hw
      obtain ⟨x₀, y₀, x', y', rfl, rfl, hx, hy⟩ := ih htail
      exact ⟨e :: x₀, y₀, e :: x', y', rfl, rfl, .char e hx, hy⟩
  | @hole t₀ t t' h ih =>
    rcases split_around (u := []) hw hc with ⟨z, rfl, rfl⟩ | ⟨z, hnil, -⟩
    · obtain ⟨x₀, y₀, x', y', rfl, rfl, hx, hy⟩ := ih rfl
      refine ⟨'(' :: ')' :: x₀, y₀, v' ++ x', y', rfl, by rw [List.append_assoc], ?_, hy⟩
      simpa using hx.hole
    · simp at hnil

/-- Where the number does not stand, all texts are the same. -/
theorem eq_self (h : Filled v v' t₀ t t') (hv : ¬ v <:+: t) : t₀ = t ∧ t' = t := by
  induction h with
  | nil => exact ⟨rfl, rfl⟩
  | char c h ih =>
    obtain ⟨rfl, rfl⟩ := ih fun hin => hv (hin.trans (List.suffix_cons c _).isInfix)
    exact ⟨rfl, rfl⟩
  | @hole t₀ t t' h ih => exact absurd (List.prefix_append v t).isInfix hv

/-- Filled texts are all empty or none is. -/
theorem eq_nil_iff (h : Filled v v' t₀ t t') (hv : IsNumberText v) (hv' : IsNumberText v') :
    (t₀ = [] ↔ t = []) ∧ (t₀ = [] ↔ t' = []) := by
  cases h with
  | nil => simp
  | char => simp
  | hole =>
    obtain ⟨u, c, rfl, -⟩ := hv.exists_last
    obtain ⟨u', c', rfl, -⟩ := hv'.exists_last
    simp

/-- After a number that ends in a digit the same pluses are dropped as after an empty group. -/
theorem dropUnaryPlusAfter (h : Filled v v' t₀ t t') (hv : IsNumberText v) (hv' : IsNumberText v')
    (hlast : v.getLast?.any isAsciiDigit = true) (hlast' : v'.getLast?.any isAsciiDigit = true)
    {q₀ q q' : Option Char} (hq : q₀.any endsOperand = q.any endsOperand)
    (hq' : q₀.any endsOperand = q'.any endsOperand) :
    Filled v v' (dropUnaryPlusAfter q₀ t₀) (FormulaPlot.dropUnaryPlusAfter q t)
      (FormulaPlot.dropUnaryPlusAfter q' t') := by
  -- Both a number and the empty group end an operand.
  have hnumber {u : Text} (hu : IsNumberText u) (hlast : u.getLast?.any isAsciiDigit = true)
      (q : Option Char) (t : Text) : ∃ c, endsOperand c = true ∧
        FormulaPlot.dropUnaryPlusAfter q (u ++ t) =
          u ++ FormulaPlot.dropUnaryPlusAfter (some c) t := by
    rw [Phrase.dropUnaryPlusAfter_append (Phrase.plus_notMem hu)]
    cases hc : u.getLast? with
    | none => rw [hc] at hlast; cases hlast
    | some c =>
      rw [hc] at hlast
      exact ⟨c, by rw [endsOperand, show isAsciiDigit c = true from hlast]; rfl, rfl⟩
  induction h generalizing q₀ q q' with
  | nil => exact .nil
  | @char c t₀ t t' h ih =>
    obtain ⟨hnil, hnil'⟩ := h.eq_nil_iff hv hv'
    have hrest : Filled v v' (FormulaPlot.dropUnaryPlusAfter (some c) t₀)
        (FormulaPlot.dropUnaryPlusAfter (some c) t) (FormulaPlot.dropUnaryPlusAfter (some c) t') :=
      ih rfl rfl
    rw [FormulaPlot.dropUnaryPlusAfter, FormulaPlot.dropUnaryPlusAfter,
      FormulaPlot.dropUnaryPlusAfter, ← hq, ← hq']
    simp only [← hnil, ← hnil']
    split
    · exact hrest
    · exact hrest.char c
  | @hole t₀ t t' h ih =>
    obtain ⟨c, hc, hdrop⟩ := hnumber hv hlast q t
    obtain ⟨c', hc', hdrop'⟩ := hnumber hv' hlast' q' t'
    rw [hdrop, hdrop', Phrase.dropUnaryPlusAfter_cons (by decide),
      Phrase.dropUnaryPlusAfter_cons (by decide)]
    exact (ih (by simp [hc]; decide) (by simp [hc']; decide)).hole

open Phrase in
/-- If a text with one number is that of a phrase then the text with the other number is that of a
phrase that varies from it. -/
theorem exists_varies {loose signs : Bool} (hv : Similar signs v v') {p : Phrase} (hp : Clean p)
    {t₀ t' : Text} (h : Filled v v' t₀ (text p) t') {pre : Text} (hpre : Outside pre)
    (htouch : loose = true ∨ touches pre t₀ = false) {b : Bool}
    (hb : b = true → pre.head?.any sticks = true) :
    ∃ p', Varies loose signs b p p' ∧ text p' = t' := by
  -- The flag may be set only where something sticks to what follows.
  have hflag (h : pre.head?.any sticks = false) : b = false := by
    rw [← Bool.not_eq_true]
    intro hbt
    rw [hb hbt] at h
    cases h
  -- The recursion is along the text. A number takes several characters of the phrase at once.
  match p, hp, h with
  | .nil, _, h =>
    obtain ⟨hnil, hnil'⟩ := h.eq_nil_iff hv.left hv.right
    exact ⟨.nil, .nil b, (hnil'.1 (hnil.2 rfl)).symm⟩
  | .char c rest, hp, h =>
    generalize hw : text (.char c rest) = w at h
    cases h with
    | nil => cases hw
    | char d h =>
      obtain ⟨rfl, rfl⟩ := List.cons.inj hw
      obtain ⟨rest', hvaries, rfl⟩ := exists_varies hv hp.2 h (hpre.cons hp.1)
        (htouch.imp_right fun ht => (touches_cons ht).2) (b := isOperandChar c)
        (fun hop => by rw [List.head?_cons, Option.any_some, sticks, hop, Bool.true_or])
      exact ⟨.char c rest', .char b (htouch.imp_right fun ht => (touches_cons ht).1) hvaries, rfl⟩
    | @hole t₁ t t'' h =>
      -- Here the number begins, and it is made of characters of its own.
      obtain ⟨q, hq, hchars, rfl⟩ := exists_chars hp hv.left hw
      obtain ⟨q', hvaries, rfl⟩ := exists_varies hv hq h (outside_paren (.inr rfl) ('(' :: pre))
        (htouch.imp_right fun ht => (touches_cons (touches_cons ht).2).2)
        (b := v.getLast?.any isOperandChar) (fun _ => rfl)
      refine ⟨chars v' q', ?_, text_chars v' q'⟩
      rw [hchars]
      exact .number (htouch.imp_right fun ht => hflag (not_sticks_of_group ht hpre)) hv hvaries
  | .call k inner rest, hp, h =>
    -- The word and the parentheses of the call are in no number, so they are in all three texts.
    have hparens {c : Char} (hc : c = '(' ∨ c = ')') : c ∉ v := fun hmem =>
      absurd (hv.left.isPlainChar hmem) (by rcases hc with rfl | rfl <;> decide)
    obtain ⟨w₀, y₀, w', y', rfl, rfl, hword, hy⟩ := h.split (hparens (.inl rfl))
    obtain ⟨rfl, rfl⟩ := hword.eq_self (not_isInfix_word k hv.left)
    obtain ⟨i₀, r₀, i', r', rfl, rfl, hi, hr⟩ := hy.split (hparens (.inr rfl))
    -- Of a text that does not touch no part touches.
    have hparts (ht : touches pre (k.word ++ '(' :: (i₀ ++ ')' :: r₀)) = false) :
        touches ('(' :: (k.word.reverse ++ pre)) i₀ = false ∧
          touches (')' :: (i₀.reverse ++ '(' :: (k.word.reverse ++ pre))) r₀ = false := by
      rw [touches_append, Bool.or_eq_false_iff] at ht
      have hinside := (touches_cons ht.2).2
      rw [touches_append, Bool.or_eq_false_iff] at hinside
      exact ⟨hinside.1, (touches_cons hinside.2).2⟩
    obtain ⟨inner', hinner, rfl⟩ := exists_varies hv hp.1 hi (outside_paren (.inl rfl) _)
      (htouch.imp_right fun ht => (hparts ht).1) (b := false) nofun
    obtain ⟨rest', hrest, rfl⟩ := exists_varies hv hp.2 hr (outside_paren (.inr rfl) _)
      (htouch.imp_right fun ht => (hparts ht).2) (b := true) (fun _ => rfl)
    exact ⟨.call k inner' rest',
      .call (htouch.imp_right fun ht => hflag (not_sticks_of_call ht hpre)) k hinner hrest, rfl⟩
termination_by (text p).length
decreasing_by
  · simp [text]
  · obtain ⟨u, d, rfl, -⟩ := hv.left.exists_last
    rw [hw]
    simp only [List.length_append, List.length_singleton]
    omega
  · simp only [text, List.length_append, List.length_cons]
    omega
  · simp only [text, List.length_append, List.length_cons]
    omega

end Filled

end FormulaPlot
