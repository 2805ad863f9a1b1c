import FormulaPlot.Formula.Reduction
import FormulaPlot.Proofs.Number.ReadText

/-!
# Phrases

A `Phrase` is a text in which the calls and groups are found. It is what the engine works on if the
text is in order: no name stands in it but those of its calls (`Phrase.Clear`).

The engine searches a text for the first call or group of a kind. In the text of a phrase whose
calls are of that kind or of later ones it finds the first one of the phrase
(`split?_of_first`), or none if the phrase has none (`split?_eq_none`). `Phrase.Occurs` says which
calls a phrase has and what is left of it when a number takes the place of one, and `Phrase.First`
which of them is the first of the first kind.
-/

namespace FormulaPlot

namespace Redex

/-- What stands before the parenthesis of a call or group. -/
def word : Redex → Text
  | call f => f.symbol
  | group => []

/-- The position of a kind in the order in which the kinds are resolved. -/
def rank (k : Redex) : Nat := all.idxOf k

/-- Every kind is resolved. -/
theorem mem_all (k : Redex) : k ∈ all := by
  cases k with
  | group => decide
  | call f => cases f <;> decide

/-- The ranks are the positions in the list of all kinds. -/
theorem rank_lt (k : Redex) : k.rank < all.length := List.idxOf_lt_length_of_mem k.mem_all

/-- The kind of a rank. -/
theorem get_rank (k : Redex) : all.get ⟨k.rank, k.rank_lt⟩ = k := List.getElem_idxOf k.rank_lt

/-- Kinds of one rank are the same. -/
theorem eq_of_rank_eq {k e : Redex} (h : k.rank = e.rank) : k = e := by
  rw [← k.get_rank, ← e.get_rank]
  simp only [h]

end Redex

/-- A text whose calls and groups are found. -/
inductive Phrase where
  | nil
  | char (c : Char) (rest : Phrase)
  | call (k : Redex) (inner rest : Phrase)

namespace Phrase

/-- Whether a phrase is empty. -/
def isNil : Phrase → Bool
  | nil => true
  | _ => false

/-- The text of a phrase. -/
def text : Phrase → Text
  | nil => []
  | char c rest => c :: text rest
  | call k inner rest => k.word ++ '(' :: (text inner ++ ')' :: text rest)

/-- The number of calls and groups. -/
def calls : Phrase → Nat
  | nil => 0
  | char _ rest => calls rest
  | call _ inner rest => calls inner + calls rest + 1

/-- All calls have at least a rank. -/
def AtLeast (n : Nat) : Phrase → Prop
  | nil => True
  | char _ rest => AtLeast n rest
  | call k inner rest => n ≤ k.rank ∧ AtLeast n inner ∧ AtLeast n rest

/-- A phrase that starts with a text. -/
def chars (s : Text) (rest : Phrase) : Phrase := s.foldr char rest

/-- The parentheses and the letters that names of functions have and numbers have not. -/
def reserved : List Char := ['(', ')', 's', 'q', 'r', 't', 'c', 'b', 'x', 'p', 'l', 'o', 'g']

/-- The characters that are not reserved for calls. -/
def isInert (c : Char) : Bool := !reserved.contains c

/-- A character makes a longer name of the one that follows it. -/
def Lengthens (c : Char) : Phrase → Prop
  | call k _ _ => ∃ f : Builtin, f.symbol = c :: k.word
  | _ => False

/-- No name stands in the text but those of the calls. -/
def Clear : Phrase → Prop
  | nil => True
  | char c rest => isInert c = true ∧ ¬ Lengthens c rest ∧ Clear rest
  | call _ inner rest => Clear inner ∧ Clear rest

/-- `Occurs k p inner g` says that a call of the kind `k` in `p` has `inner` in its parentheses, and
that `g` puts a text in its place. -/
inductive Occurs (k : Redex) : Phrase → Phrase → (Text → Phrase) → Prop where
  | here (inner rest : Phrase) : Occurs k (call k inner rest) inner fun s => chars s rest
  | char (c : Char) {rest inner : Phrase} {g : Text → Phrase} (h : Occurs k rest inner g) :
    Occurs k (char c rest) inner fun s => char c (g s)
  | inside (e : Redex) {p inner : Phrase} {g : Text → Phrase} (h : Occurs k p inner g)
    (rest : Phrase) : Occurs k (call e p rest) inner fun s => call e (g s) rest
  | after (e : Redex) (p : Phrase) {rest inner : Phrase} {g : Text → Phrase}
    (h : Occurs k rest inner g) : Occurs k (call e p rest) inner fun s => call e p (g s)

/-- `First k p inner g` says that a call occurs before and around which all calls are of later
kinds. -/
inductive First (k : Redex) : Phrase → Phrase → (Text → Phrase) → Prop where
  | here (inner rest : Phrase) : First k (call k inner rest) inner fun s => chars s rest
  | char (c : Char) {rest inner : Phrase} {g : Text → Phrase} (h : First k rest inner g) :
    First k (char c rest) inner fun s => char c (g s)
  | inside {e : Redex} (he : k.rank < e.rank) {p inner : Phrase} {g : Text → Phrase}
    (h : First k p inner g) (rest : Phrase) :
    First k (call e p rest) inner fun s => call e (g s) rest
  | after {e : Redex} (he : k.rank < e.rank) {p rest inner : Phrase} {g : Text → Phrase}
    (hp : AtLeast (k.rank + 1) p) (h : First k rest inner g) :
    First k (call e p rest) inner fun s => call e p (g s)

/-- The first call occurs. -/
theorem First.occurs {k : Redex} {p inner : Phrase} {g : Text → Phrase} (h : First k p inner g) :
    Occurs k p inner g := by
  induction h with
  | here inner rest => exact .here inner rest
  | char c h ih => exact .char c ih
  | inside he h rest ih => exact .inside _ ih rest
  | after he hp h ih => exact .after _ _ ih

/-- A phrase without calls of ranks below that of `k` has a first call of the kind `k` or none. -/
theorem first_or_atLeast {k : Redex} {p : Phrase} (h : AtLeast k.rank p) :
    (∃ inner g, First k p inner g) ∨ AtLeast (k.rank + 1) p := by
  induction p with
  | nil => exact .inr trivial
  | char c rest ih =>
    rcases ih h with ⟨inner, g, hg⟩ | hrest
    · exact .inl ⟨inner, _, .char c hg⟩
    · exact .inr hrest
  | call e inner rest ihi ihr =>
    obtain ⟨he, hi, hr⟩ := h
    rcases Nat.eq_or_lt_of_le he with heq | hlt
    · obtain rfl := Redex.eq_of_rank_eq heq
      exact .inl ⟨_, _, .here inner rest⟩
    · rcases ihi hi with ⟨i, g, hg⟩ | hinner
      · exact .inl ⟨i, _, .inside hlt hg rest⟩
      · rcases ihr hr with ⟨i, g, hg⟩ | hrest
        · exact .inl ⟨i, _, .after hlt hinner hg⟩
        · exact .inr ⟨hlt, hinner, hrest⟩

/-! ## What is left when a number takes the place of a call -/

/-- The text of a phrase that starts with a text. -/
@[simp] theorem text_chars (s : Text) (rest : Phrase) : text (chars s rest) = s ++ text rest := by
  induction s with
  | nil => rfl
  | cons c s ih => exact congrArg (c :: ·) ih

/-- Characters are no calls. -/
@[simp] theorem calls_chars (s : Text) (rest : Phrase) : calls (chars s rest) = calls rest := by
  induction s with
  | nil => rfl
  | cons c s ih => exact ih

/-- Characters have no rank. -/
@[simp] theorem atLeast_chars {n : Nat} (s : Text) (rest : Phrase) :
    AtLeast n (chars s rest) ↔ AtLeast n rest := by
  induction s with
  | nil => rfl
  | cons c s ih => exact ih

/-- Characters are inert if they are of a kind of which no reserved one is. -/
theorem isInert_of_all {p : Char → Bool} (hp : reserved.all (fun d => !p d) = true) {c : Char}
    (h : p c = true) : isInert c = true := by
  rw [isInert, Bool.not_eq_true', ← Bool.not_eq_true, List.contains_iff_mem]
  intro hc
  have hnot := List.all_eq_true.1 hp c hc
  rw [h] at hnot
  cases hnot

/-- What can stand in the text of a number is inert. -/
theorem isInert_of_isPlainChar {c : Char} (h : isPlainChar c = true) : isInert c = true :=
  isInert_of_all (by decide) h

/-- A number in front of a phrase brings no name. -/
theorem clear_chars {s : Text} (hs : IsNumberText s) {rest : Phrase} (h : Clear rest) :
    Clear (chars s rest) := by
  have hinert : ∀ c ∈ s, isInert c = true := fun c hc =>
    isInert_of_isPlainChar (hs.isPlainChar hc)
  obtain ⟨u, d, rfl, hd⟩ := hs.exists_last
  clear hs
  induction u with
  | nil =>
    refine ⟨hinert d (by simp), fun hlong => ?_, h⟩
    cases rest with
    | nil => exact hlong
    | char c rest => exact hlong
    | call k inner rest =>
      obtain ⟨f, hf⟩ := hlong
      have : endsNumber (f.symbol.headD ' ') = false := by cases f <;> decide
      rw [hf, List.headD_cons, hd] at this
      cases this
  | cons c u ih =>
    refine ⟨hinert c List.mem_cons_self, ?_, ih fun e he => hinert e (List.mem_cons_of_mem c he)⟩
    cases u <;> exact id

section Occurs

variable {k : Redex} {p inner : Phrase} {g : Text → Phrase}

/-- A call and the rest have one call less than the phrase. -/
theorem Occurs.calls_eq (h : Occurs k p inner g) (s : Text) :
    calls inner + calls (g s) + 1 = calls p := by
  induction h with
  | here inner rest => simp [calls]
  | char c h ih => exact ih
  | inside e h rest ih => simp only [calls]; omega
  | after e q h ih => simp only [calls]; omega

/-- The ranks stay. -/
theorem Occurs.atLeast (h : Occurs k p inner g) {n : Nat} (hp : AtLeast n p) (s : Text) :
    AtLeast n inner ∧ AtLeast n (g s) := by
  induction h with
  | here inner rest => exact ⟨hp.2.1, (atLeast_chars s rest).2 hp.2.2⟩
  | char c h ih => exact ih hp
  | inside e h rest ih => exact ⟨(ih hp.2.1).1, hp.1, (ih hp.2.1).2, hp.2.2⟩
  | after e q h ih => exact ⟨(ih hp.2.2).1, hp.1, hp.2.1, (ih hp.2.2).2⟩

/-- A number in the place of a call makes no name longer. -/
theorem Occurs.lengthens (h : Occurs k p inner g) {s : Text} (hs : s ≠ []) {c : Char}
    (hc : Lengthens c (g s)) : Lengthens c p := by
  cases h with
  | here inner rest =>
    obtain ⟨d, s, rfl⟩ := List.exists_cons_of_ne_nil hs
    cases hc
  | char d h => exact hc
  | inside e h rest => exact hc
  | after e q h => exact hc

/-- A number in the place of a call brings no name. -/
theorem Occurs.clear (h : Occurs k p inner g) (hp : Clear p) {s : Text} (hs : IsNumberText s) :
    Clear inner ∧ Clear (g s) := by
  induction h with
  | here inner rest => exact ⟨hp.1, clear_chars hs hp.2⟩
  | char c h ih =>
    have hne : s ≠ [] := by obtain ⟨u, d, rfl, -⟩ := hs.exists_last; simp
    exact ⟨(ih hp.2.2).1, hp.1, fun hc => hp.2.1 (h.lengthens hne hc), (ih hp.2.2).2⟩
  | inside e h rest ih => exact ⟨(ih hp.1).1, (ih hp.1).2, hp.2⟩
  | after e q h ih => exact ⟨(ih hp.2).1, hp.1, (ih hp.2).2⟩

/-- Neither the phrase nor what is left of it is empty. -/
theorem Occurs.isNil_eq (h : Occurs k p inner g) {s : Text} (hs : s ≠ []) :
    p.isNil = false ∧ (g s).isNil = false := by
  cases h with
  | here inner rest =>
    obtain ⟨c, s, rfl⟩ := List.exists_cons_of_ne_nil hs
    exact ⟨rfl, rfl⟩
  | char c h => exact ⟨rfl, rfl⟩
  | inside e h rest => exact ⟨rfl, rfl⟩
  | after e q h => exact ⟨rfl, rfl⟩

end Occurs

end Phrase

end FormulaPlot
