import FormulaPlot.Proofs.Phrase.Search

/-!
# Pluses in phrases

A reduction begins by dropping the unary pluses of its text, also those in calls and groups.
`dropPlus` does the same to a phrase (`dropUnaryPlus_text`).

After that every plus follows a character at which an operand can end (`Settled`), and a number
that takes the place of a call leaves it so (`Occurs.settled`), unless the number is `inf` or `nan`:
a plus after one of them is dropped by the next reduction of a text that holds it.
-/

namespace FormulaPlot

namespace Phrase

/-- A phrase after `previous` without its unary pluses. `last` tells whether its end is that of the
text. -/
def dropPlus (last : Bool) (previous : Option Char) : Phrase → Phrase
  | nil => nil
  | char c rest =>
    if c = '+' ∧ ((last && rest.isNil) = true ∨ previous.any endsOperand = false) then
      dropPlus last (some c) rest
    else char c (dropPlus last (some c) rest)
  | call k inner rest => call k (dropPlus false (some '(') inner) (dropPlus last (some ')') rest)

/-- Characters that a plus can follow: those at which an operand or the text of a number ends. -/
def canPrecedePlus (c : Char) : Bool := endsOperand c || endsNumber c

/-- A plus can follow a character at which an operand ends. -/
theorem any_canPrecedePlus {q : Option Char} (h : q.any endsOperand = true) :
    q.any canPrecedePlus = true := by
  cases q with
  | none => cases h
  | some d =>
    rw [Option.any_some] at h
    rw [Option.any_some, canPrecedePlus, h, Bool.true_or]

/-- Every plus of a phrase after `previous` follows a character that it can follow. -/
def Settled : Option Char → Phrase → Prop
  | _, nil => True
  | previous, char c rest =>
    (c = '+' → previous.any canPrecedePlus = true) ∧ Settled (some c) rest
  | _, call _ inner rest => Settled none inner ∧ Settled (some ')') rest

/-! ## Dropping pluses from texts -/

/-- What has no plus stays. -/
theorem dropUnaryPlusAfter_append {u : Text} (h : '+' ∉ u) (q : Option Char) (t : Text) :
    dropUnaryPlusAfter q (u ++ t) = u ++ dropUnaryPlusAfter (u.getLast?.or q) t := by
  induction u generalizing q with
  | nil => rfl
  | cons d u ih =>
    have hd : d ≠ '+' := fun hd => h (hd ▸ List.mem_cons_self)
    rw [List.cons_append, dropUnaryPlusAfter, if_neg fun h => hd h.1,
      ih fun hu => h (List.mem_cons_of_mem d hu), getLast?_cons_or]
    rfl

/-- What is no plus is kept. -/
theorem dropUnaryPlusAfter_cons {c : Char} (hc : c ≠ '+') (q : Option Char) (t : Text) :
    dropUnaryPlusAfter q (c :: t) = c :: dropUnaryPlusAfter (some c) t := by
  rw [dropUnaryPlusAfter, if_neg fun h => hc h.1]

/-- The text of an empty phrase is empty. -/
theorem isNil_iff {p : Phrase} : p.isNil = true ↔ text p = [] := by
  cases p <;> simp [isNil, text]

/-- Dropping the unary pluses of a phrase drops those of its text. -/
theorem dropUnaryPlusAfter_text (p : Phrase) (q : Option Char) {t : Text} (ht : Edge t) :
    dropUnaryPlusAfter q (text p ++ t) =
      text (dropPlus t.isEmpty q p) ++ dropUnaryPlusAfter none t := by
  -- The text after the phrase is carried along, as it decides whether a plus at the end is the last
  -- character.
  induction p generalizing q t with
  | nil =>
    cases t with
    | nil => rfl
    | cons c t =>
      have hc : c ≠ '+' := by
        rintro rfl
        exact absurd ht (by simp [Edge])
      rw [dropUnaryPlusAfter_cons hc]
      exact dropUnaryPlusAfter_cons hc q t
  | char c rest ih =>
    have hnil : text rest ++ t = [] ↔ (t.isEmpty && rest.isNil) = true := by
      rw [List.append_eq_nil_iff, Bool.and_eq_true, isNil_iff, List.isEmpty_iff, and_comm]
    rw [text, List.cons_append, dropUnaryPlusAfter, dropPlus, ih (some c) ht]
    simp only [hnil]
    split <;> rfl
  | call k inner rest ihi ihr =>
    -- What follows the parentheses of a call sees just them.
    have hword : '+' ∉ k.word := by
      have hall : ∀ k ∈ Redex.all, '+' ∉ k.word := by decide
      exact hall k k.mem_all
    rw [text, List.append_assoc, List.cons_append, List.append_assoc,
      dropUnaryPlusAfter_append hword, dropUnaryPlusAfter_cons (by decide),
      ihi (some '(') (by rfl), List.cons_append, dropUnaryPlusAfter_cons (by decide),
      ihr (some ')') ht]
    simp [dropPlus, text]

/-- Dropping the unary pluses of a text that is a phrase. -/
theorem dropUnaryPlus_text (p : Phrase) : dropUnaryPlus (text p) = text (dropPlus true none p) := by
  have := dropUnaryPlusAfter_text p none (t := []) rfl
  rwa [List.append_nil, dropUnaryPlusAfter, List.append_nil] at this

/-! ## Pluses that stay -/

/-- Only a plus at the start asks for what comes before. -/
theorem Settled.of_imp {q r : Option Char} {p : Phrase} (h : Settled q p)
    (hqr : q.any canPrecedePlus = true → r.any canPrecedePlus = true) : Settled r p := by
  cases p with
  | nil => trivial
  | char c rest => exact ⟨fun hc => hqr (h.1 hc), h.2⟩
  | call k inner rest => exact h

/-- Without unary pluses a phrase is settled. -/
theorem settled_dropPlus (last : Bool) (q : Option Char) (p : Phrase) :
    Settled q (dropPlus last q p) := by
  induction p generalizing last q with
  | nil => trivial
  | char c rest ih =>
    rw [dropPlus]
    split
    next h =>
      -- No plus follows one that is dropped.
      rw [h.1]
      exact (ih last (some '+')).of_imp fun h => absurd h (by decide)
    next h =>
      refine ⟨fun hc => ?_, ih last (some c)⟩
      rw [not_and_or, not_or, Bool.not_eq_false] at h
      exact any_canPrecedePlus (h.resolve_left (absurd hc)).2
  | call k inner rest ihi ihr =>
    exact ⟨(ihi false (some '(')).of_imp fun h => absurd h (by decide), ihr last (some ')')⟩

/-- What has no plus stays in front of a phrase. -/
theorem dropPlus_chars {t : Text} (h : '+' ∉ t) (last : Bool) (q : Option Char) (p : Phrase) :
    dropPlus last q (chars t p) = chars t (dropPlus last (t.getLast?.or q) p) := by
  induction t generalizing q with
  | nil => rfl
  | cons c t ih =>
    have hc : c ≠ '+' := fun hc => h (hc ▸ List.mem_cons_self)
    rw [chars, List.foldr_cons, dropPlus, if_neg fun h => hc h.1, ← chars,
      ih fun ht => h (List.mem_cons_of_mem c ht), getLast?_cons_or]
    rfl

/-- Dropping pluses drops no call. -/
@[simp] theorem calls_dropPlus (last : Bool) (q : Option Char) (p : Phrase) :
    calls (dropPlus last q p) = calls p := by
  induction p generalizing last q with
  | nil => rfl
  | char c rest ih =>
    rw [dropPlus]
    split <;> exact ih last (some c)
  | call k inner rest ihi ihr => simp only [dropPlus, calls, ihi, ihr]

/-- A character with which no name begins makes no name longer. -/
theorem not_lengthens {c : Char} (hc : ∀ f : Builtin, f.symbol.head? ≠ some c) (p : Phrase) :
    ¬ Lengthens c p := by
  intro h
  cases p with
  | nil => exact h
  | char d rest => exact h
  | call k inner rest =>
    obtain ⟨f, hf⟩ := h
    exact hc f (by rw [hf]; rfl)

/-- No name begins with a character that a plus can follow. -/
theorem head?_symbol_ne {c : Char} (hc : canPrecedePlus c = true) (f : Builtin) :
    f.symbol.head? ≠ some c := by
  intro h
  have : f.symbol.head?.all (fun c => !canPrecedePlus c) = true := by cases f <;> decide
  rw [h] at this
  simp [hc] at this

/-- Dropping pluses from a settled phrase brings no name. -/
theorem clear_dropPlus {p : Phrase} (hp : Clear p) {q : Option Char} (hq : Settled q p)
    (last : Bool) (r : Option Char) : Clear (dropPlus last r p) := by
  induction p generalizing last q r with
  | nil => trivial
  | char c rest ih =>
    rw [dropPlus]
    split
    · exact ih hp.2.2 hq.2 last (some c)
    · refine ⟨hp.1, fun hlong => ?_, ih hp.2.2 hq.2 last (some c)⟩
      -- A name could only come about where a plus between its letters is gone, and no name begins
      -- before a plus.
      cases rest with
      | nil => exact hlong
      | char d rest =>
        by_cases hd : d = '+'
        · exact not_lengthens (head?_symbol_ne (hq.2.1 hd)) _ hlong
        · rw [dropPlus, if_neg fun h => hd h.1] at hlong
          exact hlong
      | call k inner rest => exact hp.2.1 hlong
  | call k inner rest ihi ihr => exact ⟨ihi hp.1 hq.1 _ _, ihr hp.2 hq.2 _ _⟩

/-- A number in front of a settled phrase leaves it settled. -/
theorem settled_chars {s : Text} (hs : IsNumberText s) {rest : Phrase}
    (h : Settled (some ')') rest) (q : Option Char) : Settled q (chars s rest) := by
  have hplus : ∀ c ∈ s, c ≠ '+' := fun c hc he => by
    rw [he] at hc
    exact absurd (hs.isPlainChar hc) (by decide)
  obtain ⟨u, d, rfl, hd⟩ := hs.exists_last
  -- The character that counts is the last one, so the induction is on what comes before it.
  clear hs
  induction u generalizing q with
  | nil =>
    refine ⟨fun hc => absurd hc (hplus d (by simp)), h.of_imp fun _ => ?_⟩
    rw [Option.any_some, canPrecedePlus, hd, Bool.or_true]
  | cons c u ih =>
    exact ⟨fun hc => absurd hc (hplus c (by simp)),
      ih (some c) fun e he => hplus e (List.mem_cons_of_mem c he)⟩

/-- A number in the place of a call leaves a phrase settled. -/
theorem Occurs.settled {k : Redex} {p inner : Phrase} {g : Text → Phrase} (h : Occurs k p inner g)
    {q : Option Char} (hp : Settled q p) {s : Text} (hs : IsNumberText s) :
    Settled none inner ∧ Settled q (g s) := by
  induction h generalizing q with
  | here inner rest => exact ⟨hp.1, settled_chars hs hp.2 q⟩
  | char c h ih => exact ⟨(ih hp.2).1, hp.1, (ih hp.2).2⟩
  | inside e h rest ih => exact ⟨(ih hp.1).1, (ih hp.1).2, hp.2⟩
  | after e p h ih => exact ⟨(ih hp.2).1, hp.1, (ih hp.2).2⟩

end Phrase

end FormulaPlot
