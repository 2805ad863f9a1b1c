import FormulaPlot.Proofs.Expression.Written

/-!
# What the engine makes of an expression

The text of an expression whose leaves are numbers is that of a phrase (`clear_phrase`) without
unary pluses (`dropPlus_phrase`), and nesting bounds how deep its calls are (`fits_phrase`). So
the engine gives it the value of the phrase, which is found along the tree: calls give way to
operands, and what is left are operands joined as they are written (`value_phrase`).

A plus after the value of a call may have been dropped where the value is a name. There the text
has no value with or without the plus, as something else counts in it.
-/

namespace FormulaPlot

open Phrase (Clear AtLeast Settled Fits flatten value)

variable {ν : Type}

mutual

/-- An atom as an operand, if it has a value for the engine. -/
def Atom.operand? (leaf : ν → Operand) : Atom ν → Option Operand
  | .leaf n => some (leaf n)
  | .call k e => ((e.operands? leaf).bind fun p => finish (Operand.written p.1 p.2)).map fun v =>
    .ofFloat (k.apply v)

/-- The atoms of an expression as operands. -/
def Expression.operands? (leaf : ν → Operand) :
    Expression ν → Option (Operand × List (Joint × Operand))
  | .single a => (a.operand? leaf).map fun x => (x, [])
  | .join a j rest => (a.operand? leaf).bind fun x =>
    (rest.operands? leaf).map fun p => (x, (j, p.1) :: p.2)

end

/-! ## The phrase of an expression -/

/-- The texts of leaves. -/
def leafText (leaf : ν → Operand) (n : ν) : Text := (leaf n).text

/-- No name begins with a character of operands or joints. -/
theorem head?_symbol_ne_of_isOperandChar {c : Char}
    (h : isOperandChar c = true ∨ ∃ j : Joint, c = j.symbol) (f : Builtin) :
    f.symbol.head? ≠ some c := by
  -- The names begin with letters, which is seen in the table.
  have hall : ∀ f ∈ Builtin.all, f.symbol.head?.all (fun c => !isOperandChar c &&
      Operator.all.all fun o => o.symbol != c) = true := by decide
  intro hf
  have := hall f f.mem_all
  rw [hf] at this
  simp only [Option.all_some, Bool.and_eq_true, Bool.not_eq_true'] at this
  rcases h with h | ⟨j, rfl⟩
  · rw [this.1] at h
    cases h
  · cases j with
    | hyphen => exact absurd this.1 (by decide)
    | operator o =>
      have ho := List.all_eq_true.1 this.2 o (by cases o <;> decide)
      simp [Joint.symbol] at ho

variable {leaf : ν → Operand}

/-- Characters of operands in front of a phrase bring no name. -/
theorem clear_chars_leaf {t : Text} (ht : ∀ c ∈ t, isOperandChar c = true) {p : Phrase}
    (hp : Clear p) : Clear (.chars t p) := by
  induction t with
  | nil => exact hp
  | cons c t ih =>
    have hc := ht c List.mem_cons_self
    exact ⟨isInert_of_isOperandChar hc,
      Phrase.not_lengthens (head?_symbol_ne_of_isOperandChar (.inl hc)) _,
      ih fun d hd => ht d (List.mem_cons_of_mem c hd)⟩

mutual

/-- An atom in front of a phrase brings no name but those of its calls. -/
theorem Atom.clear_phrase (hleaf : ∀ n, (leaf n).plain = true) {p : Phrase} (hp : Clear p) :
    (a : Atom ν) → Clear (a.phrase (leafText leaf) p)
  | .leaf n => clear_chars_leaf (Operand.isOperandChar (hleaf n)) hp
  | .call _ e => ⟨Expression.clear_phrase hleaf e, hp⟩

/-- No name stands in an expression but those of its calls. -/
theorem Expression.clear_phrase (hleaf : ∀ n, (leaf n).plain = true) :
    (e : Expression ν) → Clear (e.phrase (leafText leaf))
  | .single a => Atom.clear_phrase hleaf (p := .nil) trivial a
  | .join a j rest => by
    refine Atom.clear_phrase hleaf (p := .char j.symbol (rest.phrase (leafText leaf)))
      ⟨?_, ?_, ?_⟩ a
    · cases j with
      | hyphen => decide
      | operator o => cases o <;> decide
    · exact Phrase.not_lengthens (head?_symbol_ne_of_isOperandChar (.inr ⟨j, rfl⟩)) _
    · exact Expression.clear_phrase hleaf rest

end

/-- An atom in front of a phrase is not empty. -/
theorem Atom.isNil_phrase (hleaf : ∀ n, (leaf n).plain = true) (a : Atom ν) (p : Phrase) :
    (a.phrase (leafText leaf) p).isNil = false := by
  cases a with
  | leaf n =>
    obtain ⟨u, d, h, -⟩ := Operand.exists_last (hleaf n)
    rw [Atom.phrase, leafText, h]
    cases u <;> rfl
  | call k e => rfl

/-- An expression is not empty. -/
theorem Expression.isNil_phrase (hleaf : ∀ n, (leaf n).plain = true) (e : Expression ν) :
    (e.phrase (leafText leaf)).isNil = false := by
  cases e with
  | single a => exact Atom.isNil_phrase hleaf a .nil
  | join a j rest => exact Atom.isNil_phrase hleaf a _

mutual

/-- Dropping pluses keeps an atom, and what follows it follows the end of an operand. -/
theorem Atom.dropPlus_phrase (hleaf : ∀ n, (leaf n).plain = true) (last : Bool) (q : Option Char)
    (p : Phrase) :
    (a : Atom ν) → ∃ d, endsOperand d = true ∧
      Phrase.dropPlus last q (a.phrase (leafText leaf) p) =
        a.phrase (leafText leaf) (Phrase.dropPlus last (some d) p)
  | .leaf n => by
    obtain ⟨u, d, h, hd⟩ := Operand.exists_last (hleaf n)
    have hplus : '+' ∉ leafText leaf n := fun h =>
      absurd (Operand.isOperandChar (hleaf n) _ h) (by decide)
    refine ⟨d, by rw [endsOperand, hd]; rfl, ?_⟩
    rw [Atom.phrase, Phrase.dropPlus_chars hplus, Atom.phrase]
    rw [leafText, h, List.getLast?_concat]
    rfl
  | .call k e => ⟨')', by decide, by
    rw [Atom.phrase, Phrase.dropPlus, Expression.dropPlus_phrase hleaf false (some '(') e]
    rfl⟩

/-- An expression has no unary plus. -/
theorem Expression.dropPlus_phrase (hleaf : ∀ n, (leaf n).plain = true) (last : Bool)
    (q : Option Char) :
    (e : Expression ν) → Phrase.dropPlus last q (e.phrase (leafText leaf)) =
      e.phrase (leafText leaf)
  | .single a => by
    obtain ⟨d, -, h⟩ := Atom.dropPlus_phrase hleaf last q .nil a
    exact h
  | .join a j rest => by
    obtain ⟨d, hd, h⟩ := Atom.dropPlus_phrase hleaf last q
      (.char j.symbol (rest.phrase (leafText leaf))) a
    rw [Expression.phrase, h, Phrase.dropPlus, if_neg,
      Expression.dropPlus_phrase hleaf last (some j.symbol) rest]
    rw [Expression.isNil_phrase hleaf rest, Option.any_some, hd]
    simp

end

mutual

/-- The calls of an atom are not deeper than it is nested. -/
theorem Atom.fits_phrase {limit depth : Int} {around : List Redex} {p : Phrase}
    (hp : Fits limit depth around p) :
    (a : Atom ν) → depth + around.length + a.depth ≤ limit →
      Fits limit depth around (a.phrase (leafText leaf) p)
  | .leaf n => fun _ => (Phrase.fits_chars _ _).2 hp
  | .call k e => fun h => by
    -- Of the calls around, only some count.
    have hlen := List.length_filter_le (fun x : Redex => decide (x.rank ≤ k.rank)) around
    rw [Atom.depth] at h
    refine ⟨?_, Expression.fits_phrase e ?_, hp⟩ <;> simp only [List.length_append,
      List.length_singleton] <;> omega

/-- The calls of an expression are not deeper than it is nested. -/
theorem Expression.fits_phrase {limit depth : Int} {around : List Redex} :
    (e : Expression ν) → depth + around.length + e.depth ≤ limit →
      Fits limit depth around (e.phrase (leafText leaf))
  | .single a => fun h => Atom.fits_phrase (p := .nil) trivial a h
  | .join a j rest => fun h => by
    rw [Expression.depth] at h
    have hrest : Fits limit depth around (rest.phrase (leafText leaf)) :=
      Expression.fits_phrase rest (by omega)
    exact Atom.fits_phrase (p := .char j.symbol (rest.phrase (leafText leaf))) hrest a (by omega)

end

/-! ## The value of the phrase -/

/-- A text is that of operands as they are written, but for pluses after names. -/
structure Resembles (t : Text) (a : Operand) (rest : List (Joint × Operand)) : Prop where
  letters : t.countP isNameLetter = (Operand.written a rest).countP isNameLetter
  digits : t.countP isAsciiDigit = (Operand.written a rest).countP isAsciiDigit
  eq_written : (rest ≠ [] → a.plain = true ∧ ∀ x ∈ rest, x.2.plain = true) →
    t = Operand.written a rest

/-- Pluses after names make no difference to the value. -/
theorem Resembles.finish_eq {t : Text} {a : Operand} {rest : List (Joint × Operand)}
    (h : Resembles t a rest) : finish t = finish (Operand.written a rest) := by
  by_cases hplain : rest ≠ [] → a.plain = true ∧ ∀ x ∈ rest, x.2.plain = true
  · rw [h.eq_written hplain]
  · rw [Classical.not_imp] at hplain
    obtain ⟨hne, hplain⟩ := hplain
    -- A name is among several operands, so both texts have too much in them for a number.
    have hcrowded : Crowded (Operand.written a rest) := by
      refine Operand.crowded_written hne ?_
      by_contra hname
      push Not at hname
      exact hplain ⟨by simpa using hname.1, fun x hx => by simpa using hname.2 x hx⟩
    have hcrowded' : Crowded t := by
      unfold Crowded at hcrowded ⊢
      rw [h.letters, h.digits]
      exact hcrowded
    have hnone {u : Text} (hu : Crowded u) : finish u = none :=
      Option.eq_none_iff_forall_ne_some.2 fun v hv => not_crowded_of_finish hv hu
    rw [hnone hcrowded, hnone hcrowded']

/-- A joint and what follows, when a plus after a name may have been dropped. -/
theorem Resembles.join {t u : Text} {a b : Operand} {j : Joint} {rest : List (Joint × Operand)}
    (h : Resembles t b rest)
    (hu : u = a.text ++ j.symbol :: t ∨ j.symbol = '+' ∧ a.plain = false ∧ u = a.text ++ t) :
    Resembles u a ((j, b) :: rest) := by
  have hwritten : Operand.written a ((j, b) :: rest) =
      a.text ++ j.symbol :: Operand.written b rest := by
    simp [Operand.written]
  -- The plus that may be missing is not counted.
  have hcount {p : Char → Bool} (hp : p '+' = false)
      (ht : t.countP p = (Operand.written b rest).countP p) :
      u.countP p = (Operand.written a ((j, b) :: rest)).countP p := by
    rw [hwritten, List.countP_append, List.countP_cons, ← ht]
    rcases hu with rfl | ⟨hj, -, rfl⟩
    · rw [List.countP_append, List.countP_cons]
    · rw [List.countP_append, hj, hp]
      rfl
  refine ⟨hcount (by decide) h.letters, hcount (by decide) h.digits, fun hplain => ?_⟩
  obtain ⟨ha, hplain⟩ := hplain (List.cons_ne_nil _ _)
  obtain ⟨hb, hplain⟩ := List.forall_mem_cons.1 hplain
  rw [hwritten, ← h.eq_written fun _ => ⟨hb, hplain⟩]
  exact hu.resolve_right fun h => absurd (ha.symm.trans h.2.1) Bool.noConfusion

/-- What is left of an expression resembles its operands, if it has any. -/
def LeavesOperands (t : Option Text) (p : Option (Operand × List (Joint × Operand))) : Prop :=
  match p with
  | none => t = none
  | some (a, rest) => ∃ u, t = some u ∧ Resembles u a rest

mutual

/-- What is left of an atom and what follows. -/
theorem Atom.flatten_phrase (hleaf : ∀ n, (leaf n).plain = true) (x : Redex) (q : Option Char)
    (p : Phrase) :
    (a : Atom ν) → ∃ after : Operand → Option Char,
      (∀ b, b.plain = true → a.operand? leaf = some b → (after b).any endsOperand = true) ∧
      flatten (some x) q (a.phrase (leafText leaf) p) = (a.operand? leaf).bind fun b =>
        (flatten (some x) (after b) p).map (b.text ++ ·)
  | .leaf n => by
    obtain ⟨u, d, h, hd⟩ := Operand.exists_last (hleaf n)
    have hplus : '+' ∉ leafText leaf n := fun h =>
      absurd (Operand.isOperandChar (hleaf n) _ h) (by decide)
    refine ⟨fun _ => some d, fun _ _ _ => by rw [Option.any_some, endsOperand, hd]; rfl, ?_⟩
    rw [Atom.phrase, Phrase.flatten_chars hplus]
    rw [leafText, h, List.getLast?_concat, ← h]
    rfl
  | .call k e => by
    refine ⟨fun b => Phrase.endOf k b.text (some x), fun b hb _ => ?_, ?_⟩
    · -- Either the parenthesis is what comes before, or the last digit of the value.
      obtain ⟨u, d, h, hd⟩ := Operand.exists_last hb
      change (if k.rank < x.rank then b.text.getLast? else some ')').any endsOperand = true
      split
      · rw [h, List.getLast?_concat, Option.any_some, endsOperand, hd]
        rfl
      · rfl
    · rw [Atom.phrase, Phrase.flatten_call, Expression.value_phrase hleaf k e, Atom.operand?,
        Option.bind_map]
      rfl

/-- What is left of an expression resembles its operands. -/
theorem Expression.flatten_phrase (hleaf : ∀ n, (leaf n).plain = true) (x : Redex)
    (q : Option Char) :
    (e : Expression ν) →
      LeavesOperands (flatten (some x) q (e.phrase (leafText leaf))) (e.operands? leaf)
  | .single a => by
    obtain ⟨after, -, h⟩ := Atom.flatten_phrase hleaf x q .nil a
    rw [Expression.phrase, h, Expression.operands?]
    cases a.operand? leaf with
    | none => exact rfl
    | some b =>
      refine ⟨b.text ++ [], rfl, ?_⟩
      have : Operand.written b [] = b.text ++ [] := rfl
      exact ⟨by rw [this], by rw [this], fun _ => this.symm⟩
  | .join a j rest => by
    -- The joint is dropped or kept by the character at the end of the first operand.
    obtain ⟨after, hafter, h⟩ := Atom.flatten_phrase hleaf x q
      (.char j.symbol (rest.phrase (leafText leaf))) a
    have hrest := Expression.flatten_phrase hleaf x (some j.symbol) rest
    rw [Expression.phrase, h, Expression.operands?]
    cases hb : a.operand? leaf with
    | none => exact rfl
    | some b =>
      rw [Option.bind_some, Option.bind_some, flatten]
      cases hp : rest.operands? leaf with
      | none =>
        rw [hp] at hrest
        rw [show flatten (some x) (some j.symbol) (rest.phrase (leafText leaf)) = none from hrest]
        split <;> exact rfl
      | some p =>
        rw [hp] at hrest
        obtain ⟨u, hu, hres⟩ := hrest
        rw [hu]
        split
        next hdrop =>
          -- A plus is dropped after a name only.
          refine ⟨b.text ++ u, rfl, hres.join (.inr ⟨hdrop.1, ?_, rfl⟩)⟩
          rw [← Bool.not_eq_true]
          intro hplain
          have hend := hafter b hplain hb
          rw [Phrase.drops, Expression.isNil_phrase hleaf rest, hend] at hdrop
          exact absurd hdrop.2 (by simp)
        next => exact ⟨b.text ++ j.symbol :: u, rfl, hres.join (.inl rfl)⟩

/-- An expression has the value of its operands as they are written. -/
theorem Expression.value_phrase (hleaf : ∀ n, (leaf n).plain = true) (x : Redex) :
    (e : Expression ν) → value (some x) (e.phrase (leafText leaf)) =
      (e.operands? leaf).bind fun p => finish (Operand.written p.1 p.2)
  | e => by
    have h := Expression.flatten_phrase hleaf x none e
    rw [value]
    cases hp : e.operands? leaf with
    | none =>
      rw [hp] at h
      rw [show flatten (some x) none (e.phrase (leafText leaf)) = none from h]
      rfl
    | some p =>
      rw [hp] at h
      obtain ⟨u, hu, hres⟩ := h
      rw [hu]
      exact hres.finish_eq

end

/-! ## The engine -/

/-- The engine gives an expression the value of its operands as they are written, if none of its
calls is too deep. -/
theorem Expression.reduce_text_iff (hleaf : ∀ n, (leaf n).plain = true) {limit depth : Int}
    (e : Expression ν) (w : Float) :
    (reduce limit depth (e.text (leafText leaf))).outcome.toOption = some w ↔
      depth ≤ limit ∧ Fits limit depth [] (e.phrase (leafText leaf)) ∧
        ((e.operands? leaf).bind fun p => finish (Operand.written p.1 p.2)) = some w := by
  have hdrop := Expression.dropPlus_phrase hleaf true none e
  have hsettled : Settled none (e.phrase (leafText leaf)) := by
    rw [← hdrop]
    exact Phrase.settled_dropPlus true none _
  -- No kind is resolved before the first one, so it can stand for the outside of all calls.
  have hfirst : AtLeast (Redex.call .sqrt).rank (e.phrase (leafText leaf)) :=
    Phrase.atLeast_zero _
  rw [← Expression.text_phrase, Phrase.reduce_text_iff (Expression.clear_phrase hleaf e) hsettled,
    Phrase.value_dropPlus hfirst hsettled, Expression.value_phrase hleaf]

/-- The engine gives an expression that is not nested too deep the value of its operands as they
are written, if they have one. -/
theorem Expression.toOption_reduce_text (hleaf : ∀ n, (leaf n).plain = true) {limit depth : Int}
    (e : Expression ν) (h : depth + e.depth ≤ limit) :
    (reduce limit depth (e.text (leafText leaf))).outcome.toOption =
      (e.operands? leaf).bind fun p => finish (Operand.written p.1 p.2) := by
  refine Option.ext fun w => ?_
  rw [Expression.reduce_text_iff hleaf e w]
  exact ⟨fun h => h.2.2, fun hw => ⟨by omega, Expression.fits_phrase e (by simpa using h), hw⟩⟩

end FormulaPlot
