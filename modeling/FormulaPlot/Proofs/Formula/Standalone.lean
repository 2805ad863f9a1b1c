import FormulaPlot.Proofs.Expression.Variable
import FormulaPlot.Proofs.Number.Typed

/-!
# Where the variable stands alone

Substitution goes by the text that it is given: whether an occurrence of the variable is replaced
depends on the two characters next to it there, and on nothing that was put in the place of another
one. So its result can be told position by position (`substituteAfter_eq_flatMap`).

For the pieces of a formula this means that every variable is replaced that is an operand of its
own, and that every name stays, also if it has the letter of the variable in it: each letter of a
name has another one next to it within the name (`shielded_symbol`). Blanks change nothing, as they
are gone by then, even those that split a name (`WithBlanks.filter_eq`). `substitute_standalone` puts
these together.
-/

namespace FormulaPlot

open DecimalDigit

/-! ## Positions -/

/-- At a position of a text stands the variable, with no letter next to it. -/
def StandsAlone (t : Text) (unknown : Char) (i : Nat) : Prop :=
  t[i]? = some unknown ∧ (0 < i → t[i - 1]?.any isAsciiLetter = false) ∧
    t[i + 1]?.any isAsciiLetter = false

instance (t : Text) (unknown : Char) (i : Nat) : Decidable (StandsAlone t unknown i) :=
  inferInstanceAs (Decidable (_ ∧ _ ∧ _))

/-- What is next to a character is the last one before it and the first one after it. -/
theorem standsAlone_append (u : Text) (c : Char) (v : Text) (x : Char) :
    StandsAlone (u ++ c :: v) x u.length ↔
      c = x ∧ u.getLast?.any isAsciiLetter = false ∧ v.head?.any isAsciiLetter = false := by
  have hat : (u ++ c :: v)[u.length]? = some c := by simp
  have hafter : (u ++ c :: v)[u.length + 1]? = v.head? := by
    simp [List.getElem?_append_right, List.head?_eq_getElem?]
  rw [StandsAlone, hat, hafter, Option.some_inj]
  -- At the start there is nothing before the variable.
  rcases List.eq_nil_or_concat' u with rfl | ⟨w, d, rfl⟩
  · simp
  · have hbefore : (w ++ [d] ++ c :: v)[(w ++ [d]).length - 1]? = some d := by simp
    have hpos : 0 < (w ++ [d]).length := by simp
    rw [hbefore, List.getLast?_concat]
    simp only [hpos, true_implies]

/-- From every position on, each position gives the value where the variable stands alone, and else
its character. -/
theorem substituteAfter_eq_flatMap (x : Char) (value u v : Text) :
    substituteAfter u.getLast? x value v = (List.range' u.length v.length).flatMap fun i =>
      if StandsAlone (u ++ v) x i then value else (u ++ v)[i]?.toList := by
  induction v generalizing u with
  | nil => rfl
  | cons c v ih =>
    -- The first character moves to the text before, which keeps the positions.
    have hrest := ih (u ++ [c])
    rw [List.append_assoc, List.singleton_append, List.length_append, List.length_singleton,
      List.getLast?_concat] at hrest
    have hat : (u ++ c :: v)[u.length]?.toList = [c] := by simp
    rw [substituteAfter, List.length_cons, List.range'_succ, List.flatMap_cons, hrest, hat]
    simp only [standsAlone_append]

/-! ## Letters -/

/-- The code points of letters. -/
theorem toNat_of_isAsciiLetter {c : Char} (h : isAsciiLetter c = true) :
    65 ≤ c.toNat ∧ c.toNat ≤ 122 := by
  simp only [isAsciiLetter, Bool.or_eq_true, Bool.and_eq_true, decide_eq_true_eq, Char.le_def,
    UInt32.le_iff_toNat_le] at h
  rcases h with ⟨hlow, hhigh⟩ | ⟨hlow, hhigh⟩
  · change 97 ≤ c.toNat at hlow
    change c.toNat ≤ 122 at hhigh
    omega
  · change 65 ≤ c.toNat at hlow
    change c.toNat ≤ 90 at hhigh
    omega

/-- No digit of any script is a letter. -/
theorem isAsciiLetter_of_isDecimal {c : Char} (h : isDecimal c = true) : isAsciiLetter c = false := by
  by_contra hletter
  rw [Bool.not_eq_false] at hletter
  obtain ⟨hlow, hhigh⟩ := toNat_of_isAsciiLetter hletter
  have hdigit : c.isDigit = false := by
    rw [Bool.eq_false_iff]
    intro hd
    have : c.toNat ≤ 57 := (Char.isDigit_iff_toNat.1 hd).2
    omega
  -- The digits of the other scripts come after all letters.
  rw [isDecimal, digitValue?, hdigit, if_neg Bool.false_ne_true, if_pos (by omega)] at h
  cases h

/-- A letter is not blank. -/
theorem isBlank_of_isAsciiLetter {c : Char} (h : isAsciiLetter c = true) : isBlank c = false := by
  obtain ⟨hlow, hhigh⟩ := toNat_of_isAsciiLetter h
  simp only [isBlank, Bool.or_eq_false_iff, Bool.and_eq_false_iff, decide_eq_false_iff_not,
    beq_eq_false_iff_ne]
  omega

/-! ## Names -/

/-- Each letter of a text after `previous` has another one next to it. -/
def shielded (previous : Option Char) : Text → Bool
  | [] => true
  | c :: t =>
    (!isAsciiLetter c || previous.any isAsciiLetter || t.head?.any isAsciiLetter) &&
      shielded (some c) t

/-- Each letter of a name has another one next to it. -/
theorem shielded_symbol (f : Builtin) : shielded none f.symbol = true := by
  cases f <;> decide

section Letter

variable {x : Char} (hx : isAsciiLetter x = true)
include hx

/-- A text in which each letter has another one next to it stays, whatever is around it. -/
theorem substituteAfter_of_shielded {w : Text} {p q : Option Char} (hw : shielded p w = true)
    (hpq : p.any isAsciiLetter = true → q.any isAsciiLetter = true) (value t : Text) :
    substituteAfter q x value (w ++ t) = w ++ substituteAfter (w.getLast?.or q) x value t := by
  induction w generalizing p q with
  | nil => rfl
  | cons c w ih =>
    rw [shielded, Bool.and_eq_true] at hw
    -- The variable is a letter, and so shielded here by the letter before it or the one after it.
    have hkept : ¬ (c = x ∧ q.any isAsciiLetter = false ∧
        (w ++ t).head?.any isAsciiLetter = false) := by
      rintro ⟨rfl, hbefore, hafter⟩
      rw [hx] at hw
      rcases Bool.or_eq_true .. ▸ hw.1 with hp | hw
      · rw [Bool.not_true, Bool.false_or] at hp
        rw [hpq hp] at hbefore
        cases hbefore
      · cases w with
        | nil => cases hw
        | cons d w =>
          rw [show ((d :: w) ++ t).head? = (d :: w).head? from rfl, hw] at hafter
          cases hafter
    rw [List.cons_append, substituteAfter, if_neg hkept, ih hw.2 id, getLast?_cons_or]
    rfl

end Letter

/-! ## Pieces of formulas -/

/-- A piece of a formula in a variable. A literal has digits, of any script, and points. -/
inductive Piece where
  | literal (t : Text) (hne : t ≠ []) (h : ∀ c ∈ t, isDecimal c = true ∨ c = '.')
  | joint (j : Joint)
  | paren (opens : Bool)
  | name (f : Builtin)
  | unknown

namespace Piece

/-- The text of a piece, with a text for the variable. -/
def text (unknown : Text) : Piece → Text
  | literal t _ _ => t
  | joint j => [j.symbol]
  | paren opens => [if opens then '(' else ')']
  | name f => f.symbol
  | .unknown => unknown

/-- The text of pieces. -/
def texts (unknown : Text) (ps : List Piece) : Text := ps.flatMap (text unknown)

/-- Whether a piece is made of letters. -/
def isWord : Piece → Bool
  | name _ | unknown => true
  | _ => false

/-- Two pieces of which one is the variable are not both made of letters. -/
def Apart (p q : Piece) : Prop :=
  (p = .unknown → q.isWord = false) ∧ (q = .unknown → p.isWord = false)

/-- The variable is nowhere next to a name or to itself. -/
def WholeOperands (ps : List Piece) : Prop := ps.IsChain Apart

/-- A piece that is not made of letters begins with no letter. -/
theorem head?_text {p : Piece} (hp : p.isWord = false) (s t : Text) :
    (p.text s ++ t).head?.any isAsciiLetter = false := by
  cases p with
  | literal u hne h =>
    obtain ⟨c, u, rfl⟩ := List.exists_cons_of_ne_nil hne
    rcases h c List.mem_cons_self with hc | rfl
    · exact isAsciiLetter_of_isDecimal hc
    · rfl
  | joint j => exact isAsciiLetter_symbol j
  | paren opens => cases opens <;> rfl
  | name f => cases hp
  | unknown => cases hp

section Letter

variable {x : Char} (hx : isAsciiLetter x = true)
include hx

/-- No piece has blanks. -/
theorem isBlank_text (p : Piece) : ∀ c ∈ p.text [x], isBlank c = false := by
  intro c hc
  cases p with
  | literal t hne h =>
    rcases h c hc with hc | rfl
    · exact isBlank_of_isDecimal hc
    · rfl
  | joint j => exact List.mem_singleton.1 hc ▸ isBlank_facts.2.2 j
  | paren opens =>
    obtain rfl := List.mem_singleton.1 hc
    cases opens <;> rfl
  | name f => exact isBlank_facts.2.1 (.call f) c hc
  | unknown => exact List.mem_singleton.1 hc ▸ isBlank_of_isAsciiLetter hx

/-- A piece gives way to the value if it is the variable and no letter is next to it. Any other piece
stays, and ends in no letter unless it is a name. -/
theorem substituteAfter_text (value : Text) (p : Piece) {q : Option Char}
    (hq : p = .unknown → q.any isAsciiLetter = false) {t : Text}
    (ht : p = .unknown → t.head?.any isAsciiLetter = false) :
    ∃ r, substituteAfter q x value (p.text [x] ++ t) =
        p.text value ++ substituteAfter r x value t ∧
      (p.isWord = false → r.any isAsciiLetter = false) := by
  have hne {c : Char} (hc : isAsciiLetter c = false) : c ≠ x := by
    rintro rfl
    rw [hx] at hc
    cases hc
  -- Only the variable looks at its neighbours; of the other pieces none has a letter that stands
  -- alone.
  cases p with
  | literal u hu h =>
    have hletter : ∀ c ∈ u, isAsciiLetter c = false := fun c hc => by
      rcases h c hc with hc | rfl
      · exact isAsciiLetter_of_isDecimal hc
      · rfl
    refine ⟨_, substituteAfter_append (fun hmem => hne (hletter x hmem) rfl) q t, fun _ => ?_⟩
    rw [List.getLast?_eq_some_getLast hu]
    exact hletter _ (List.getLast_mem hu)
  | joint j =>
    exact ⟨_, substituteAfter_cons (hne (isAsciiLetter_symbol j)) q value t,
      fun _ => isAsciiLetter_symbol j⟩
  | paren opens =>
    have hparen : isAsciiLetter (if opens then '(' else ')') = false := by cases opens <;> rfl
    exact ⟨_, substituteAfter_cons (hne hparen) q value t, fun _ => hparen⟩
  | name f =>
    refine ⟨_, substituteAfter_of_shielded hx (shielded_symbol f) ?_ value t, fun hf => nomatch hf⟩
    exact fun h => nomatch h
  | unknown =>
    refine ⟨some x, ?_, fun h => nomatch h⟩
    rw [text, List.singleton_append, substituteAfter, if_pos ⟨rfl, hq rfl, ht rfl⟩]
    rfl

/-- In the text of pieces every variable gives way to the value, and all else stays. -/
theorem substituteAfter_texts (value : Text) {ps : List Piece} (hps : WholeOperands ps)
    {q : Option Char} (hq : ps.head? = some .unknown → q.any isAsciiLetter = false) :
    substituteAfter q x value (texts [x] ps) = texts value ps := by
  induction ps generalizing q with
  | nil => rfl
  | cons p ps ih =>
    -- The next piece is no word after the variable, so it begins with no letter.
    have hafter : p = .unknown → (texts [x] ps).head?.any isAsciiLetter = false := by
      rintro rfl
      cases ps with
      | nil => rfl
      | cons p' ps =>
        rw [WholeOperands, List.isChain_cons_cons] at hps
        exact head?_text (hps.1.1 rfl) [x] (texts [x] ps)
    obtain ⟨r, htext, hr⟩ :=
      p.substituteAfter_text hx value (fun hp => hq (congrArg some hp)) hafter
    have hrest : substituteAfter r x value (texts [x] ps) = texts value ps := by
      refine ih hps.tail fun hhead => hr ?_
      cases ps with
      | nil => cases hhead
      | cons p' ps =>
        rw [WholeOperands, List.isChain_cons_cons] at hps
        exact hps.1.2 (Option.some.inj hhead)
    calc substituteAfter q x value (texts [x] (p :: ps))
        = substituteAfter q x value (p.text [x] ++ texts [x] ps) := rfl
      _ = p.text value ++ substituteAfter r x value (texts [x] ps) := htext
      _ = p.text value ++ texts value ps := by rw [hrest]

end Letter

end Piece

/-! ## Blanks -/

/-- `WithBlanks t u` says that `u` is `t` with blanks put in at any places. -/
inductive WithBlanks : Text → Text → Prop where
  | nil : WithBlanks [] []
  | keep (c : Char) {t u : Text} (h : WithBlanks t u) : WithBlanks (c :: t) (c :: u)
  | blank {c : Char} (hc : isBlank c = true) {t u : Text} (h : WithBlanks t u) :
    WithBlanks t (c :: u)

/-- Without its blanks a text is what it was before blanks were put in. -/
theorem WithBlanks.filter_eq {t u : Text} (h : WithBlanks t u) (ht : ∀ c ∈ t, isBlank c = false) :
    u.filter (fun c => !isBlank c) = t := by
  induction h with
  | nil => rfl
  | keep c h ih =>
    have hc : isBlank c = false := ht c List.mem_cons_self
    rw [List.filter_cons_of_pos (by rw [hc]; rfl),
      ih fun d hd => ht d (List.mem_cons_of_mem c hd)]
  | blank hc h ih => rw [List.filter_cons_of_neg (by rw [hc]; decide), ih ht]

/-! ## The variable in a formula -/

/-- Substitution puts the text of a value at the positions of a text where the variable stands with
no letter next to it, and keeps the characters of all others. So for pieces of a formula in which
the variable is next to no name and to no other variable, with blanks put in anywhere and no longer
than the limit, what is reduced is the text of these pieces with that of the value for each variable
and every name as it is. -/
theorem substitute_standalone (limit : Int) (x : Char) (v : Float) :
    (∀ t, substitute t x (plainText v) = (List.range t.length).flatMap fun i =>
        if StandsAlone t x i then plainText v else t[i]?.toList) ∧
      (isAsciiLetter x = true → ∀ ps, Piece.WholeOperands ps →
        ∀ t, WithBlanks (Piece.texts [x] ps) t → t.length ≤ limit →
          ∃ u, normalize limit t = .ok u ∧
            substitute u x (plainText v) = Piece.texts (plainText v) ps) := by
  refine ⟨fun t => ?_, fun hx ps hps t ht hlimit => ⟨Piece.texts [x] ps, ?_, ?_⟩⟩
  · rw [List.range_eq_range']
    exact substituteAfter_eq_flatMap x (plainText v) [] t
  · have hblank : ∀ c ∈ Piece.texts [x] ps, isBlank c = false := fun c hc => by
      obtain ⟨p, -, hp⟩ := List.mem_flatMap.1 hc
      exact p.isBlank_text hx c hp
    rw [normalize, if_neg (not_lt.2 hlimit), ht.filter_eq hblank]
  · exact Piece.substituteAfter_texts hx (plainText v) hps fun _ => rfl

/-- In a formula with blanks, one of them within a name, the variable gives way to 3 and the name
with the same letter in it stays. -/
theorem substitute_standalone_exp :
    let two : Piece := .literal ['2'] (by decide) fun c hc => .inl (List.mem_singleton.1 hc ▸ rfl)
    let ps := [two, .joint (.operator .multiply), .name .exp, .paren true, .unknown, .paren false]
    isAsciiLetter 'x' = true ∧ Piece.WholeOperands ps ∧
      WithBlanks (Piece.texts ['x'] ps) " 2 * e xp( x )".toList ∧
      ∃ u, normalize 1000 " 2 * e xp( x )".toList = .ok u ∧
        substitute u 'x' (plainText (Float.ofBits 0x4008000000000000)) = "2*exp(3.0)".toList := by
  intro two ps
  have hps : Piece.WholeOperands ps := by
    simp [Piece.WholeOperands, ps, two, Piece.Apart, Piece.isWord]
  have hblanks : WithBlanks (Piece.texts ['x'] ps) " 2 * e xp( x )".toList := by
    repeat first
      | apply WithBlanks.keep
      | apply WithBlanks.blank rfl
      | exact WithBlanks.nil
  obtain ⟨u, hu, hvalue⟩ := (substitute_standalone 1000 'x' (Float.ofBits 0x4008000000000000)).2 rfl
    ps hps _ hblanks (by decide)
  refine ⟨rfl, hps, hblanks, u, hu, hvalue.trans ?_⟩
  decide +kernel

end FormulaPlot
