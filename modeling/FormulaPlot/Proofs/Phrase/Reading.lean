import FormulaPlot.Proofs.Operator.Invariant
import FormulaPlot.Proofs.Phrase.Run

/-!
# Texts that are phrases

A text that the engine reduces to a number is that of a phrase (`exists_phrase`): its parentheses
match, and its names stand in front of parentheses.

The proof goes back along the run. At its end no call is left, and a text that has a value has no
reserved character (`isInert_of_finish`). Before, a number stood for a call: the text of a
number does not reach into a name, so that in a phrase it can be exchanged for anything
(`exists_insert`), and the call is such a thing.

Dropping unary pluses could join two pieces of a name, as in `s+in`. But a plus of the text that is
reduced first follows the end of an operand, or what remains of it was dropped, and a plus that a
number came to stand before follows that number (`FollowsOperand`).
-/

namespace FormulaPlot

namespace Phrase

/-! ## Clean phrases -/

/-- No reserved character stands outside of calls. -/
def Clean : Phrase → Prop
  | nil => True
  | char c rest => isInert c = true ∧ Clean rest
  | call _ inner rest => Clean inner ∧ Clean rest

/-- A phrase in which no name stands but those of its calls is clean. -/
theorem Clear.clean {p : Phrase} (h : Clear p) : Clean p := by
  induction p with
  | nil => trivial
  | char c rest ih => exact ⟨h.1, ih h.2.2⟩
  | call k inner rest ihi ihr => exact ⟨ihi h.1, ihr h.2⟩

/-- A phrase and another one after it. -/
def append : Phrase → Phrase → Phrase
  | nil, q => q
  | char c rest, q => char c (append rest q)
  | call k inner rest, q => call k inner (append rest q)

/-- The text of two phrases. -/
@[simp] theorem text_append (p q : Phrase) : text (append p q) = text p ++ text q := by
  induction p with
  | nil => rfl
  | char c rest ih => exact congrArg (c :: ·) ih
  | call k inner rest _ ih => simp [append, text, ih]

/-- Two clean phrases make a clean one. -/
theorem Clean.append {p q : Phrase} (hp : Clean p) (hq : Clean q) : Clean (append p q) := by
  induction p with
  | nil => exact hq
  | char c rest ih => exact ⟨hp.1, ih hp.2⟩
  | call k inner rest _ ih => exact ⟨hp.1, ih hp.2⟩

/-- Inert characters are a clean phrase. -/
theorem clean_chars {t : Text} (ht : ∀ c ∈ t, isInert c = true) {p : Phrase} (hp : Clean p) :
    Clean (chars t p) := by
  induction t with
  | nil => exact hp
  | cons c t ih => exact ⟨ht c List.mem_cons_self, ih fun d hd => ht d (List.mem_cons_of_mem c hd)⟩

/-- A text that is a clean phrase. -/
def Reads (t : Text) : Prop := ∃ p, Clean p ∧ text p = t

/-- A clean phrase is clear if its names are read as long as they can be. -/
theorem Reads.exists_clear {t : Text} (h : Reads t) : ∃ p, Clear p ∧ text p = t := by
  obtain ⟨p, hp, rfl⟩ := h
  induction p with
  | nil => exact ⟨nil, trivial, rfl⟩
  | char c rest ih =>
    obtain ⟨q, hq, htext⟩ := ih hp.2
    -- A letter that makes the name of the next call longer belongs to that call.
    by_cases hlong : Lengthens c q
    · cases q with
      | nil => cases hlong
      | char d q => cases hlong
      | call k inner q =>
        obtain ⟨f, hf⟩ := hlong
        refine ⟨call (.call f) inner q, hq, ?_⟩
        have hword : (Redex.call f).word = c :: k.word := hf
        rw [text, text, hword, List.cons_append, ← htext, text]
    · exact ⟨char c q, ⟨hp.1, hlong, hq⟩, congrArg (c :: ·) htext⟩
  | call k inner rest ihi ihr =>
    obtain ⟨i, hi, hinner⟩ := ihi hp.1
    obtain ⟨r, hr, hrest⟩ := ihr hp.2
    exact ⟨call k i r, ⟨hi, hr⟩, by rw [text, text, hinner, hrest]⟩

/-! ## Numbers in phrases -/

/-- No name begins as a number ends. -/
theorem endsNumber_of_isPrefix {k : Redex} {u : Text} {d : Char} (h : u ++ [d] <+: k.word)
    (hinert : ∀ c ∈ u ++ [d], isInert c = true) : endsNumber d = false := by
  have hall : ∀ k ∈ Redex.all, ∀ v ∈ k.word.inits, v.all isInert = true →
      v.getLast?.any endsNumber = false := by decide
  have := hall k k.mem_all _ ((List.mem_inits _ _).2 h) (List.all_eq_true.2 hinert)
  simpa using this

/-- No name has a number in it. -/
theorem not_isInfix_word (k : Redex) {s : Text} (hs : IsNumberText s) : ¬ s <:+: k.word := by
  intro h
  have hall : ∀ k ∈ Redex.all, '.' ∉ k.word ∧ 'f' ∉ k.word ∧ k.word.count 'n' ≤ 1 := by decide
  obtain ⟨hpoint, hf, hn⟩ := hall k k.mem_all
  cases hs with
  | nan =>
    have : 2 ≤ k.word.count 'n' := h.sublist.count_le 'n'
    omega
  | infinite s => exact hf (h.subset (by cases s <;> decide))
  | finite s hw hfr => exact hpoint (h.subset (by cases s <;> simp [signed]))

/-- A call does not begin as a number does. -/
theorem text_call_ne {k : Redex} {inner rest : Phrase} {u t : Text} {d : Char}
    (hd : endsNumber d = true) (hinert : ∀ c ∈ u ++ [d], isInert c = true) :
    text (call k inner rest) ≠ u ++ [d] ++ t := by
  intro h
  have hparen : '(' ∉ u ++ [d] := fun hc => absurd (hinert _ hc) (by decide)
  rcases split_around (u := []) h hparen with ⟨w, hword, -⟩ | ⟨w, hnil, -⟩
  · have hpre : u ++ [d] <+: k.word := ⟨w, hword.symm⟩
    rw [endsNumber_of_isPrefix hpre hinert] at hd
    cases hd
  · simp at hnil

/-- A number at the start of a phrase is made of characters of its own. -/
theorem exists_chars {p : Phrase} (hp : Clean p) {s t : Text} (hs : IsNumberText s)
    (h : text p = s ++ t) : ∃ q, Clean q ∧ p = chars s q ∧ text q = t := by
  have hinert : ∀ c ∈ s, isInert c = true := fun c hc => isInert_of_isPlainChar (hs.isPlainChar hc)
  obtain ⟨u, d, rfl, hd⟩ := hs.exists_last
  -- The induction takes characters off the front, and only the last one is known to end a number.
  clear hs
  induction u generalizing p with
  | nil =>
    cases p with
    | nil => cases h
    | char c rest =>
      obtain ⟨rfl, htext⟩ := List.cons.inj h
      exact ⟨rest, hp.2, rfl, htext⟩
    | call k inner rest => exact absurd h (text_call_ne hd hinert)
  | cons c u ih =>
    cases p with
    | nil => cases h
    | char e rest =>
      obtain ⟨rfl, hrest⟩ := List.cons.inj h
      obtain ⟨q, hq, rfl, htext⟩ :=
        ih hp.2 hrest fun d hd => hinert d (List.mem_cons_of_mem e hd)
      exact ⟨q, hq, rfl, htext⟩
    | call k inner rest => exact absurd h (text_call_ne hd hinert)

/-- A phrase can stand where a number stood. -/
theorem exists_insert {p : Phrase} (hp : Clean p) {before s after x : Text} (hs : IsNumberText s)
    (hx : Reads x) (h : text p = before ++ s ++ after) : Reads (before ++ x ++ after) := by
  have hne : s ≠ [] := by obtain ⟨u, d, rfl, -⟩ := hs.exists_last; simp
  have hparens : '(' ∉ s ∧ ')' ∉ s := by
    constructor <;> exact fun hc => absurd (hs.isPlainChar hc) (by decide)
  induction p generalizing before after with
  | nil =>
    rw [text] at h
    simp [hne] at h
  | char c rest ih =>
    cases before with
    | nil =>
      obtain ⟨q, hq, -, rfl⟩ := exists_chars hp hs (by simpa using h)
      obtain ⟨y, hy, rfl⟩ := hx
      exact ⟨append y q, hy.append hq, by simp⟩
    | cons d before =>
      obtain ⟨rfl, hrest⟩ := List.cons.inj (by simpa [text] using h)
      obtain ⟨q, hq, htext⟩ := ih hp.2 (by simpa using hrest)
      exact ⟨char c q, ⟨hp.1, hq⟩, congrArg (c :: ·) htext⟩
  | call k inner rest ihi ihr =>
    -- A number has no parenthesis, so it is in the word, in the inside or after the call.
    rcases split_around h hparens.1 with ⟨w, hword, -⟩ | ⟨w, rfl, hw⟩
    · exact absurd ⟨before, w, hword.symm⟩ (not_isInfix_word k hs)
    rcases split_around hw hparens.2 with ⟨v, hinner, rfl⟩ | ⟨v, rfl, hrest⟩
    · obtain ⟨i, hi, htext⟩ := ihi hp.1 hinner
      exact ⟨call k i rest, ⟨hi, hp.2⟩, by rw [text, htext]; simp⟩
    · obtain ⟨r, hr, htext⟩ := ihr hp.2 hrest
      exact ⟨call k inner r, ⟨hp.1, hr⟩, by rw [text, htext]; simp⟩

/-! ## Pluses of texts that are reduced -/

/-- The texts after which a plus can stand: what ends as an operand or with a number. -/
def FollowsOperand (t : Text) : Prop :=
  t.getLast?.any endsOperand = true ∨ ∃ u s, IsNumberText s ∧ t = u ++ s

/-- Every plus of a text follows an operand. -/
def PlusAfter (t : Text) : Prop := ∀ a b, t = a ++ '+' :: b → FollowsOperand a

/-- What a plus follows may stand after anything. -/
theorem FollowsOperand.append {w : Text} (h : FollowsOperand w) (a : Text) :
    FollowsOperand (a ++ w) := by
  rcases h with hend | ⟨u, s, hs, rfl⟩
  · left
    rw [List.getLast?_append]
    cases hw : w.getLast? with
    | none => simp [hw] at hend
    | some d => simpa [hw] using hend
  · exact .inr ⟨a ++ u, s, hs, by simp⟩

/-- What a plus follows does not reach over a parenthesis. -/
theorem FollowsOperand.of_append {a w : Text} {c : Char} (hc : isPlainChar c = false)
    (hend : endsOperand c = false ∨ w ≠ []) (h : FollowsOperand (a ++ c :: w)) :
    FollowsOperand w := by
  rcases h with hlast | ⟨u, s, hs, h⟩
  · left
    rw [List.getLast?_append, List.getLast?_cons] at hlast
    cases hw : w.getLast? with
    | none =>
      rw [List.getLast?_eq_none_iff] at hw
      simp [hw, hend.resolve_right (absurd hw)] at hlast
    | some d => simpa [hw] using hlast
  · right
    have hmem : c ∉ s := fun hmem => by
      rw [hs.isPlainChar hmem] at hc
      cases hc
    rw [← List.append_nil (u ++ s)] at h
    rcases split_around h hmem with ⟨v, -, hnil⟩ | ⟨v, -, rfl⟩
    · simp at hnil
    · exact ⟨v, s, hs, by simp⟩

/-- Dropping unary pluses leaves none but those after operands. -/
theorem plusAfter_dropUnaryPlusAfter (q : Option Char) (t : Text) {a b : Text}
    (h : dropUnaryPlusAfter q t = a ++ '+' :: b) : (a.getLast?.or q).any endsOperand = true := by
  induction t generalizing q a with
  | nil => simp [dropUnaryPlusAfter] at h
  | cons c t ih =>
    rw [dropUnaryPlusAfter] at h
    split at h
    next hc =>
      -- A plus that is dropped ends no operand, so none is kept right after it.
      have hany := ih (some c) h
      cases ha : a.getLast? with
      | none => simp [ha, hc.1, endsOperand, isAsciiDigit] at hany
      | some d => simpa [ha] using hany
    next hc =>
      cases a with
      | nil =>
        obtain ⟨rfl, -⟩ := List.cons.inj h
        rw [not_and_or, not_or, Bool.not_eq_false] at hc
        exact (hc.resolve_left (absurd rfl)).2
      | cons d a =>
        obtain ⟨rfl, htail⟩ := List.cons.inj h
        rw [getLast?_cons_or]
        exact ih (some c) htail

/-- Without unary pluses every plus follows an operand. -/
theorem plusAfter_dropUnaryPlus (t : Text) : PlusAfter (dropUnaryPlus t) := fun a b h => by
  have hany := plusAfter_dropUnaryPlusAfter none t h
  left
  cases ha : a.getLast? with
  | none => simp [ha] at hany
  | some d => simpa [ha] using hany

/-- The pluses in a call follow operands in it. -/
theorem PlusAfter.inner {u inner after : Text} (h : PlusAfter (u ++ '(' :: inner ++ ')' :: after)) :
    PlusAfter inner := by
  rintro a b rfl
  have hfollows := h (u ++ '(' :: a) (b ++ ')' :: after) (by simp)
  exact hfollows.of_append (by decide) (.inl (by decide))

/-- With a number in the place of a call every plus follows an operand. -/
theorem PlusAfter.splice {before word inner after : Text}
    (h : PlusAfter (before ++ word ++ '(' :: inner ++ ')' :: after)) {s : Text}
    (hs : IsNumberText s) : PlusAfter (before ++ s ++ after) := by
  intro a b hab
  have hplus : '+' ∉ s := fun hc => absurd (hs.isPlainChar hc) (by decide)
  rcases split_around hab.symm hplus with ⟨w, rfl, rfl⟩ | ⟨w, rfl, rfl⟩
  · rcases List.eq_nil_or_concat w with rfl | ⟨v, c, hw⟩
    · exact .inr ⟨before, s, hs, by simp⟩
    · have hfollows := h (before ++ word ++ '(' :: inner ++ ')' :: w) b (by simp)
      exact (hfollows.of_append (by decide) (.inr (by simp [hw]))).append _
  · exact h a (w ++ word ++ '(' :: inner ++ ')' :: after) (by simp)

/-- A text is a phrase if it is one without its unary pluses. -/
theorem reads_of_dropUnaryPlusAfter (pre t : Text) (h : PlusAfter (pre ++ t))
    (hr : Reads (pre ++ dropUnaryPlusAfter pre.getLast? t)) : Reads (pre ++ t) := by
  induction t generalizing pre with
  | nil => exact hr
  | cons c t ih =>
    -- One character after the other moves from the text to what stands before it.
    have hsnoc : pre ++ c :: t = pre ++ [c] ++ t := by simp
    have hlast : (pre ++ [c]).getLast? = some c := by simp
    rw [hsnoc] at h ⊢
    refine ih (pre ++ [c]) h ?_
    rw [hlast]
    rw [dropUnaryPlusAfter] at hr
    split at hr
    next hc =>
      obtain ⟨rfl, hdrop⟩ := hc
      rcases h pre t hsnoc.symm with hend | ⟨u, s, hs, rfl⟩
      · -- A plus after the end of an operand is dropped if it is the last character.
        have ht : t = [] := hdrop.resolve_right (by rw [hend]; decide)
        subst ht
        obtain ⟨p, hp, htext⟩ := hr
        exact ⟨append p (char '+' nil), hp.append ⟨by decide, trivial⟩, by
          rw [text_append, htext]
          simp [dropUnaryPlusAfter, text]⟩
      · -- The plus follows a number, and both together can stand where the number stands.
        obtain ⟨p, hp, htext⟩ := hr
        have hx : Reads (s ++ ['+']) := by
          refine ⟨chars s (char '+' nil), clean_chars (fun c hc => ?_) ⟨by decide, trivial⟩, by
            rw [text_chars]; rfl⟩
          exact isInert_of_isPlainChar (hs.isPlainChar hc)
        have := exists_insert hp hs hx htext
        simpa using this
    next hc => simpa using hr

/-- A text is a phrase if it is one without its unary pluses. -/
theorem reads_of_dropUnaryPlus {t : Text} (h : PlusAfter t) (hr : Reads (dropUnaryPlus t)) :
    Reads t :=
  reads_of_dropUnaryPlusAfter [] t h hr

/-! ## Runs -/

/-- A call that is found stands in the text. -/
theorem eq_of_split? {k : Redex} {t before rest : Text} (h : k.split? t = some (before, rest)) :
    t = before ++ k.word ++ rest := by
  cases k with
  | call f => exact eq_of_splitAt? h
  | group =>
    obtain ⟨⟨b, a⟩, hb, he⟩ := Option.map_eq_some_iff.1 h
    cases he
    simp [Redex.word, (eq_of_splitAtChar? hb).1]

/-- A text whose calls are resolved and whose value is then found is a phrase. -/
theorem reads_of_resolve {limit depth : Int} {kinds : List Redex} {t u : Text} {w : Float}
    (h : (resolve limit depth kinds t).outcome.toOption = some u) (hw : finish u = some w)
    (ht : PlusAfter t) : Reads t := by
  match kinds, h with
  | [], h =>
    rw [resolve] at h
    cases h
    exact ⟨chars t nil, clean_chars (isInert_of_finish hw) trivial, by rw [text_chars]; simp [text]⟩
  | k :: ks, h =>
    cases hk : k.split? t with
    | none =>
      rw [resolve_of_none hk] at h
      exact reads_of_resolve h hw ht
    | some parts =>
      obtain ⟨before, rest⟩ := parts
      cases hg : splitGroup rest with
      | error e =>
        rw [resolve_of_error hk hg] at h
        cases h
      | ok parts =>
        obtain ⟨inner, after⟩ := parts
        rw [toOption_resolve_of_ok hk hg, Option.bind_eq_some_iff] at h
        obtain ⟨v, hv, hrest⟩ := h
        have htext : t = before ++ k.word ++ '(' :: inner ++ ')' :: after := by
          rw [eq_of_split? hk, eq_of_splitGroup hg]
          simp
        have hnumber := isNumberText_plainText (k.apply v)
        -- The inside is a phrase by its own run, and so is what is left of the text.
        have hinner : Reads inner := by
          rw [toOption_reduce] at hv
          split at hv
          · cases hv
          obtain ⟨x, hx, hfinish⟩ := Option.bind_eq_some_iff.1 hv
          rw [htext] at ht
          exact reads_of_dropUnaryPlus ht.inner
            (reads_of_resolve hx hfinish (plusAfter_dropUnaryPlus inner))
        have hleft : Reads (before ++ plainText (k.apply v) ++ after) := by
          rw [htext] at ht
          exact reads_of_resolve hrest hw (ht.splice hnumber)
        obtain ⟨i, hi, hitext⟩ := hinner
        obtain ⟨p, hp, hptext⟩ := hleft
        have hcall : Reads (k.word ++ '(' :: inner ++ [')']) :=
          ⟨call k i nil, ⟨hi, trivial⟩, by rw [text, hitext]; simp [text]⟩
        rw [htext]
        simpa using exists_insert hp hnumber hcall hptext
termination_by (openings t, kinds.length)
decreasing_by
  · exact Prod.Lex.right _ (Nat.lt_succ_self _)
  · have := openings_of_split hk hg
    have := openings_dropUnaryPlus inner
    exact Prod.Lex.left _ _ (by omega)
  · have := openings_of_split hk hg
    have := openings_plainText (k.apply v)
    refine Prod.Lex.left _ _ ?_
    simp only [openings, List.count_append] at *
    omega

/-- A phrase is settled if every plus of its text follows a character that it can follow. -/
theorem settled_of_text {p : Phrase} {q : Option Char}
    (h : ∀ a b, text p = a ++ '+' :: b → (a.getLast?.or q).any canPrecedePlus = true) :
    Settled q p := by
  induction p generalizing q with
  | nil => trivial
  | char c rest ih =>
    refine ⟨fun hc => h [] (text rest) (by rw [text, hc]; rfl), ih fun a b hab => ?_⟩
    have hbefore := h (c :: a) b (by rw [text, hab]; rfl)
    rwa [getLast?_cons_or] at hbefore
  | call k inner rest ihi ihr =>
    constructor
    · refine ihi fun a b hab => ?_
      have := h (k.word ++ '(' :: a) (b ++ ')' :: text rest) (by rw [text, hab]; simp)
      rw [List.getLast?_append, List.getLast?_cons] at this
      cases ha : a.getLast? with
      | none =>
        -- The parenthesis of the call is nothing that a plus can follow.
        have hparen : canPrecedePlus '(' = false := by decide
        simp [ha, hparen] at this
      | some d => simpa [ha] using this
    · refine ihr fun a b hab => ?_
      have := h (k.word ++ '(' :: (text inner ++ ')' :: a)) b (by rw [text, hab]; simp)
      simp only [List.getLast?_append, List.getLast?_cons] at this
      cases ha : a.getLast? <;> simpa [ha] using this

/-- A text that is reduced to a number is a phrase once its unary pluses are dropped. -/
theorem exists_phrase {limit depth : Int} {t : Text} {w : Float}
    (h : (reduce limit depth t).outcome.toOption = some w) :
    ∃ p, Clear p ∧ Settled none p ∧ text p = dropUnaryPlus t := by
  rw [toOption_reduce] at h
  split at h
  · cases h
  obtain ⟨u, hu, hw⟩ := Option.bind_eq_some_iff.1 h
  obtain ⟨p, hp, htext⟩ := (reads_of_resolve hu hw (plusAfter_dropUnaryPlus t)).exists_clear
  have hs : Settled none p := settled_of_text fun a b hab =>
    any_canPrecedePlus (plusAfter_dropUnaryPlusAfter none t (htext.symm.trans hab))
  exact ⟨p, hp, hs, htext⟩

end Phrase

end FormulaPlot
