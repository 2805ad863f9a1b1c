import FormulaPlot.Proofs.Phrase.Basic

/-!
# The search for calls

The engine searches a text for the first place of a name, or of an opening parenthesis, and then
for the closing parenthesis that matches. In the text of a phrase without calls of earlier kinds
this finds the first call of the phrase (`split?_of_first`, `splitGroup_text`), and nothing if it
has none (`split?_eq_none`).

A name is found nowhere else: each of its first two letters would have to be a character of its own
or a letter of another call, and the names are such that this fails (`not_isPrefixOf_char`,
`not_isPrefixOf_word`).
-/

namespace FormulaPlot

/-! ## Words in texts -/

/-- A word without parenthesis does not reach over one. -/
theorem isPrefixOf_append_paren {w : Text} (hw : '(' ∉ w) (u t : Text) :
    w.isPrefixOf (u ++ '(' :: t) = w.isPrefixOf u := by
  induction u generalizing w with
  | nil =>
    cases w with
    | nil => rfl
    | cons a w =>
      have ha : (a == '(') = false := by
        rw [beq_eq_false_iff_ne]
        rintro rfl
        exact hw List.mem_cons_self
      simp [List.isPrefixOf, ha]
  | cons c u ih =>
    cases w with
    | nil => rfl
    | cons a w =>
      simp only [List.cons_append, List.isPrefixOf]
      rw [ih fun h => hw (List.mem_cons_of_mem a h)]

/-- A part of a text that does not have a character is on one side of it. -/
theorem split_around {m b u s a : Text} {c : Char} (h : m ++ c :: b = u ++ s ++ a) (hc : c ∉ s) :
    (∃ w, m = u ++ s ++ w ∧ a = w ++ c :: b) ∨ (∃ w, u = m ++ c :: w ∧ b = w ++ s ++ a) := by
  rcases List.append_eq_append_iff.1 h with ⟨w, hus, hw⟩ | ⟨w, hm, ha⟩
  · rcases List.append_eq_append_iff.1 hus with ⟨x, rfl, rfl⟩ | ⟨x, rfl, rfl⟩
    · -- The part reaches past the character or up to it.
      cases w with
      | nil => exact .inl ⟨[], by simp, hw.symm⟩
      | cons d w => exact absurd (by rw [(List.cons.inj hw).1]; simp) hc
    · cases x with
      | nil =>
        cases s with
        | nil => exact .inl ⟨[], by simp, hw.symm⟩
        | cons d s => exact absurd (by rw [(List.cons.inj hw).1]; simp) hc
      | cons d x =>
        obtain ⟨rfl, rfl⟩ := List.cons.inj hw
        exact .inr ⟨x, rfl, rfl⟩
  · exact .inl ⟨w, hm, ha⟩

/-- A word that does not start here is found later. -/
theorem splitAt?_cons {w : Text} {c : Char} {t : Text} (h : w.isPrefixOf (c :: t) = false) :
    splitAt? w (c :: t) = (splitAt? w t).map fun (b, a) => (c :: b, a) := by
  rw [splitAt?, if_neg (by simp [h])]

/-- A word that starts nowhere before a parenthesis is found after it. -/
theorem splitAt?_append_paren {w : Text} (hw : '(' ∉ w) {u : Text}
    (hu : ∀ v ∈ u.tails, w.isPrefixOf v = false) (t : Text) :
    splitAt? w (u ++ '(' :: t) = (splitAt? w t).map fun (b, a) => (u ++ '(' :: b, a) := by
  induction u with
  | nil =>
    rw [List.nil_append, splitAt?_cons]
    · rfl
    · exact (isPrefixOf_append_paren hw [] t).trans (hu [] (by simp))
  | cons c u ih =>
    have hc : w.isPrefixOf (c :: (u ++ '(' :: t)) = false :=
      (isPrefixOf_append_paren hw (c :: u) t).trans (hu (c :: u) (by simp))
    rw [List.cons_append, splitAt?_cons hc, ih fun v hv => hu v (by simp_all [List.tails])]
    rw [Option.map_map]
    rfl

/-! ## Names -/

namespace Builtin

/-- Every function is in the table. -/
theorem mem_all (f : Builtin) : f ∈ all := by
  cases f <;> decide

/-- Names have no parentheses. -/
theorem paren_notMem_symbol (f : Builtin) : '(' ∉ f.symbol := by
  cases f <;> decide

/-- Names have two letters, of which one is reserved and the second is no closing parenthesis. -/
theorem symbol_eq (f : Builtin) :
    ∃ a b w, f.symbol = a :: b :: w ∧ (Phrase.isInert a && Phrase.isInert b) = false ∧ b ≠ ')' := by
  cases f <;> exact ⟨_, _, _, rfl, by decide, by decide⟩

end Builtin

namespace Phrase

/-- A name does not start in the word of a call of a later kind. -/
theorem not_isPrefixOf_word {f : Builtin} {e : Redex} (h : (Redex.call f).rank < e.rank) :
    ∀ v ∈ e.word.tails, f.symbol.isPrefixOf v = false := by
  have hall : ∀ f ∈ Builtin.all, ∀ e ∈ Redex.all, (Redex.call f).rank < e.rank →
      ∀ v ∈ e.word.tails, f.symbol.isPrefixOf v = false := by decide +kernel
  exact hall f f.mem_all e e.mem_all h

/-- A name of which only the first letter is a character of its own makes a call longer. -/
theorem tail_symbol_eq {f : Builtin} {e : Redex} (hf : isInert (f.symbol.headD ' ') = true)
    (h : f.symbol.tail.isPrefixOf e.word = true) : f.symbol.tail = e.word := by
  have hall : ∀ f ∈ Builtin.all, ∀ e ∈ Redex.all, isInert (f.symbol.headD ' ') = true →
      f.symbol.tail.isPrefixOf e.word = true → f.symbol.tail = e.word := by decide +kernel
  exact hall f f.mem_all e e.mem_all hf h

/-- What can follow a phrase: nothing or the end of a group. -/
def Edge (t : Text) : Prop := t.head?.all (· = ')') = true

/-- No name starts at a character that is not reserved. -/
theorem not_isPrefixOf_char (f : Builtin) {c : Char} {p : Phrase} {t : Text}
    (hp : Clear (char c p)) (ht : Edge t) : f.symbol.isPrefixOf (c :: (text p ++ t)) = false := by
  obtain ⟨hc, hlong, hp⟩ := hp
  obtain ⟨a, b, w, hf, hab, hb⟩ := f.symbol_eq
  by_contra hpre
  rw [Bool.not_eq_false, hf, List.isPrefixOf, Bool.and_eq_true, beq_iff_eq] at hpre
  obtain ⟨rfl, hpre⟩ := hpre
  rw [hc, Bool.true_and] at hab
  -- The first letter of the name is not reserved, so the second one is, and it is what comes next.
  cases p with
  | nil =>
    cases t with
    | nil => cases hpre
    | cons d t =>
      rw [text, List.nil_append, List.isPrefixOf, Bool.and_eq_true, beq_iff_eq] at hpre
      exact hb (hpre.1.trans (by simpa [Edge] using ht))
  | char d p =>
    rw [text, List.cons_append, List.isPrefixOf, Bool.and_eq_true, beq_iff_eq] at hpre
    rw [hpre.1, hp.1] at hab
    cases hab
  | call e inner rest =>
    -- The rest of the name would lie in the word of the call and make it a longer one.
    have hparen : '(' ∉ b :: w := fun h => f.paren_notMem_symbol (hf ▸ List.mem_cons_of_mem a h)
    rw [text, List.append_assoc, List.cons_append, isPrefixOf_append_paren hparen] at hpre
    refine hlong ⟨f, ?_⟩
    have htail := tail_symbol_eq (f := f) (e := e) (by rw [hf]; exact hc) (by rw [hf]; exact hpre)
    rw [← htail, hf]
    rfl

/-! ## Calls in phrases -/

/-- Past a call of a later kind in which a name is not found, the name is found later. -/
theorem splitAt?_past_call {f : Builtin} {e : Redex} (he : (Redex.call f).rank < e.rank) {q : Text}
    (hq : ∀ t, Edge t → splitAt? f.symbol (q ++ t) =
      (splitAt? f.symbol t).map fun (b, a) => (q ++ b, a)) (t : Text) :
    splitAt? f.symbol (e.word ++ '(' :: (q ++ ')' :: t)) =
      (splitAt? f.symbol t).map fun (b, a) => (e.word ++ '(' :: (q ++ ')' :: b), a) := by
  have hclose : f.symbol.isPrefixOf (')' :: t) = false := by
    obtain ⟨a, b, w, hf, -, -⟩ := f.symbol_eq
    have ha : ')' ∉ f.symbol := by cases f <;> decide
    rw [hf, List.isPrefixOf, Bool.and_eq_false_iff, beq_eq_false_iff_ne]
    left
    rintro rfl
    exact ha (hf ▸ List.mem_cons_self)
  rw [splitAt?_append_paren f.paren_notMem_symbol (not_isPrefixOf_word he), hq _ (by rfl),
    splitAt?_cons hclose, Option.map_map, Option.map_map]
  rfl

/-- The name of a function is not found in a phrase without calls of its kind and earlier ones. -/
theorem splitAt?_text {f : Builtin} {p : Phrase} (hp : Clear p)
    (hn : AtLeast ((Redex.call f).rank + 1) p) {t : Text} (ht : Edge t) :
    splitAt? f.symbol (text p ++ t) =
      (splitAt? f.symbol t).map fun (b, a) => (text p ++ b, a) := by
  induction p generalizing t with
  | nil => exact Option.map_id'.symm
  | char c rest ih =>
    rw [text, List.cons_append, splitAt?_cons (not_isPrefixOf_char f hp ht), ih hp.2.2 hn ht,
      Option.map_map]
    rfl
  | call e inner rest ihi ihr =>
    -- Neither in the word of the call nor inside of it the name is found.
    rw [text, List.append_assoc, List.cons_append, List.append_assoc, List.cons_append,
      splitAt?_past_call hn.1 (fun t ht => ihi hp.1 hn.2.1 ht), ihr hp.2 hn.2.2 ht, Option.map_map]
    congr 1
    funext x
    simp

/-- The name of a function is found at the first call of its kind. -/
theorem splitAt?_of_first {f : Builtin} {p inner : Phrase} {g : Text → Phrase} (hp : Clear p)
    (hn : AtLeast (Redex.call f).rank p) (h : First (.call f) p inner g) :
    ∃ before after, (∀ s, text (g s) = before ++ s ++ after) ∧
      ∀ t, Edge t → splitAt? f.symbol (text p ++ t) =
        some (before, '(' :: (text inner ++ ')' :: (after ++ t))) := by
  -- The induction follows the place of the first call, and the search passes over all that is
  -- before it.
  induction h with
  | here inner rest =>
    refine ⟨[], text rest, fun s => text_chars s rest, fun t _ => ?_⟩
    obtain ⟨a, b, w, hf, -, -⟩ := f.symbol_eq
    -- The word of this call is the name, so the search ends at once.
    have hpre : f.symbol.isPrefixOf (text (call (.call f) inner rest) ++ t) = true := by
      rw [List.isPrefixOf_iff_prefix, text, List.append_assoc]
      exact List.prefix_append _ _
    have hcons : ∃ c u, text (call (.call f) inner rest) ++ t = c :: u :=
      ⟨a, b :: w ++ '(' :: (text inner ++ ')' :: text rest) ++ t, by
        rw [text, Redex.word, hf]; simp⟩
    obtain ⟨c, u, hcu⟩ := hcons
    rw [hcu] at hpre ⊢
    rw [splitAt?, if_pos hpre, ← hcu, text, Redex.word, List.append_assoc, List.drop_left]
    simp
  | char c h ih =>
    obtain ⟨before, after, hg, hsplit⟩ := ih hp.2.2 hn
    refine ⟨c :: before, after, fun s => congrArg (c :: ·) (hg s), fun t ht => ?_⟩
    rw [text, List.cons_append, splitAt?_cons (not_isPrefixOf_char f hp ht), hsplit t ht]
    rfl
  | @inside e he q inner g h rest ih =>
    -- The call is in another one of a later kind, whose word the search passes over.
    obtain ⟨before, after, hg, hsplit⟩ := ih hp.1 hn.2.1
    refine ⟨e.word ++ '(' :: before, after ++ ')' :: text rest, fun s => ?_, fun t _ => ?_⟩
    · simp [text, hg]
    · rw [text, List.append_assoc, List.cons_append, List.append_assoc,
        splitAt?_append_paren f.paren_notMem_symbol (not_isPrefixOf_word he),
        hsplit _ (by rfl)]
      simp
  | @after e he q rest inner g hq h ih =>
    obtain ⟨before, after, hg, hsplit⟩ := ih hp.2 hn.2.2
    refine ⟨e.word ++ '(' :: (text q ++ ')' :: before), after, fun s => ?_, fun t ht => ?_⟩
    · simp [text, hg]
    · rw [text, List.append_assoc, List.cons_append, List.append_assoc, List.cons_append,
        splitAt?_past_call he (fun t ht => splitAt?_text hp.1 hq ht), hsplit t ht]
      rfl

/-! ## Groups in phrases -/

/-- What opens and closes nothing is passed over. -/
theorem closeGroup_append {u : Text} (h : ∀ c ∈ u, c ≠ '(' ∧ c ≠ ')') (n : Nat) (t : Text) :
    closeGroup n (u ++ t) = (closeGroup n t).map fun (b, a) => (u ++ b, a) := by
  induction u with
  | nil => exact Option.map_id'.symm
  | cons c u ih =>
    obtain ⟨hopen, hclose⟩ := h c List.mem_cons_self
    rw [List.cons_append, closeGroup.eq_def]
    simp only [if_neg hopen, if_neg hclose]
    rw [ih fun d hd => h d (List.mem_cons_of_mem c hd), Option.map_map]
    rfl

/-- The words of calls open and close nothing. -/
theorem ne_of_mem_word (e : Redex) : ∀ c ∈ e.word, c ≠ '(' ∧ c ≠ ')' := by
  have hall : ∀ e ∈ Redex.all, '(' ∉ e.word ∧ ')' ∉ e.word := by decide
  obtain ⟨hopen, hclose⟩ := hall e e.mem_all
  exact fun c hc => ⟨fun h => hopen (h ▸ hc), fun h => hclose (h ▸ hc)⟩

/-- The parentheses of a phrase match. -/
theorem closeGroup_text {p : Phrase} (hp : Clear p) (n : Nat) (t : Text) :
    closeGroup n (text p ++ t) = (closeGroup n t).map fun (b, a) => (text p ++ b, a) := by
  induction p generalizing n t with
  | nil => exact Option.map_id'.symm
  | char c rest ih =>
    have hc : c ≠ '(' ∧ c ≠ ')' := by
      constructor <;> (rintro rfl; exact absurd hp.1 (by decide))
    rw [text, ← List.singleton_append, List.append_assoc,
      closeGroup_append (by simpa using hc), ih hp.2.2, Option.map_map]
    rfl
  | call e inner rest ihi ihr =>
    -- The parenthesis of a call opens one more level, and the one at its end closes that again.
    have hopen (u : Text) : closeGroup n ('(' :: u) =
        (closeGroup (n + 1) u).map fun (b, a) => ('(' :: b, a) := by
      rw [closeGroup.eq_def]
      rfl
    have hclose (u : Text) : closeGroup (n + 1) (')' :: u) =
        (closeGroup n u).map fun (b, a) => (')' :: b, a) := by
      rw [closeGroup.eq_def]
      rfl
    rw [text, List.append_assoc, closeGroup_append (ne_of_mem_word e), List.cons_append, hopen,
      List.append_assoc, ihi hp.1, List.cons_append, hclose, ihr hp.2, Option.map_map,
      Option.map_map, Option.map_map, Option.map_map]
    congr 1
    funext x
    simp

/-- A group whose inside is a phrase ends where the phrase ends. -/
theorem splitGroup_text {p : Phrase} (hp : Clear p) (t : Text) :
    splitGroup ('(' :: (text p ++ ')' :: t)) = .ok (text p, t) := by
  rw [splitGroup, if_pos rfl, closeGroup_text hp]
  simp [closeGroup]

/-- Without calls there are no parentheses. -/
theorem splitAtChar?_text {p : Phrase} (hp : Clear p) (hn : AtLeast (Redex.group.rank + 1) p) :
    splitAtChar? '(' (text p) = none := by
  induction p with
  | nil => rfl
  | char c rest ih =>
    have hc : c ≠ '(' := by rintro rfl; exact absurd hp.1 (by decide)
    rw [text, splitAtChar?, if_neg hc, ih hp.2.2 hn]
    rfl
  | call e inner rest =>
    -- A group is the last kind, so there is no call of a later one.
    have := e.rank_lt
    have := hn.1
    have : Redex.group.rank + 1 = Redex.all.length := by decide
    omega

/-- Where all calls are groups, the first parenthesis is that of the first group. -/
theorem splitAtChar?_of_first {p inner : Phrase} {g : Text → Phrase} (hp : Clear p)
    (h : First .group p inner g) :
    ∃ before after, (∀ s, text (g s) = before ++ s ++ after) ∧
      splitAtChar? '(' (text p) = some (before, text inner ++ ')' :: after) := by
  -- Groups are the last kind, so the first call is in no other one and after none.
  have hlast (e : Redex) : ¬ Redex.group.rank < e.rank := by
    have := e.rank_lt
    have : Redex.group.rank + 1 = Redex.all.length := by decide
    omega
  induction h with
  | here inner rest => exact ⟨[], text rest, fun s => text_chars s rest, rfl⟩
  | char c h ih =>
    obtain ⟨before, after, hg, hsplit⟩ := ih hp.2.2
    have hc : c ≠ '(' := by rintro rfl; exact absurd hp.1 (by decide)
    refine ⟨c :: before, after, fun s => congrArg (c :: ·) (hg s), ?_⟩
    rw [text, splitAtChar?, if_neg hc, hsplit]
    rfl
  | inside he => exact absurd he (hlast _)
  | after he => exact absurd he (hlast _)

/-! ## Calls of all kinds -/

/-- A call that a phrase has not is not found in its text. -/
theorem split?_eq_none {k : Redex} {p : Phrase} (hp : Clear p) (hn : AtLeast (k.rank + 1) p) :
    k.split? (text p) = none := by
  cases k with
  | call f =>
    have := splitAt?_text hp hn (t := []) rfl
    rw [List.append_nil] at this
    obtain ⟨a, b, w, hf, -, -⟩ := f.symbol_eq
    rw [Redex.split?, this, hf]
    rfl
  | group =>
    rw [Redex.split?, splitAtChar?_text hp hn]
    rfl

/-- The first call of a kind is found in the text of a phrase without calls of earlier kinds. -/
theorem split?_of_first {k : Redex} {p inner : Phrase} {g : Text → Phrase} (hp : Clear p)
    (hn : AtLeast k.rank p) (h : First k p inner g) :
    ∃ before after, (∀ s, text (g s) = before ++ s ++ after) ∧
      k.split? (text p) = some (before, '(' :: (text inner ++ ')' :: after)) := by
  cases k with
  | call f =>
    obtain ⟨before, after, hg, hsplit⟩ := splitAt?_of_first hp hn h
    have := hsplit [] rfl
    rw [List.append_nil, List.append_nil] at this
    exact ⟨before, after, hg, this⟩
  | group =>
    obtain ⟨before, after, hg, hsplit⟩ := splitAtChar?_of_first hp h
    exact ⟨before, after, hg, by rw [Redex.split?, hsplit]; rfl⟩

end Phrase

end FormulaPlot
