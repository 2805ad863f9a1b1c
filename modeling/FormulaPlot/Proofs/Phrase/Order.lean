import FormulaPlot.Proofs.Phrase.Reading

/-!
# The order of calls

It does not matter in which order the calls and groups of a text are resolved: if the engine
reduces a text to a number, it gives the same number after any one call or group in it has given way
to its value (`reduce_splice`).

The text is a phrase (`exists_phrase`), and the parentheses are those of a call that occurs in it
(`exists_occurs`). The one thing that depends on the order is a plus after a call whose value is
`inf` or `nan`: it is dropped if the call has its value before the text around it is reduced. But if
such a plus stays then the text around it has no value (`not_letterPlus_of_finish`), so the order
has no influence on a run that ends with a number (`flatten_later`, `Occurs.flatten_eq`).
-/

namespace FormulaPlot

/-- Every closing parenthesis of a text matches an opening one in it, and conversely. -/
def Balanced (t : Text) : Prop :=
  openings t = t.count ')' ∧ ∀ u ∈ t.inits, u.count ')' ≤ openings u

instance (t : Text) : Decidable (Balanced t) := inferInstanceAs (Decidable (_ ∧ _))

/-- A group ends where its inside is balanced. -/
theorem closeGroup_of_balanced {t : Text} (h : Balanced t) (rest : Text) :
    closeGroup 0 (t ++ ')' :: rest) = some (t, rest) := by
  -- In the rest of a balanced text more is closed than opened, by what is open before it.
  have aux (n : Nat) (t : Text) (heq : n + openings t = t.count ')')
      (hle : ∀ u, u <+: t → u.count ')' ≤ n + openings u) :
      closeGroup n (t ++ ')' :: rest) = some (t, rest) := by
    induction t generalizing n with
    | nil =>
      obtain rfl : n = 0 := by simpa [openings] using heq
      rfl
    | cons c t ih =>
      have hcons (u : Text) (hu : u <+: t) : (c :: u).count ')' ≤ n + openings (c :: u) :=
        hle (c :: u) ((List.prefix_cons_inj c).2 hu)
      rw [List.cons_append, closeGroup.eq_def]
      simp only
      split
      next hc =>
        subst hc
        have htail := ih (n + 1) (by simp [openings] at heq ⊢; omega) fun u hu => by
          have := hcons u hu
          simp [openings] at this ⊢
          omega
        rw [htail]
        rfl
      next hopen =>
        split
        next hc =>
          subst hc
          have hpos : 1 ≤ n := by
            have := hcons [] (List.nil_prefix)
            simpa [openings] using this
          obtain ⟨m, rfl⟩ : ∃ m, n = m + 1 := ⟨n - 1, by omega⟩
          have htail := ih m (by simp [openings] at heq ⊢; omega) fun u hu => by
            have := hcons u hu
            simp [openings] at this ⊢
            omega
          show (closeGroup m (t ++ ')' :: rest)).map _ = _
          rw [htail]
          rfl
        next hclose =>
          have htail := ih n (by simpa [openings, List.count_cons, hopen, hclose] using heq)
            fun u hu => by
              simpa [openings, List.count_cons, hopen, hclose] using hcons u hu
          rw [htail]
          rfl
  exact aux 0 t (by rw [Nat.zero_add]; exact h.1) fun u hu => by
    rw [Nat.zero_add]
    exact h.2 u ((List.mem_inits u t).2 hu)

namespace Phrase

/-! ## Pluses after names -/

/-- A plus after a letter stays after a letter. -/
theorem LetterPlus.append {t : Text} (h : LetterPlus t) (u : Text) : LetterPlus (u ++ t) := by
  obtain ⟨before, c, after, rfl, hc⟩ := h
  exact ⟨u ++ before, c, after, by simp, hc⟩

/-- A number at which no operand ends is a name. -/
theorem letterPlus_of_endsOperand {s t : Text} (hs : IsNumberText s)
    (hend : s.getLast?.any endsOperand = false) (ht : t.head? = some '+') :
    LetterPlus (s ++ t) := by
  obtain ⟨u, d, rfl, hd⟩ := hs.exists_last
  obtain ⟨t, rfl⟩ : ∃ t', t = '+' :: t' := by
    cases t with
    | nil => cases ht
    | cons c t => exact ⟨t, by rw [Option.some.inj ht]⟩
  refine ⟨u, d, t, by simp, ?_⟩
  simp only [List.getLast?_append, List.getLast?_singleton, Option.some_or, Option.any_some,
    endsOperand, Bool.or_eq_false_iff] at hend
  have hletter : d = 'f' ∨ d = 'n' := by
    simpa [endsNumber, hend.1.1] using hd
  rcases hletter with rfl | rfl <;> decide

/-- The end of a number counts as the parenthesis of its call does, unless a plus would follow a
name. -/
theorem endsOperand_or {s t : Text} (hs : IsNumberText s) (hplus : ¬ LetterPlus (s ++ t)) :
    s.getLast?.any endsOperand = (some ')').any endsOperand ∨
      (some ')').any endsOperand = true ∧ t.head? ≠ some '+' := by
  cases hend : s.getLast?.any endsOperand with
  | true => exact .inl rfl
  | false => exact .inr ⟨rfl, fun ht => hplus (letterPlus_of_endsOperand hs hend ht)⟩

/-- In a call of a kind the end of another call depends on which of the two is resolved first. -/
theorem endOf_some (k e : Redex) (s : Text) :
    endOf k s (some e) = if k.rank < e.rank then s.getLast? else some ')' := rfl

/-- What is left of a phrase in a call of a kind is left of it in a call of a later kind, if no plus
follows a name. -/
theorem flatten_later {e e' : Redex} (he : e.rank ≤ e'.rank) {p : Phrase} {q q' : Option Char}
    {t : Text} (h : flatten (some e) q p = some t) (ht : ¬ LetterPlus t)
    (hq : q'.any endsOperand = q.any endsOperand ∨
      q.any endsOperand = true ∧ t.head? ≠ some '+') :
    flatten (some e') q' p = some t := by
  induction p generalizing q q' t with
  | nil => exact h
  | char c rest ih =>
    rw [flatten] at h ⊢
    have hdrops (e : Redex) (q : Option Char) :
        drops (some e) q rest = true ↔ rest.isNil = true ∨ q.any endsOperand = false := by
      simp [drops]
    simp only [hdrops] at h ⊢
    by_cases hdrop : c = '+' ∧ (rest.isNil = true ∨ q.any endsOperand = false)
    · rw [if_pos hdrop] at h
      -- A plus that goes in the one goes in the other, as the end before it counts no more there.
      have hdrop' : rest.isNil = true ∨ q'.any endsOperand = false := by
        refine hdrop.2.imp_right fun hend => ?_
        rcases hq with hq | hq
        · exact hq.trans hend
        · rw [hq.1] at hend
          cases hend
      rw [if_pos ⟨hdrop.1, hdrop'⟩]
      exact ih h ht (.inl rfl)
    · rw [if_neg hdrop] at h
      obtain ⟨u, hu, rfl⟩ := Option.map_eq_some_iff.1 h
      -- A plus that stays follows an operand in both, since none follows a name.
      have hkeep : ¬ (c = '+' ∧ (rest.isNil = true ∨ q'.any endsOperand = false)) := by
        rintro ⟨rfl, hdrop'⟩
        rcases hq with hq | hq
        · exact hdrop ⟨rfl, by rwa [hq] at hdrop'⟩
        · exact hq.2 rfl
      rw [if_neg hkeep, ih hu (fun hl => ht (LetterPlus.append hl [c])) (.inl rfl)]
      rfl
  | call x inner rest _ ih =>
    rw [flatten_call] at h ⊢
    obtain ⟨v, hv, h⟩ := Option.bind_eq_some_iff.1 h
    obtain ⟨u, hu, rfl⟩ := Option.map_eq_some_iff.1 h
    have hs := isNumberText_plainText (x.apply v)
    rw [hv, Option.bind_some, ih hu (fun hl => ht (LetterPlus.append hl _))]
    · rfl
    -- The call is of an earlier kind than both, than the second only, or than neither.
    rw [endOf_some, endOf_some]
    by_cases hx : x.rank < e.rank
    · rw [if_pos hx, if_pos (hx.trans_le he)]
      exact .inl rfl
    rw [if_neg hx]
    by_cases hx' : x.rank < e'.rank
    · rw [if_pos hx']
      exact endsOperand_or hs ht
    · rw [if_neg hx']
      exact .inl rfl

/-- The value of a phrase in a call of a kind is its value in a call of a later kind. -/
theorem value_later {e e' : Redex} (he : e.rank ≤ e'.rank) {p : Phrase} {v : Float}
    (h : value (some e) p = some v) : value (some e') p = some v := by
  obtain ⟨t, ht, hv⟩ := Option.bind_eq_some_iff.1 h
  have hflat := flatten_later he ht (not_letterPlus_of_finish hv) (.inl rfl)
  rw [value, hflat]
  exact hv

/-! ## Values in the places of calls -/

section Occurs

variable {k : Redex} {p inner : Phrase} {g : Text → Phrase}

/-- A number in the place of a call makes no other call deeper. -/
theorem Occurs.fits (h : Occurs k p inner g) {limit depth : Int} {around : List Redex}
    (hp : Fits limit depth around p) (s : Text) : Fits limit depth around (g s) := by
  induction h generalizing around with
  | here inner rest => exact (fits_chars s rest).2 hp.2.2
  | char c h ih => exact ih hp
  | inside e h rest ih => exact ⟨hp.1, ih hp.2.1, hp.2.2⟩
  | after e p h ih => exact ⟨hp.1, hp.2.1, ih hp.2.2⟩

/-- What is left of a phrase in a call is left of it when one of its calls has its value, if no plus
follows a name. -/
theorem Occurs.flatten_eq (h : Occurs k p inner g) {v : Float} (hv : value (some k) inner = some v)
    {e : Redex} {q : Option Char} {t : Text} (ht : flatten (some e) q p = some t)
    (hplus : ¬ LetterPlus t) : flatten (some e) q (g (plainText (k.apply v))) = some t := by
  have hs := isNumberText_plainText (k.apply v)
  -- The induction is on where the call stands; on the way to it nothing of the phrase changes.
  induction h generalizing e q t with
  | here inner rest =>
    -- Here the value takes the place of the call. What follows sees its end instead of a
    -- parenthesis.
    obtain ⟨hne, hnoplus⟩ := plainText_facts (k.apply v)
    rw [flatten_call, hv, Option.bind_some] at ht
    obtain ⟨u, hu, rfl⟩ := Option.map_eq_some_iff.1 ht
    have hlast : (plainText (k.apply v)).getLast?.or q = (plainText (k.apply v)).getLast? := by
      rw [List.getLast?_eq_some_getLast hne, Option.some_or]
    rw [flatten_chars hnoplus, hlast,
      flatten_later le_rfl hu fun hl => hplus (LetterPlus.append hl _)]
    · rfl
    rw [endOf_some]
    split
    · exact .inl rfl
    · exact endsOperand_or hs hplus
  | @char c rest inner g h ih =>
    have hne := (plainText_facts (k.apply v)).1
    -- The value is not empty, so the character still has something after it.
    have hdrops : drops (some e) q (g (plainText (k.apply v))) = drops (some e) q rest := by
      rw [drops, drops, (h.isNil_eq hne).1, (h.isNil_eq hne).2]
    rw [flatten] at ht ⊢
    rw [hdrops]
    split at ht
    next hdrop =>
      rw [if_pos hdrop]
      exact ih hv ht hplus
    next hdrop =>
      obtain ⟨u, hu, rfl⟩ := Option.map_eq_some_iff.1 ht
      rw [if_neg hdrop, ih hv hu fun hl => hplus (LetterPlus.append hl [c])]
      rfl
  | @inside x p inner g h rest ih =>
    rw [flatten_call] at ht ⊢
    obtain ⟨w, hw, ht⟩ := Option.bind_eq_some_iff.1 ht
    obtain ⟨u, hu, hfinish⟩ := Option.bind_eq_some_iff.1 hw
    -- The value of the call around it says that no plus follows a name in there either.
    have hvalue : value (some x) (g (plainText (k.apply v))) = some w := by
      rw [value, ih hv hu (not_letterPlus_of_finish hfinish)]
      exact hfinish
    rw [hvalue]
    exact ht
  | after x p h ih =>
    rw [flatten_call] at ht ⊢
    obtain ⟨w, hw, ht⟩ := Option.bind_eq_some_iff.1 ht
    obtain ⟨u, hu, rfl⟩ := Option.map_eq_some_iff.1 ht
    rw [hw, Option.bind_some, ih hv hu fun hl => hplus (LetterPlus.append hl _)]
    rfl

/-- The value of a phrase in a call is its value when one of the calls in it has its value. -/
theorem Occurs.value_eq (h : Occurs k p inner g) {v w : Float} (hv : value (some k) inner = some v)
    {e : Redex} (hw : value (some e) p = some w) :
    value (some e) (g (plainText (k.apply v))) = some w := by
  obtain ⟨t, ht, hfinish⟩ := Option.bind_eq_some_iff.1 hw
  rw [value, h.flatten_eq hv ht (not_letterPlus_of_finish hfinish)]
  exact hfinish

end Occurs

/-! ## Parentheses of calls -/

/-- A text that does not have a character ends after it. -/
theorem isSuffix_of_append_cons {a b s : Text} {c : Char} (h : s <:+ a ++ c :: b) (hc : c ∉ s) :
    s <:+ b := by
  obtain ⟨u, hu⟩ := h
  rw [← List.append_nil (u ++ s)] at hu
  rcases split_around hu.symm hc with ⟨w, -, hnil⟩ | ⟨w, -, rfl⟩
  · simp at hnil
  · exact ⟨w, (List.append_nil _).symm⟩

/-- An opening parenthesis of a phrase is that of a call in it, and a name that ends there is that
of the call or a part of it. -/
theorem exists_occurs {p : Phrase} (hp : Clear p) {pre rest : Text}
    (h : text p = pre ++ '(' :: rest) :
    ∃ k inner g before after, Occurs k p inner g ∧ pre = before ++ k.word ∧
      rest = text inner ++ ')' :: after ∧ (∀ s, text (g s) = before ++ s ++ after) ∧
      ∀ f : Builtin, f.symbol <:+ pre → f.symbol <:+ k.word := by
  -- The parenthesis is looked for in the text of the phrase, one constructor after the other.
  induction p generalizing pre rest with
  | nil => simp [text] at h
  | char c p ih =>
    cases pre with
    | nil =>
      obtain ⟨rfl, -⟩ := List.cons.inj h
      exact absurd hp.1 (by decide)
    | cons d pre =>
      obtain ⟨rfl, htail⟩ := List.cons.inj h
      have htext : text p = pre ++ '(' :: rest := htail
      obtain ⟨k, inner, g, before, after, hocc, rfl, hrest, hg, hname⟩ := ih hp.2.2 htext
      refine ⟨k, inner, _, c :: before, after, hocc.char c, rfl, hrest,
        fun s => congrArg (c :: ·) (hg s), fun f hf => ?_⟩
      rcases List.suffix_cons_iff.1 hf with hf | hf
      · -- No name starts at a character.
        have hstart := not_isPrefixOf_char f hp (t := []) rfl
        have hpre : f.symbol <+: c :: (before ++ k.word ++ '(' :: rest) :=
          ⟨'(' :: rest, by rw [hf]; simp⟩
        rw [List.append_nil, htext, List.isPrefixOf_iff_prefix.2 hpre] at hstart
        cases hstart
      · exact hname f hf
  | call e inner p ihi ihr =>
    have hword : '(' ∉ e.word := fun hc => (ne_of_mem_word e _ hc).1 rfl
    have hcall : pre ++ '(' :: rest = [] ++ e.word ++ '(' :: (text inner ++ ')' :: text p) := h.symm
    -- The word of the call has no parenthesis, so ours is the one of the call or comes after it.
    rcases split_around hcall hword with ⟨w, rfl, hw⟩ | ⟨w, hnil, -⟩
    · cases w with
      | nil =>
        obtain rfl := (List.cons.inj hw).2
        exact ⟨e, inner, _, [], text p, .here inner p, by simp, rfl, fun s => text_chars s p,
          fun f hf => by simpa using hf⟩
      | cons d w =>
        obtain ⟨rfl, htail⟩ := List.cons.inj hw
        -- In what follows, the parenthesis is inside of the call or after its end.
        have hbracket : text inner ++ ')' :: text p = w ++ ['('] ++ rest :=
          htail.trans (by simp)
        have hopen (f : Builtin) (hf : f.symbol <:+ [] ++ e.word ++ '(' :: w) : f.symbol <:+ w :=
          isSuffix_of_append_cons hf f.paren_notMem_symbol
        rcases split_around hbracket (by decide) with ⟨x, hx, rfl⟩ | ⟨x, rfl, hx⟩
        · have htext : text inner = w ++ '(' :: x := by simpa using hx
          obtain ⟨k, i, g, before, after, hocc, rfl, rfl, hg, hname⟩ := ihi hp.1 htext
          exact ⟨k, i, _, e.word ++ '(' :: before, after ++ ')' :: text p, hocc.inside e p, by simp,
            by simp, fun s => by simp [text, hg], fun f hf => hname f (hopen f hf)⟩
        · have htext : text p = x ++ '(' :: rest := by simpa using hx
          obtain ⟨k, i, g, before, after, hocc, rfl, rfl, hg, hname⟩ := ihr hp.2 htext
          refine ⟨k, i, _, e.word ++ '(' :: (text inner ++ ')' :: before), after,
            hocc.after e inner, by simp, rfl, fun s => by simp [text, hg], fun f hf => ?_⟩
          have hclose : ')' ∉ f.symbol := by cases f <;> decide
          exact hname f (isSuffix_of_append_cons (hopen f hf) hclose)
    · simp at hnil

/-- The name of a call is the first one in the order of the table with which it ends. -/
theorem find?_word (k : Redex) :
    ((Builtin.all.find? fun f => f.symbol.isSuffixOf k.word).map Redex.call).getD .group = k := by
  have hall : ∀ k ∈ Redex.all,
      ((Builtin.all.find? fun f => f.symbol.isSuffixOf k.word).map Redex.call).getD .group = k := by
    decide +kernel
  exact hall k k.mem_all

/-- The kind of a call is told by the names with which the text before its parenthesis ends. -/
theorem find?_of_isSuffix {k : Redex} {before : Text}
    (h : ∀ f : Builtin, f.symbol <:+ before ++ k.word → f.symbol <:+ k.word) :
    (Builtin.all.find? fun f => f.symbol.isSuffixOf (before ++ k.word)) =
      Builtin.all.find? fun f => f.symbol.isSuffixOf k.word := by
  congr 1
  funext f
  rw [Bool.eq_iff_iff, List.isSuffixOf_iff_suffix, List.isSuffixOf_iff_suffix]
  exact ⟨h f, fun hf => hf.trans (List.suffix_append _ _)⟩

/-- A call in a text that is reduced to a number may be resolved before all others. -/
theorem reduce_of_occurs {limit depth : Int} {k : Redex} {p inner : Phrase} {g : Text → Phrase}
    (hp : Clear p) (hs : Settled none p) (h : Occurs k p inner g) {v w : Float}
    (hw : (reduce limit depth (text p)).outcome.toOption = some w)
    (hv : (reduce limit (depth + 1) (text inner)).outcome.toOption = some v) :
    (reduce limit depth (text (g (plainText (k.apply v))))).outcome.toOption = some w := by
  have hnumber := isNumberText_plainText (k.apply v)
  have hfirst (p : Phrase) : AtLeast (Redex.call .sqrt).rank p := atLeast_zero p
  have hinner := h.clear hp hnumber
  have hset := h.settled hs hnumber
  obtain ⟨hdepth, hfits, hvalue⟩ := (reduce_text_iff hp hs w).1 hw
  obtain ⟨-, -, hinside⟩ := (reduce_text_iff hinner.1 hset.1 v).1 hv
  rw [value_dropPlus (hfirst p) hs] at hvalue
  rw [value_dropPlus (hfirst inner) hset.1] at hinside
  -- Alone the inside is reduced as in a call of the first kind, here in one of the kind of `k`.
  have hkind : value (some k) inner = some v := value_later (Nat.zero_le _) hinside
  refine (reduce_text_iff hinner.2 hset.2 w).2 ⟨hdepth, h.fits hfits _, ?_⟩
  rw [value_dropPlus (hfirst _) hset.2]
  exact h.value_eq hkind hvalue

end Phrase

open Phrase

/-- If a text without unary pluses is reduced to a number, then the same number results when any
group in it, with the name of the function before it if there is one, has given way to its value. -/
theorem reduce_splice {limit depth : Int} {t pre inner post : Text} {v w : Float}
    (hplus : dropUnaryPlus t = t) (ht : t = pre ++ '(' :: inner ++ ')' :: post)
    (hinner : Balanced inner) (hw : (reduce limit depth t).outcome = .ok w)
    (hv : (reduce limit (depth + 1) inner).outcome = .ok v) :
    ((∀ f : Builtin, ¬ f.symbol <:+ pre) →
      (reduce limit depth (pre ++ plainText v ++ post)).outcome = .ok w) ∧
    ∀ f pre', (Builtin.all.find? fun f => f.symbol.isSuffixOf pre) = some f →
      pre = pre' ++ f.symbol →
      (reduce limit depth (pre' ++ plainText (f.apply v) ++ post)).outcome = .ok w := by
  obtain ⟨p, hp, hs, htext⟩ := exists_phrase (toOption_eq_some.2 hw)
  rw [hplus] at htext
  have hparen : text p = pre ++ '(' :: (inner ++ ')' :: post) := by rw [htext, ht]; simp
  obtain ⟨k, i, g, before, after, hocc, rfl, hrest, hg, hname⟩ := exists_occurs hp hparen
  -- The parenthesis that matches is that of the call.
  have hclose := closeGroup_text (hocc.clear hp .nan).1 0 (')' :: after)
  rw [← hrest, closeGroup_of_balanced hinner] at hclose
  obtain ⟨rfl, rfl⟩ : inner = text i ∧ post = after := by simpa [closeGroup] using hclose
  -- Whatever the kind of the call, its value may take its place first.
  have hsplice : (reduce limit depth (before ++ plainText (k.apply v) ++ post)).outcome = .ok w := by
    rw [← hg, ← toOption_eq_some]
    rw [← htext] at hw
    exact reduce_of_occurs hp hs hocc (toOption_eq_some.2 hw) (toOption_eq_some.2 hv)
  have hkind := find?_word k
  rw [← find?_of_isSuffix hname] at hkind
  constructor
  · intro hnone
    cases k with
    | group => simpa [Redex.word, Redex.apply] using hsplice
    | call f => exact absurd (List.suffix_append before f.symbol) (hnone f)
  · intro f pre' hfind hpre
    rw [hfind] at hkind
    obtain rfl : .call f = k := hkind
    rw [Redex.word, List.append_cancel_right_eq] at hpre
    rw [← hpre]
    exact hsplice

/-- The root in a product gives way to its value, before the group after it. -/
theorem reduce_splice_root :
    dropUnaryPlus "2*sqrt(4+5)-(1)".toList = "2*sqrt(4+5)-(1)".toList ∧
      Balanced "4+5".toList ∧
      (reduce 64 0 "2*sqrt(4+5)-(1)".toList).outcome = .ok (Float.ofBits 0x4014000000000000) ∧
      (reduce 64 1 "4+5".toList).outcome = .ok (Float.ofBits 0x4022000000000000) ∧
      (reduce 64 0 ("2*".toList ++ plainText (Builtin.sqrt.apply (Float.ofBits 0x4022000000000000)) ++
        "-(1)".toList)).outcome = .ok (Float.ofBits 0x4014000000000000) := by
  have hplus : dropUnaryPlus "2*sqrt(4+5)-(1)".toList = "2*sqrt(4+5)-(1)".toList := by decide
  have hinner : Balanced "4+5".toList := by decide
  have hw : (reduce 64 0 "2*sqrt(4+5)-(1)".toList).outcome =
      .ok (Float.ofBits 0x4014000000000000) := by decide +kernel
  have hv : (reduce 64 1 "4+5".toList).outcome = .ok (Float.ofBits 0x4022000000000000) := by
    decide +kernel
  have hsplice := (@reduce_splice 64 0 _ "2*sqrt".toList _ "-(1)".toList _ _ hplus (by decide)
    hinner hw hv).2 .sqrt "2*".toList (by decide) (by decide)
  exact ⟨hplus, hinner, hw, hv, hsplice⟩

end FormulaPlot
