/-!
# Texts

The engine rewrites texts as lists of characters. `splitAt?` finds the first place where a word
stands and `splitAtChar?` the first place of a character; both give what is before it and what is
after it.
-/

namespace FormulaPlot

/-- A text that is rewritten. -/
abbrev Text := List Char

/-- What is before the rest of a text is its last character, or what is before the text. -/
theorem getLast?_cons_or (c : Char) (t : Text) (q : Option Char) :
    (c :: t).getLast?.or q = t.getLast?.or (some c) := by
  rw [List.getLast?_cons]
  cases t.getLast? <;> rfl

/-- What is before and after the first occurrence of a word. -/
def splitAt? (word : Text) : Text → Option (Text × Text)
  | [] => if word = [] then some ([], []) else none
  | c :: t =>
    if word.isPrefixOf (c :: t) then some ([], (c :: t).drop word.length)
    else (splitAt? word t).map fun (before, after) => (c :: before, after)

/-- What is before and after the first occurrence of a character. -/
def splitAtChar? (s : Char) : Text → Option (Text × Text)
  | [] => none
  | c :: t =>
    if c = s then some ([], t)
    else (splitAtChar? s t).map fun (before, after) => (c :: before, after)

/-- The parts around the first occurrence of a word make up the text. -/
theorem eq_of_splitAt? {word t before after : Text} (h : splitAt? word t = some (before, after)) :
    t = before ++ word ++ after := by
  induction t generalizing before with
  | nil =>
    simp only [splitAt?] at h
    split at h
    · cases h; simp_all
    · cases h
  | cons c t ih =>
    simp only [splitAt?] at h
    split at h
    next hp =>
      cases h
      obtain ⟨s, hs⟩ := List.isPrefixOf_iff_prefix.1 hp
      simp [← hs]
    next hp =>
      obtain ⟨⟨b, a⟩, hb, he⟩ := Option.map_eq_some_iff.1 h
      cases he
      simp [ih hb]

/-- The parts around the first occurrence of a character make up the text, and the character is not
in the first part. -/
theorem eq_of_splitAtChar? {s : Char} {t before after : Text}
    (h : splitAtChar? s t = some (before, after)) :
    t = before ++ s :: after ∧ s ∉ before := by
  induction t generalizing before with
  | nil => simp [splitAtChar?] at h
  | cons c t ih =>
    simp only [splitAtChar?] at h
    split at h
    next hc => cases h; simp [hc]
    next hc =>
      obtain ⟨⟨b, a⟩, hb, he⟩ := Option.map_eq_some_iff.1 h
      cases he
      obtain ⟨h1, h2⟩ := ih hb
      exact ⟨by simp [h1], by simp [h2, Ne.symm hc]⟩

end FormulaPlot
