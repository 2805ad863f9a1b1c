import FormulaPlot.Proofs.Phrase.Run
import FormulaPlot.Proofs.Sample.Phrase

/-!
# Two runs on one formula

Two runs on phrases that vary in their numbers take the same steps as long as the results of these
steps look the same (`agree`). So a reduction that ends with a value is followed by one that does
(`follows_reduce`).

Results may look different where nothing is left beside them: a text that is all of what a reduction
returns is read as a number whatever it is. The notes show this, as the reduction returns the very
text next (`leaves`).

The proof is a logic of two runs. `Follows w w' S x x'` says that `x'` ends with a value if `x`
does, where `w` and `w'` are the notes from the begin of `x` and `x'` to the ends of the whole runs
and these agree. There is one rule for parts one after the other (`Follows.bind`), and one for each
kind of part.
-/

namespace FormulaPlot

/-! ## Notes that agree -/

/-- The text that a step puts in the place of others. -/
def Step.result? : Step → Option Text
  | replaced _ _ result => some result
  | applied _ _ _ result => some result
  | _ => none

/-- Whether a reduction returns a text next. -/
def leaves (t : Text) (notes : List Step) : Bool := notes.head? = some (.returning t)

/-- Whether the results of two steps with notes after them look the same or are left alone both. -/
def agreeAt (signs : Bool) (s : Step) (m : List Step) (s' : Step) (m' : List Step) : Bool :=
  match s.result?, s'.result? with
  | some r, some r' => outline signs r = outline signs r' || (leaves r m && leaves r' m')
  | _, _ => true

/-- Whether the results of two runs agree, one after the other, as long as both go on. -/
def agree (signs : Bool) : List Step → List Step → Bool
  | s :: m, s' :: m' => agreeAt signs s m s' m' && agree signs m m'
  | _, _ => true

/-! ## Runs that follow others -/

variable {α β γ δ : Type}

/-- `Follows signs w w' S x x'` says that `x'` ends with a value if `x` does and the notes `w` and
`w'` agree, of which `x` and `x'` leave the first ones. `S` is then true of the notes after them and
their values. If `x'` failed then no notes would come after its own. -/
def Follows (signs : Bool) (w w' : List Step) (S : List Step → List Step → α → β → Prop)
    (x : Run α) (x' : Run β) : Prop :=
  ∀ a m m', x.outcome = .ok a → w = x.notes ++ m → w' = x'.notes ++ m' →
    (m' ≠ [] → ∃ b, x'.outcome = .ok b) → agree signs w w' = true →
      ∃ b, x'.outcome = .ok b ∧ agree signs m m' = true ∧ S m m' a b

variable {signs : Bool} {w w' : List Step}

/-- Two parts follow two parts if the first follows the first and from there the second the
second. -/
theorem Follows.bind {S : List Step → List Step → α → β → Prop}
    {T : List Step → List Step → γ → δ → Prop} {x : Run α} {x' : Run β} {f : α → Run γ}
    {f' : β → Run δ} (hx : Follows signs w w' S x x')
    (hf : ∀ n n' a b, S n n' a b → Follows signs n n' T (f a) (f' b)) :
    Follows signs w w' T (x >>= f) (x' >>= f') := by
  intro c m m' hc hw hw' hm' hagree
  rw [Noted.outcome_bind] at hc
  cases ha : x.outcome with
  | error e => rw [ha] at hc; cases hc
  | ok a =>
    rw [ha] at hc
    rw [Noted.notes_bind_of_ok ha, List.append_assoc] at hw
    cases hb : x'.outcome with
    | error e =>
      -- If the first part of the second run fails, no notes come after those of the whole run.
      have hnil : m' = [] := by
        by_contra hne
        obtain ⟨d, hd⟩ := hm' hne
        rw [Noted.outcome_bind, hb] at hd
        cases hd
      rw [Noted.notes_bind_of_error hb] at hw'
      obtain ⟨b, hok, -⟩ := hx a _ m' ha hw hw' (fun hne => absurd hnil hne) hagree
      rw [hb] at hok
      cases hok
    | ok b =>
      rw [Noted.notes_bind_of_ok hb, List.append_assoc] at hw'
      -- The notes after the first parts agree, which is what the second parts start from.
      obtain ⟨b', hok, hrest, hS⟩ := hx a _ _ ha hw hw' (fun _ => ⟨b, hb⟩) hagree
      obtain rfl : b = b' := Except.ok.inj (hb.symm.trans hok)
      have hbind : (x' >>= f').outcome = (f' b).outcome := by
        rw [Noted.outcome_bind, hb]
        rfl
      rw [hbind] at hm' ⊢
      exact hf _ _ a b hS c m m' hc rfl rfl hm' hrest

/-- An outcome follows one if it is a value where that is. -/
theorem follows_ofExcept {S : List Step → List Step → α → β → Prop} {x : Except EvalError α}
    {x' : Except EvalError β} (h : ∀ a, x = .ok a → ∃ b, x' = .ok b ∧ S w w' a b) :
    Follows signs w w' S (Noted.ofExcept x) (Noted.ofExcept x') := by
  rintro a m m' ha rfl rfl - hagree
  obtain ⟨b, hb, hS⟩ := h a ha
  exact ⟨b, hb, hagree, hS⟩

/-- A value follows a value. -/
theorem follows_pure {S : List Step → List Step → α → β → Prop} {a : α} {b : β} (h : S w w' a b) :
    Follows signs w w' S (pure a) (pure b) := by
  rintro _ m m' ⟨⟩ rfl rfl - hagree
  exact ⟨b, rfl, hagree, h⟩

/-- A note follows a note, and what they say of results agrees. -/
theorem follows_note (s s' : Step) :
    Follows signs w w' (fun m m' _ _ => agreeAt signs s m s' m' = true) (Noted.note s)
      (Noted.note s') := by
  rintro _ m m' - rfl rfl - hagree
  rw [Noted.notes_note, Noted.notes_note, List.singleton_append, List.singleton_append, agree,
    Bool.and_eq_true] at hagree
  exact ⟨(), rfl, hagree.2, hagree.1⟩

/-! ## Runs that leave a text alone -/

/-- No text is returned at the begin of a run. -/
def Opens (x : Run α) : Prop := ∀ t, leaves t x.notes = false

/-- Two parts return nothing at their begin if neither does. -/
theorem Opens.bind {x : Run α} {f : α → Run β} (hx : Opens x)
    (hf : x.notes = [] → ∀ a, Opens (f a)) : Opens (x >>= f) := by
  intro t
  cases ha : x.outcome with
  | error e => rw [Noted.notes_bind_of_error ha]; exact hx t
  | ok a =>
    rw [Noted.notes_bind_of_ok ha]
    -- The first note of both parts is that of the second where the first leaves none.
    cases hnotes : x.notes with
    | nil => exact hf hnotes a t
    | cons s n =>
      have := hx t
      rwa [hnotes] at this

/-- What leaves no notes returns nothing. -/
theorem opens_of_notes_eq_nil {x : Run α} (h : x.notes = []) : Opens x := fun t => by
  rw [h]
  rfl

/-- A run that begins with a note that returns nothing. -/
theorem opens_note_bind {s : Step} (hs : ∀ t, s ≠ .returning t) (f : Unit → Run α) :
    Opens (Noted.note s >>= f) := by
  refine Opens.bind (fun t => ?_) nofun
  simpa [leaves] using hs t

/-- If a text is left alone then what is done until it is returned is nothing. -/
theorem Opens.notes_eq_nil {x : Run α} (h : Opens x) {t : Text} {m : List Step}
    (ht : leaves t (x.notes ++ m) = true) : x.notes = [] := by
  cases hnotes : x.notes with
  | nil => rfl
  | cons s n =>
    have := h t
    rw [hnotes] at this ht
    exact absurd ht (by simpa [leaves] using this)

/-- What returns nothing at its begin follows what does not either where texts are left alone. -/
theorem follows_of_leaves {S : List Step → List Step → α → β → Prop} {x : Run α} {x' : Run β}
    (hx : Opens x) (hx' : Opens x') {r r' : Text} (h : leaves r w = true) (h' : leaves r' w' = true)
    (hS : ∀ a b, S w w' a b) : Follows signs w w' S x x' := by
  rintro a m m' - rfl rfl hm' hagree
  have hnil := hx.notes_eq_nil h
  have hnil' := hx'.notes_eq_nil h'
  rw [hnil, hnil'] at hS hagree
  rw [hnil', List.nil_append] at h'
  -- The text is returned after the second run, so this has not failed.
  have hne : m' ≠ [] := by
    rintro rfl
    cases h'
  obtain ⟨b, hb⟩ := hm' hne
  exact ⟨b, hb, hagree, hS a b⟩

end FormulaPlot
