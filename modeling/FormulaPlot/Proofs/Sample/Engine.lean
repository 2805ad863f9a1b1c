import FormulaPlot.Proofs.Engine.Limit
import FormulaPlot.Proofs.Sample.Run

/-!
# The engine on two samples

The rules of `Follows` applied to the engine. What two runs keep is that their texts look the same,
or that each returns a number next (`Matched`): operators (`follows_applyOperators`), calls
(`follows_resolve`) and whole reductions (`follows_reduce`) of such texts follow each other.

Without agreement a run can fail, but only as numbers do: on a phrase whose calls are not too deep
no error of groups or depth comes up (`errs_reduce_text`).
-/

namespace FormulaPlot

/-! ## Operators -/

/-- The texts of two runs that look the same or are left alone, in which case the second one's is a
number. -/
def Matched (signs : Bool) (w w' : List Step) (t t' : Text) : Prop :=
  Alike signs false t t' ∨ ∃ r r', (∃ x, readNumber r' = .ok x) ∧ leaves r w = true ∧
    leaves r' w' = true

/-- Applying an operator returns nothing at its begin. -/
theorem opens_applyOperator (o : Operator) (t : Text) : Opens (applyOperator o t) := by
  cases hsplit : splitAtChar? o.symbol t with
  | none =>
    rw [applyOperator_of_none hsplit]
    exact opens_of_notes_eq_nil rfl
  | some parts =>
    rw [applyOperator_of_some hsplit]
    refine Opens.bind (opens_of_notes_eq_nil rfl) fun _ a => ?_
    exact Opens.bind (opens_of_notes_eq_nil rfl) fun _ b =>
      opens_note_bind (fun _ h => by cases h) _

/-- Applying operators returns nothing at its begin. -/
theorem opens_applyOperators (os : List Operator) (t : Text) : Opens (applyOperators os t) := by
  induction os generalizing t with
  | nil => exact opens_of_notes_eq_nil rfl
  | cons o os ih => exact (opens_applyOperator o t).bind fun _ => ih

/-- A reduction returns nothing at its begin. -/
theorem opens_reduce (limit depth : Int) (t : Text) : Opens (reduce limit depth t) := by
  rw [reduce]
  exact opens_note_bind (fun _ h => by cases h) _

/-- A reduction leaves notes. -/
theorem notes_reduce_ne_nil (limit depth : Int) (t : Text) : (reduce limit depth t).notes ≠ [] := by
  rw [reduce, Noted.notes_bind_of_ok (a := ()) rfl]
  exact List.cons_ne_nil _ _

/-- Resolving calls returns nothing at its begin. -/
theorem opens_resolve (limit depth : Int) (kinds : List Redex) (t : Text) :
    Opens (resolve limit depth kinds t) := by
  induction depth, kinds, t using resolve_induction with
  | nil depth t =>
    rw [resolve]
    exact opens_of_notes_eq_nil rfl
  | absent depth k ks t hk ih => rwa [resolve_of_none hk]
  | unclosed depth k ks t before rest e hk hg =>
    rw [resolve_of_error hk hg]
    exact opens_of_notes_eq_nil rfl
  | call depth k ks t before rest inner after hk hg =>
    rw [resolve_of_ok hk hg]
    exact (opens_reduce limit (depth + 1) inner).bind fun h =>
      absurd h (notes_reduce_ne_nil limit (depth + 1) inner)

variable {signs : Bool} {w w' : List Step}

/-- Results of two steps that agree look the same or are left alone. -/
theorem similar_or_leaves {s s' : Step} {x x' : Float} (hs : s.result? = some (plainText x))
    (hs' : s'.result? = some (plainText x')) (h : agreeAt signs s w s' w' = true) :
    Similar signs (plainText x) (plainText x') ∨
      leaves (plainText x) w = true ∧ leaves (plainText x') w' = true := by
  simp only [agreeAt, hs, hs', Bool.or_eq_true, Bool.and_eq_true, decide_eq_true_eq] at h
  exact h.imp_left fun h => ⟨isNumberText_plainText x, isNumberText_plainText x', h⟩

/-- Texts that are left alone match any. -/
theorem matched_of_leaves {x x' : Float} (h : leaves (plainText x) w = true)
    (h' : leaves (plainText x') w' = true) (t t' : Text) : Matched signs w w' t t' :=
  .inr ⟨_, _, ⟨x', readNumber_plainText x'⟩, h, h'⟩

/-- Applying an operator to texts that look the same. -/
theorem follows_applyOperator (o : Operator) {w w' : List Step} {t t' : Text}
    (h : Alike signs false t t') :
    Follows signs w w' (Matched signs) (applyOperator o t) (applyOperator o t') := by
  have hsymbol : isOperandChar o.symbol = false := by cases o <;> decide
  -- The operator is found in both texts or in neither.
  rcases h.split hsymbol with ⟨hnone, hnone'⟩ | ⟨u, v, u', v', hsplit, hsplit', hu, hv⟩
  · rw [applyOperator_of_none hnone, applyOperator_of_none hnone']
    exact follows_pure (.inl h)
  · obtain ⟨hleft, hright, hstep⟩ := hu.step hv
    have htext := (eq_of_splitAtChar? hsplit).1
    rw [applyOperator_of_some hsplit, applyOperator_of_some hsplit']
    refine Follows.bind (follows_ofExcept (S := fun _ _ _ _ => True) fun a ha => ?_) ?_
    · obtain ⟨a', ha'⟩ := hleft.read ha
      exact ⟨a', ha', trivial⟩
    rintro n n' a a' -
    refine Follows.bind (follows_ofExcept (S := fun _ _ _ _ => True) fun b hb => ?_) ?_
    · obtain ⟨b', hb'⟩ := hright.read hb
      exact ⟨b', hb', trivial⟩
    rintro n n' b b' -
    refine (follows_note _ _).bind fun m m' _ _ hagree => ?_
    -- The values look the same and the runs go on, or each is returned next and no operator is
    -- left.
    rcases similar_or_leaves rfl rfl hagree with hsimilar | ⟨hleaves, hleaves'⟩
    · exact follows_applyOperator o (hstep hsimilar)
    · exact follows_of_leaves (opens_applyOperator o _) (opens_applyOperator o _) hleaves hleaves'
        fun _ _ => matched_of_leaves hleaves hleaves' _ _
termination_by t.count o.symbol
decreasing_by
  rw [htext, ← count_step o u v (o.apply a b)]
  exact Nat.lt_succ_self _

/-- Applying operators to texts that look the same or are left alone. -/
theorem follows_applyOperators (os : List Operator) {t t' : Text} (h : Matched signs w w' t t') :
    Follows signs w w' (Matched signs) (applyOperators os t) (applyOperators os t') := by
  rcases h with h | ⟨r, r', hread, hleaves, hleaves'⟩
  · -- As long as the texts look the same, each kind is applied in both.
    induction os generalizing w w' t t' with
    | nil => exact follows_pure (.inl h)
    | cons o os ih =>
      refine (follows_applyOperator o h).bind ?_
      rintro n n' u u' (hu | ⟨r, r', hread, hleaves, hleaves'⟩)
      · exact ih hu
      · exact follows_of_leaves (opens_applyOperators os u) (opens_applyOperators os u') hleaves
          hleaves' fun _ _ => .inr ⟨r, r', hread, hleaves, hleaves'⟩
  · exact follows_of_leaves (opens_applyOperators os t) (opens_applyOperators os t') hleaves
      hleaves' fun _ _ => .inr ⟨r, r', hread, hleaves, hleaves'⟩

/-! ## Reductions -/

/-- A text that is returned is a number if one that it matches is. -/
theorem follows_returning {t t' : Text} (h : Matched signs w w' t t') :
    Follows signs w w' (fun _ _ _ _ => True)
      (Noted.note (.returning t) >>= fun _ => Noted.ofExcept (readNumber t))
      (Noted.note (.returning t') >>= fun _ => Noted.ofExcept (readNumber t')) := by
  rcases h with h | ⟨r, r', ⟨x', hread⟩, -, hleaves⟩
  · refine (follows_note _ _).bind fun _ _ _ _ _ => follows_ofExcept fun x hx => ?_
    obtain ⟨x', hx'⟩ := h.read hx
    exact ⟨x', hx', trivial⟩
  · rintro x m m' - rfl rfl - hagree
    -- The number that is returned next is this text itself.
    obtain rfl : t' = r' := by
      have h : leaves r' (.returning t' :: m') = true := hleaves
      simpa [leaves] using h
    exact ⟨x', hread, (Bool.and_eq_true_iff.1 hagree).2, trivial⟩

/-- A reduction follows another one if its calls do. -/
theorem follows_reduce_of_resolve {limit depth : Int} {t t' : Text}
    (h : ∀ w w', Follows signs w w' (Matched signs)
      (resolve limit depth Redex.all (dropUnaryPlus t))
      (resolve limit depth Redex.all (dropUnaryPlus t'))) :
    Follows signs w w' (fun _ _ _ _ => True) (reduce limit depth t) (reduce limit depth t') := by
  rw [reduce, reduce]
  refine (follows_note _ _).bind fun _ _ _ _ _ => ?_
  split
  · -- The first run fails at its depth, and nothing follows from that.
    intro a m m' ha
    cases ha
  refine (follows_note _ _).bind fun _ _ _ _ _ => (h _ _).bind fun n n' u u' hu => ?_
  have hmark : Matched signs n n' (markBinaryMinus u) (markBinaryMinus u') :=
    hu.imp_left Alike.mark
  refine (follows_applyOperators Operator.all hmark).bind fun n n' u u' hu => ?_
  exact follows_returning (hu.imp_left Alike.cancel)

namespace Phrase

/-- Resolving the calls of phrases that vary in their numbers. -/
theorem follows_resolve {limit depth : Int} (n : Nat) (p : Phrase) (hp : Clear p)
    (hs : Settled none p) (hn : AtLeast n p) {p' : Phrase} (h : Varies signs signs false p p') :
    Follows signs w w' (Matched signs) (resolve limit depth (Redex.all.drop n) (text p))
      (resolve limit depth (Redex.all.drop n) (text p')) := by
  refine phrase_induction (P := fun depth n p => ∀ w w' p', Varies signs signs false p p' →
    Follows signs w w' (Matched signs) (resolve limit depth (Redex.all.drop n) (text p))
      (resolve limit depth (Redex.all.drop n) (text p'))) ?flat ?absent ?call depth n p hp hs hn
    w w' p' h
  case flat =>
    intro depth n p hge hnone w w' p' h
    rw [List.drop_of_length_le hge, resolve, resolve]
    exact follows_pure (.inl (h.alike hnone))
  case absent =>
    intro depth k p hp hnone ih w w' p' h
    rw [drop_rank, resolve_of_none (split?_eq_none hp hnone),
      resolve_of_none (split?_eq_none (h.clear hp) (h.atLeast hnone))]
    exact ih w w' p' h
  case call =>
    intro depth k p inner g hp hs hn hg hinner hrest w w' p' h
    obtain ⟨inner', g', hg', hvaries, hleft⟩ := h.first hg
    obtain ⟨before, after, hgs, hsplit⟩ := split?_of_first hp hn hg
    obtain ⟨before', after', hgs', hsplit'⟩ := split?_of_first (h.clear hp) (h.atLeast hn) hg'
    have hclear := (hg.occurs.clear hp .nan).1
    have hset := (hg.occurs.settled hs .nan).1
    rw [drop_rank, resolve_of_ok hsplit (splitGroup_text hclear after),
      resolve_of_ok hsplit' (splitGroup_text (hvaries.clear hclear) after'), ← drop_rank]
    -- The insides are reduced one level deeper.
    refine Follows.bind (S := fun _ _ _ _ => True) (follows_reduce_of_resolve fun w w' => ?_) ?_
    · rw [dropUnaryPlus_text, dropUnaryPlus_text]
      exact hinner w w' _ (hvaries.dropPlus hset (fun h => absurd h (by decide)) rfl true)
    -- With their values in the places of the calls the phrases vary, if these are not left alone.
    rintro n n' v v' -
    refine (follows_note _ _).bind fun m m' _ _ hagree => ?_
    rcases similar_or_leaves rfl rfl hagree with hsimilar | ⟨hleaves, hleaves'⟩
    · rw [← hgs, ← hgs']
      exact hrest _ m m' _ (hleft hsimilar)
    · exact follows_of_leaves (opens_resolve _ _ _ _) (opens_resolve _ _ _ _) hleaves hleaves'
        fun _ _ => matched_of_leaves hleaves hleaves' _ _

/-- A reduction of a text follows that of another one if they are phrases that vary in their
numbers. -/
theorem follows_reduce {limit depth : Int} {t t' : Text} {p p' : Phrase} (hp : Clear p)
    (hs : Settled none p) (h : Varies signs signs false p p') (ht : text p = dropUnaryPlus t)
    (ht' : text p' = dropUnaryPlus t') :
    Follows signs w w' (fun _ _ _ _ => True) (reduce limit depth t) (reduce limit depth t') := by
  refine follows_reduce_of_resolve fun w w' => ?_
  rw [← ht, ← ht']
  exact follows_resolve 0 p hp hs (atLeast_zero p) h

/-! ## Errors of phrases -/

/-- Resolving the calls of a phrase that are not too deep fails as numbers do. -/
theorem errs_resolve_text {P : EvalError → Prop} (hP : EvalError.Numeric P) {limit depth : Int}
    (n : Nat) (p : Phrase) (hp : Clear p) (hs : Settled none p) (hn : AtLeast n p)
    (hfits : Fits limit depth [] p) : (resolve limit depth (Redex.all.drop n) (text p)).Errs P := by
  refine phrase_induction (P := fun depth n p => Fits limit depth [] p →
    (resolve limit depth (Redex.all.drop n) (text p)).Errs P) ?flat ?absent ?call depth n p hp hs hn
    hfits
  case flat =>
    intro depth n p hge hnone hfits
    rw [List.drop_of_length_le hge, resolve]
    exact Noted.errs_of_ok rfl
  case absent =>
    intro depth k p hp hnone ih hfits
    rw [drop_rank, resolve_of_none (split?_eq_none hp hnone)]
    exact ih hfits
  case call =>
    intro depth k p inner g hp hs hn hg hinner hrest hfits
    obtain ⟨before, after, hgs, hsplit⟩ := split?_of_first hp hn hg
    -- The inside fits one level deeper, and the rest fits with any number in the place of the call.
    have hfirst (s : Text) := (hg.fits_iff (by simp) s).1 hfits
    obtain ⟨hdeep, hin, -⟩ := hfirst []
    rw [fits_cons (hg.occurs.atLeast hn []).1] at hin
    rw [drop_rank, resolve_of_ok hsplit (splitGroup_text (hg.occurs.clear hp .nan).1 after),
      ← drop_rank]
    refine Noted.Errs.bind (errs_reduce_of_resolve hP (.inr hdeep) ?_) fun v _ => ?_
    · rw [dropUnaryPlus_text]
      exact hinner ((fits_dropPlus _ _ _).2 hin)
    refine Noted.Errs.bind (Noted.errs_of_ok (a := ()) rfl) fun _ _ => ?_
    rw [← hgs]
    exact hrest _ (hfirst _).2.2

/-- A reduction of a phrase whose calls are not too deep fails as numbers do. -/
theorem errs_reduce_text {P : EvalError → Prop} (hP : EvalError.Numeric P) {limit depth : Int}
    {t : Text} {p : Phrase} (hp : Clear p) (hs : Settled none p) (hdepth : depth ≤ limit)
    (hfits : Fits limit depth [] p) (ht : text p = dropUnaryPlus t) :
    (reduce limit depth t).Errs P := by
  refine errs_reduce_of_resolve hP (.inr hdepth) ?_
  rw [← ht]
  exact errs_resolve_text hP 0 p hp hs (atLeast_zero p) hfits

end Phrase

end FormulaPlot
