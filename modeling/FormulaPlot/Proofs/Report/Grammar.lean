import FormulaPlot.Report.Json
import FormulaPlot.Proofs.Number.ReadText

/-!
# The grammar of JSON

`IsDocument t` says that a text is a document in the grammar of the standard. Each rule of the
grammar is a relation of its own, and its comment gives the rule.

What the grammar excludes is seen outside of the strings of a text, in which nearly every character
is allowed. `outside` leaves them out. The strings of a document end in it, and what is left has no
`N` and no `I` (`IsItem.quiet`), as the letters there are those of three names and of exponents.
-/

namespace FormulaPlot.Json

/-! ## The rules -/

/-- Blanks between the parts of a document: `ws = *( %x20 / %x09 / %x0A / %x0D )`. -/
def Blanks (t : Text) : Prop := ∀ c ∈ t, c ∈ [' ', '\t', '\n', '\r']

/-- A whole number: `int = zero / ( digit1-9 *DIGIT )`. -/
inductive IsInt : Text → Prop
  | zero : IsInt ['0']
  | digits {c : Char} {t : Text} : isAsciiDigit c = true → c ≠ '0' →
      (∀ d ∈ t, isAsciiDigit d = true) → IsInt (c :: t)

/-- A fraction or nothing: `frac = decimal-point 1*DIGIT`. -/
inductive IsFraction : Text → Prop
  | none : IsFraction []
  | some {t : Text} : IsDigits t → IsFraction ('.' :: t)

/-- An exponent or nothing: `exp = e [ minus / plus ] 1*DIGIT`. -/
inductive IsExponent : Text → Prop
  | none : IsExponent []
  | some {c : Char} {s t : Text} : c = 'e' ∨ c = 'E' → s = [] ∨ s = ['-'] ∨ s = ['+'] →
      IsDigits t → IsExponent (c :: (s ++ t))

/-- A number: `number = [ minus ] int [ frac ] [ exp ]`. -/
inductive IsNumeral : Text → Prop
  | mk {u v w : Text} (s : Bool) : IsInt u → IsFraction v → IsExponent w →
      IsNumeral (signed s (u ++ v ++ w))

/-- A hexadecimal digit: `HEXDIG`, with letters of either case. -/
def isHexDigit (c : Char) : Bool :=
  isAsciiDigit c || ('a' ≤ c && c ≤ 'f') || ('A' ≤ c && c ≤ 'F')

/-- A character of a string: `char = unescaped / escape ( ... / %x75 4HEXDIG )`. -/
inductive IsChar : Text → Prop
  /-- One that stands for itself: `unescaped = %x20-21 / %x23-5B / %x5D-10FFFF`. -/
  | plain {c : Char} : 0x20 ≤ c.toNat → c ≠ '\x22' → c ≠ '\\' → IsChar [c]
  /-- One that has a character for its escape. -/
  | escaped {c : Char} : c ∈ ['\x22', '\\', '/', 'b', 'f', 'n', 'r', 't'] → IsChar ['\\', c]
  /-- One that is escaped by its code. -/
  | code {t : Text} : t.length = 4 → (∀ c ∈ t, isHexDigit c = true) → IsChar ('\\' :: 'u' :: t)

/-- A string: `string = quotation-mark *char quotation-mark`. -/
inductive IsString : Text → Prop
  | mk {us : List Text} : (∀ u ∈ us, IsChar u) → IsString ('\x22' :: us.flatten ++ ['\x22'])

mutual

/-- A value: `value = false / null / true / object / array / number / string`. The items of arrays
and the members of objects are separated by commas. -/
inductive IsValue : Text → Prop
  | null : IsValue ['n', 'u', 'l', 'l']
  | false : IsValue ['f', 'a', 'l', 's', 'e']
  | true : IsValue ['t', 'r', 'u', 'e']
  | numeral {t : Text} : IsNumeral t → IsValue t
  | string {t : Text} : IsString t → IsValue t
  | emptyArray {w : Text} : Blanks w → IsValue ('[' :: w ++ [']'])
  | array {ts : List Text} : ts ≠ [] → (∀ t ∈ ts, IsItem t) →
      IsValue ('[' :: [','].intercalate ts ++ [']'])
  | emptyObject {w : Text} : Blanks w → IsValue ('\x7b' :: w ++ ['\x7d'])
  | object {ts : List Text} : ts ≠ [] → (∀ t ∈ ts, IsMember t) →
      IsValue ('\x7b' :: [','].intercalate ts ++ ['\x7d'])

/-- A value between blanks. -/
inductive IsItem : Text → Prop
  | mk {w t w' : Text} : Blanks w → IsValue t → Blanks w' → IsItem (w ++ t ++ w')

/-- A name and a value: `member = string name-separator value`. -/
inductive IsMember : Text → Prop
  | mk {w k w' t : Text} : Blanks w → IsString k → Blanks w' → IsItem t →
      IsMember (w ++ k ++ w' ++ ':' :: t)

end

/-- A document: `JSON-text = ws value ws`. -/
def IsDocument (t : Text) : Prop := IsItem t

/-! ## Outside of strings -/

/-- Where a text is read. -/
inductive Place where
  | outside | string
  /-- In a string after a backslash, which takes the next character with it. -/
  | escape
deriving DecidableEq

namespace Place

/-- Where reading goes on after a character. -/
def next : Place → Char → Place
  | outside, c => if c = '\x22' then string else outside
  | string, c => if c = '\x22' then outside else if c = '\\' then escape else string
  | escape, _ => string

/-- Where reading goes on after a text. -/
def after (p : Place) (t : Text) : Place := t.foldl next p

/-- Where reading goes on after two texts. -/
theorem after_append (p : Place) (t u : Text) : p.after (t ++ u) = (p.after t).after u :=
  List.foldl_append

end Place

/-- What is outside of strings in a text that is read from a place on. -/
def outsideFrom (p : Place) : Text → Text
  | [] => []
  | c :: t => (if p = .outside ∧ c ≠ '\x22' then [c] else []) ++ outsideFrom (p.next c) t

/-- What is outside of the strings of a text. -/
def outside (t : Text) : Text := outsideFrom .outside t

/-- What is outside of strings in two texts. -/
theorem outsideFrom_append (p : Place) (t u : Text) :
    outsideFrom p (t ++ u) = outsideFrom p t ++ outsideFrom (p.after t) u := by
  induction t generalizing p with
  | nil => rfl
  | cons c t ih => rw [List.cons_append, outsideFrom, outsideFrom, ih, List.append_assoc]; rfl

/-- A text whose strings end in it. -/
def Closed (t : Text) : Prop := Place.outside.after t = .outside

/-- After a closed text strings begin as in a text alone. -/
theorem Closed.outside_append {t : Text} (ht : Closed t) (u : Text) :
    outside (t ++ u) = outside t ++ outside u := by
  rw [outside, outsideFrom_append, ht]
  rfl

/-- Without quotation marks there are no strings. -/
theorem closed_of_notMem {t : Text} (h : '\x22' ∉ t) : Closed t ∧ outside t = t := by
  induction t with
  | nil => exact ⟨rfl, rfl⟩
  | cons c t ih =>
    rw [List.mem_cons, not_or] at h
    obtain ⟨hclosed, houtside⟩ := ih h.2
    -- Reading stays outside, so the character is kept.
    have hc : Place.outside.next c = .outside := by rw [Place.next, if_neg (Ne.symm h.1)]
    constructor
    · rw [Closed, Place.after, List.foldl_cons, hc]
      exact hclosed
    · rw [outside, outsideFrom, if_pos ⟨rfl, Ne.symm h.1⟩, hc]
      exact congrArg (c :: ·) houtside

namespace Closed

/-- Closed texts make up closed texts. -/
theorem append {t u : Text} (ht : Closed t) (hu : Closed u) : Closed (t ++ u) := by
  rw [Closed, Place.after_append, ht, hu]

/-- Closed texts with closed ones between them are closed. -/
theorem intercalate {s : Text} {ts : List Text} (hs : Closed s) (h : ∀ t ∈ ts, Closed t) :
    Closed (s.intercalate ts) := by
  induction ts with
  | nil => rfl
  | cons t ts ih =>
    have hrest := ih fun u hu => h u (List.mem_cons_of_mem t hu)
    have ht := h t List.mem_cons_self
    cases ts with
    | nil => simpa using ht
    | cons u ts => simpa using ht.append (hs.append hrest)

end Closed

/-! ## Strings -/

/-- A text that does not leave the string that it is in. -/
def Inner (t : Text) : Prop := Place.string.after t = .string ∧ outsideFrom .string t = []

/-- Texts in a string stay in it. -/
theorem Inner.append {t u : Text} (ht : Inner t) (hu : Inner u) : Inner (t ++ u) := by
  constructor
  · rw [Place.after_append, ht.1, hu.1]
  · rw [outsideFrom_append, ht.1, ht.2, hu.2, List.append_nil]

/-- Texts in a string stay in it. -/
theorem inner_flatten {us : List Text} (h : ∀ u ∈ us, Inner u) : Inner us.flatten := by
  induction us with
  | nil => exact ⟨rfl, rfl⟩
  | cons u us ih =>
    exact (h u List.mem_cons_self).append (ih fun v hv => h v (List.mem_cons_of_mem u hv))

/-- Characters that are neither quotation marks nor backslashes stay in a string. -/
theorem inner_of_notMem {t : Text} (h : '\x22' ∉ t) (h' : '\\' ∉ t) : Inner t := by
  induction t with
  | nil => exact ⟨rfl, rfl⟩
  | cons c t ih =>
    rw [List.mem_cons, not_or] at h h'
    have hc : Place.string.next c = .string := by
      rw [Place.next, if_neg (Ne.symm h.1), if_neg (Ne.symm h'.1)]
    exact Inner.append (t := [c]) ⟨hc, rfl⟩ (ih h.2 h'.2)

/-- A character of a string stays in it. -/
theorem IsChar.inner {u : Text} (h : IsChar u) : Inner u := by
  cases h with
  | plain _ hquote hslash =>
    exact inner_of_notMem (by simpa using hquote.symm) (by simpa using hslash.symm)
  | escaped _ =>
    -- The backslash takes the next character with it, even a quotation mark.
    exact ⟨rfl, rfl⟩
  | code _ hhex =>
    have hnot (c : Char) (hc : isHexDigit c = false) : c ∉ _ := fun hmem => by
      rw [hhex c hmem] at hc
      cases hc
    exact Inner.append (t := ['\\', 'u']) ⟨rfl, rfl⟩
      (inner_of_notMem (hnot _ (by decide)) (hnot _ (by decide)))

/-- A string ends at its end, and nothing of it is outside. -/
theorem IsString.closed {t : Text} (h : IsString t) : Closed t ∧ outside t = [] := by
  cases h with
  | @mk us hus =>
    obtain ⟨hafter, houtside⟩ := inner_flatten fun u hu => (hus u hu).inner
    -- The first quotation mark leads into the string and the last one out of it.
    constructor
    · rw [Closed, Place.after_append]
      change (Place.string.after us.flatten).after ['\x22'] = .outside
      rw [hafter]
      rfl
    · rw [outside, List.cons_append, outsideFrom]
      change outsideFrom .string (us.flatten ++ ['\x22']) = []
      rw [outsideFrom_append, hafter, houtside]
      rfl

/-! ## What no document has -/

/-- Characters other than quotation marks, `N` and `I`. -/
def isMute (c : Char) : Bool := c ≠ '\x22' && c ≠ 'N' && c ≠ 'I'

/-- A text without `N` and `I` but in its strings, which end in it. -/
def Quiet (t : Text) : Prop := Closed t ∧ ∀ c ∈ outside t, isMute c = true

namespace Quiet

variable {t u : Text}

/-- A character outside of strings that is not mute is heard. -/
theorem not_of_mem {c : Char} (hmute : isMute c = false) (hc : c ∈ outside t) : ¬ Quiet t :=
  fun h => by
    rw [h.2 c hc] at hmute
    cases hmute

/-- Closed texts are quiet together if each of them is. -/
theorem append_iff (ht : Closed t) (hu : Closed u) : Quiet (t ++ u) ↔ Quiet t ∧ Quiet u := by
  simp only [Quiet, ht, hu, ht.append hu, true_and]
  rw [ht.outside_append]
  exact List.forall_mem_append

/-- Quiet texts make up quiet texts. -/
theorem append (ht : Quiet t) (hu : Quiet u) : Quiet (t ++ u) := (append_iff ht.1 hu.1).2 ⟨ht, hu⟩

/-- Mute characters are quiet. -/
theorem of_isMute (h : ∀ c ∈ t, isMute c = true) : Quiet t := by
  obtain ⟨hclosed, houtside⟩ := closed_of_notMem fun hquote => absurd (h _ hquote) (by decide)
  exact ⟨hclosed, by rwa [houtside]⟩

/-- Mute characters are quiet. -/
theorem of_all (h : t.all isMute = true) : Quiet t := of_isMute (List.all_eq_true.1 h)

/-- Closed texts are quiet, with quiet ones between them, if each of them is. -/
theorem intercalate_iff {s : Text} {ts : List Text} (hs : Quiet s) (h : ∀ t ∈ ts, Closed t) :
    Quiet (s.intercalate ts) ↔ ∀ t ∈ ts, Quiet t := by
  induction ts with
  | nil => exact ⟨fun _ => List.forall_mem_nil _, fun _ => of_all rfl⟩
  | cons t ts ih =>
    obtain ⟨ht, hrest⟩ := List.forall_mem_cons.1 h
    cases ts with
    | nil => simp
    | cons u ts =>
      -- The first text and what is between the texts are closed, so each counts for itself.
      rw [List.intercalate_cons_cons, append_iff (ht.append hs.1) (hs.1.intercalate hrest),
        append_iff ht hs.1, ih hrest, List.forall_mem_cons]
      simp [hs]

/-- Quiet texts with commas between them are quiet. -/
theorem intercalate {ts : List Text} (h : ∀ t ∈ ts, Quiet t) : Quiet ([','].intercalate ts) :=
  (intercalate_iff (of_all (by decide)) fun t ht => (h t ht).1).2 h

/-- A quiet text between brackets is quiet. -/
theorem enclosed (ht : Quiet t) (l r : Char) (hl : isMute l = true) (hr : isMute r = true) :
    Quiet (l :: t ++ [r]) :=
  append (t := [l]) (of_isMute (by simpa using hl)) (ht.append (of_isMute (by simpa using hr)))

end Quiet

/-- Blanks are quiet. -/
theorem Blanks.quiet {w : Text} (h : Blanks w) : Quiet w :=
  .of_isMute fun c hc => List.all_eq_true.1 (by decide) c (h c hc)

/-- Digits are quiet. -/
theorem quiet_of_isAsciiDigit {t : Text} (h : ∀ c ∈ t, isAsciiDigit c = true) : Quiet t :=
  .of_isMute fun c hc => by
    -- None of the three characters that are not mute is a digit.
    have hne (d : Char) (hd : isAsciiDigit d = false) : c ≠ d :=
      ne_of_apply_ne isAsciiDigit (by simp [h c hc, hd])
    simp [isMute, hne '\x22' (by decide), hne 'N' (by decide), hne 'I' (by decide)]

/-- Numbers are quiet. -/
theorem IsNumeral.quiet {t : Text} (h : IsNumeral t) : Quiet t := by
  cases h with
  | @mk u v w s hu hv hw =>
    have hint : Quiet u := by
      cases hu with
      | zero => exact .of_all (by decide)
      | digits hc _ ht => exact quiet_of_isAsciiDigit (List.forall_mem_cons.2 ⟨hc, ht⟩)
    have hfraction : Quiet v := by
      cases hv with
      | none => exact .of_all rfl
      | some ht =>
        exact Quiet.append (t := ['.']) (.of_all (by decide)) (quiet_of_isAsciiDigit ht.2)
    have hexponent : Quiet w := by
      cases hw with
      | none => exact .of_all rfl
      | @some c s t hc hs ht =>
        -- The letter of the exponent is one of two, and neither is heard.
        have hmark : (c :: s).all isMute = true := by
          rcases hc with rfl | rfl <;> rcases hs with rfl | rfl | rfl <;> decide
        exact (Quiet.of_all hmark).append (quiet_of_isAsciiDigit ht.2)
    have hbody := (hint.append hfraction).append hexponent
    cases s with
    | false => exact hbody
    | true => exact Quiet.append (t := ['-']) (.of_all (by decide)) hbody

/-- Strings are quiet. -/
theorem IsString.quiet {t : Text} (h : IsString t) : Quiet t :=
  ⟨h.closed.1, by rw [h.closed.2]; exact List.forall_mem_nil _⟩

mutual

/-- Values are quiet. -/
theorem IsValue.quiet {t : Text} : IsValue t → Quiet t
  | .null | .false | .true => .of_all (by decide)
  | .numeral h => h.quiet
  | .string h => h.quiet
  | .emptyArray h => h.quiet.enclosed '[' ']' (by decide) (by decide)
  | .array _ h =>
    (Quiet.intercalate fun t ht => (h t ht).quiet).enclosed '[' ']' (by decide) (by decide)
  | .emptyObject h => h.quiet.enclosed '\x7b' '\x7d' (by decide) (by decide)
  | .object _ h =>
    (Quiet.intercalate fun t ht => (h t ht).quiet).enclosed '\x7b' '\x7d' (by decide) (by decide)

/-- Items of arrays are quiet. -/
theorem IsItem.quiet {t : Text} : IsItem t → Quiet t
  | .mk hw ht hw' => (hw.quiet.append ht.quiet).append hw'.quiet

/-- Members of objects are quiet. -/
theorem IsMember.quiet {t : Text} : IsMember t → Quiet t
  | .mk hw hk hw' ht =>
    ((hw.quiet.append hk.quiet).append hw'.quiet).append
      (.append (t := [':']) (.of_all (by decide)) ht.quiet)

end

end FormulaPlot.Json
