import FormulaPlot.Report.Printed
import FormulaPlot.Proofs.Report.Number

/-!
# Printed documents

A record is printed as a document of the grammar exactly if all doubles in it are finite
(`isDocument_printed_iff`). Its texts do not matter, as every character that the grammar does not
allow in a string is escaped (`isString_text`).

A value is a document if its items are (`isValue_lines`). One with a double that is not finite has
the name of that double outside of its strings (`quiet_lines_iff`), and no document has.
-/

namespace FormulaPlot

namespace Value

/-- A double that is in a value. -/
inductive Holds (x : Float) : Value → Prop
  | real : Holds x (.real x)
  | item {v : Value} {items : List Value} : v ∈ items → Holds x v → Holds x (.list items)
  | field {f : String × Value} {fields : List (String × Value)} : f ∈ fields → Holds x f.2 →
      Holds x (.record fields)

section Holds

variable {x : Float}

@[simp] theorem holds_real {y : Float} : (real y).Holds x ↔ x = y :=
  ⟨fun h => by cases h; rfl, fun h => h ▸ .real⟩

@[simp] theorem holds_list {items : List Value} : (list items).Holds x ↔ ∃ v ∈ items, v.Holds x :=
  ⟨fun h => by cases h with | item hv h => exact ⟨_, hv, h⟩, fun ⟨_, hv, h⟩ => .item hv h⟩

@[simp] theorem holds_record {fields : List (String × Value)} :
    (record fields).Holds x ↔ ∃ f ∈ fields, f.2.Holds x :=
  ⟨fun h => by cases h with | field hf h => exact ⟨_, hf, h⟩, fun ⟨_, hf, h⟩ => .field hf h⟩

/-- What is true of the doubles in a list is true of those in its items. -/
theorem forall_holds_list {P : Float → Prop} {items : List Value} :
    (∀ x, (list items).Holds x → P x) ↔ ∀ v ∈ items, ∀ x, v.Holds x → P x := by
  simp only [holds_list]
  exact ⟨fun h v hv x hx => h x ⟨v, hv, hx⟩, fun h x ⟨v, hv, hx⟩ => h v hv x hx⟩

/-- What is true of the doubles in a record is true of those in its values. -/
theorem forall_holds_record {P : Float → Prop} {fields : List (String × Value)} :
    (∀ x, (record fields).Holds x → P x) ↔ ∀ f ∈ fields, ∀ x, f.2.Holds x → P x := by
  simp only [holds_record]
  exact ⟨fun h f hf x hx => h x ⟨f, hf, hx⟩, fun h x ⟨f, hf, hx⟩ => h f hf x hx⟩

@[simp] theorem not_holds_bool {b : Bool} : ¬ (bool b).Holds x := fun h => by cases h

@[simp] theorem not_holds_int {n : Int} : ¬ (int n).Holds x := fun h => by cases h

@[simp] theorem not_holds_text {s : String} : ¬ (text s).Holds x := fun h => by cases h

end Holds

/-- Induction over values, where what is shown of a list or a record is known of its parts. -/
theorem ind {P : Value → Prop} (null : P .null) (bool : ∀ b, P (.bool b)) (int : ∀ n, P (.int n))
    (real : ∀ x, P (.real x)) (text : ∀ s, P (.text s))
    (list : ∀ items, (∀ v ∈ items, P v) → P (.list items))
    (record : ∀ fields, (∀ f ∈ fields, P f.2) → P (.record fields)) (v : Value) : P v :=
  @Value.rec P (fun items => ∀ v ∈ items, P v) (fun fields => ∀ f ∈ fields, P f.2) (fun f => P f.2)
    null bool int real text list record
    (List.forall_mem_nil _) (fun _ _ hv hitems => List.forall_mem_cons.2 ⟨hv, hitems⟩)
    (List.forall_mem_nil _) (fun _ _ hf hfields => List.forall_mem_cons.2 ⟨hf, hfields⟩)
    (fun _ _ hv => hv) v

end Value

namespace Json

/-! ## Strings -/

/-- The digits of a number to base sixteen are hexadecimal digits. -/
theorem isHexDigit_of_mem_toDigits {n : Nat} {c : Char} (h : c ∈ Nat.toDigits 16 n) :
    isHexDigit c = true := by
  have hdigit : ∀ d < 16, isHexDigit d.digitChar = true := by decide
  induction n using Nat.strong_induction_on with
  | h n ih =>
    rcases Nat.lt_or_ge n 16 with hlt | hge
    · rw [Nat.toDigits_of_lt_base hlt] at h
      rw [List.mem_singleton.1 h]
      exact hdigit n hlt
    · rw [Nat.toDigits_of_base_le (by decide) hge] at h
      -- The digits of a sixteenth of the number come first, and then one more.
      rcases List.mem_append.1 h with h | h
      · exact ih (n / 16) (by omega) h
      · rw [List.mem_singleton.1 h]
        exact hdigit _ (Nat.mod_lt _ (by decide))

/-- Four digits are enough for a number below `16 ^ 4`. -/
theorem length_hexDigits {n : Nat} (h : n < 16 ^ 4) : (Quoted.hexDigits 4 n).length = 4 := by
  have hlength : (Nat.toDigits 16 n).length ≤ 4 :=
    (Nat.length_toDigits_le_iff (by decide) (by decide)).2 h
  rw [Quoted.hexDigits, List.length_append, List.length_replicate]
  exact Nat.sub_add_cancel hlength

/-- The zeros that fill a width are hexadecimal digits as well. -/
theorem isHexDigit_of_mem_hexDigits {k n : Nat} {c : Char} (h : c ∈ Quoted.hexDigits k n) :
    isHexDigit c = true := by
  rcases List.mem_append.1 h with h | h
  · rw [List.eq_of_mem_replicate h]
    decide
  · exact isHexDigit_of_mem_toDigits h

/-- A character is written as one of a string. -/
theorem isChar_escape (c : Char) : IsChar (escape c) := by
  unfold escape
  split_ifs with hquote hslash _ _ _ _ _ hcode
  iterate 7 exact .escaped (by decide)
  · exact .code (length_hexDigits (hcode.trans (by decide)))
      fun d hd => isHexDigit_of_mem_hexDigits hd
  · exact .plain (not_lt.1 hcode) hquote hslash

/-- A text is written as a string. -/
theorem isString_text (s : String) : IsString (text s).toList := by
  rw [text, String.toList_ofList, List.flatMap_def]
  refine .mk fun u hu => ?_
  obtain ⟨c, -, rfl⟩ := List.mem_map.1 hu
  exact isChar_escape c

/-! ## Blocks -/

/-- A line end and an indentation are blanks. -/
theorem blanks_newline (level : Nat) : Blanks (newline level).toList := by
  rw [newline, String.toList_ofList]
  refine List.forall_mem_cons.2 ⟨by decide, fun c hc => ?_⟩
  rw [List.eq_of_mem_replicate hc]
  exact List.mem_cons_self

/-- Texts with a comma and blanks between them and blanks around them, cut at the commas. -/
theorem exists_separated {P : Text → Prop} {w w' : Text} (hw' : Blanks w') {ts : List Text}
    (hne : ts ≠ []) (h : ∀ t ∈ ts, ∀ e, Blanks e → P (w ++ t ++ e)) :
    ∃ us, us ≠ [] ∧ (∀ u ∈ us, P u) ∧
      w ++ (',' :: w).intercalate ts ++ w' = [','].intercalate us := by
  induction ts with
  | nil => exact absurd rfl hne
  | cons t ts ih =>
    obtain ⟨ht, hrest⟩ := List.forall_mem_cons.1 h
    cases ts with
    -- The last text takes the blanks behind it, the others only those in front of them.
    | nil => exact ⟨[w ++ t ++ w'], by simp, List.forall_mem_singleton.2 (ht w' hw'), by simp⟩
    | cons t' ts =>
      obtain ⟨us, hus, hall, htext⟩ := ih (List.cons_ne_nil _ _) hrest
      have hfirst : P (w ++ t) := by simpa using ht [] (List.forall_mem_nil _)
      -- This comma ends the first text, and the blanks after it belong to the next one.
      refine ⟨(w ++ t) :: us, by simp, List.forall_mem_cons.2 ⟨hfirst, hall⟩, ?_⟩
      rw [List.intercalate_cons_of_ne_nil hus, ← htext]
      simp

section Block

variable {left right : String} {level : Nat} {items : List String}

/-- A block without items is on one line. -/
theorem toList_block_nil : (block left right level []).toList = left.toList ++ right.toList := by
  simp [block]

/-- A block with items has a line for each of them. -/
theorem toList_block (h : items ≠ []) : (block left right level items).toList =
    left.toList ++ ((newline (level + 1)).toList ++
      (',' :: (newline (level + 1)).toList).intercalate (items.map String.toList) ++
        (newline level).toList) ++ right.toList := by
  rw [block, if_neg (by simpa using h)]
  simp

/-- A block of closed items is closed, and it is quiet if they are. -/
theorem quiet_block_iff (left right : String) (level : Nat) (hleft : Quiet left.toList)
    (hright : Quiet right.toList) (h : ∀ i ∈ items, Closed i.toList) :
    Closed (block left right level items).toList ∧
      (Quiet (block left right level items).toList ↔ ∀ i ∈ items, Quiet i.toList) := by
  have hitems : ∀ t ∈ items.map String.toList, Closed t := by simpa using h
  have houter := (blanks_newline level).quiet
  have hinner := (blanks_newline (level + 1)).quiet
  have hcomma : Quiet (',' :: (newline (level + 1)).toList) :=
    Quiet.append (t := [',']) (.of_all (by decide)) hinner
  have hlines : Closed ((',' :: (newline (level + 1)).toList).intercalate
      (items.map String.toList)) := hcomma.1.intercalate hitems
  by_cases hne : items = []
  · subst hne
    rw [toList_block_nil]
    have hboth := hleft.append hright
    exact ⟨hboth.1, fun _ => List.forall_mem_nil _, fun _ => hboth⟩
  · have hbody := (hinner.1.append hlines).append houter.1
    rw [toList_block hne]
    refine ⟨(hleft.1.append hbody).append hright.1, ?_⟩
    -- The brackets, the commas and the line ends are quiet, so only the items are left to say.
    rw [Quiet.append_iff (hleft.1.append hbody) hright.1, Quiet.append_iff hleft.1 hbody,
      Quiet.append_iff (hinner.1.append hlines) houter.1, Quiet.append_iff hinner.1 hlines,
      Quiet.intercalate_iff hcomma hitems]
    simp [hleft, hright, hinner, houter]

/-- The items of a block are separated by commas, with blanks around them. -/
theorem exists_items {P : Text → Prop} (hne : items ≠ [])
    (h : ∀ i ∈ items, ∀ e, Blanks e → P ((newline (level + 1)).toList ++ i.toList ++ e)) :
    ∃ us, us ≠ [] ∧ (∀ u ∈ us, P u) ∧
      (block left right level items).toList =
        left.toList ++ [','].intercalate us ++ right.toList := by
  obtain ⟨us, hus, hall, htext⟩ := exists_separated (blanks_newline level)
    (mt List.map_eq_nil_iff.1 hne) (List.forall_mem_map.2 h)
  exact ⟨us, hus, hall, by rw [toList_block hne, htext]⟩

/-- A block of values is an array. -/
theorem isValue_array (h : ∀ i ∈ items, IsValue i.toList) :
    IsValue (block "[" "]" level items).toList := by
  by_cases hne : items = []
  · subst hne
    rw [toList_block_nil]
    exact .emptyArray (List.forall_mem_nil _)
  · obtain ⟨us, hus, hitems, htext⟩ := exists_items hne fun i hi e he =>
      IsItem.mk (blanks_newline (level + 1)) (h i hi) he
    rw [htext]
    exact .array hus hitems

/-- A block of names with values is an object. -/
theorem isValue_object (h : ∀ i ∈ items, ∃ k v, text k ++ ": " ++ v = i ∧ IsValue v.toList) :
    IsValue (block "\x7b" "\x7d" level items).toList := by
  by_cases hne : items = []
  · subst hne
    rw [toList_block_nil]
    exact .emptyObject (List.forall_mem_nil _)
  · have hspace : Blanks [' '] := by simp [Blanks]
    -- A name is a string with nothing around it, then a colon and a space before the value.
    have hmember : ∀ i ∈ items, ∀ e, Blanks e →
        IsMember ((newline (level + 1)).toList ++ i.toList ++ e) := by
      intro i hi e he
      obtain ⟨k, v, rfl, hv⟩ := h i hi
      simpa using IsMember.mk (blanks_newline (level + 1)) (isString_text k)
        (List.forall_mem_nil _) (IsItem.mk hspace hv he)
    obtain ⟨us, hus, hmembers, htext⟩ := exists_items hne hmember
    rw [htext]
    exact .object hus hmembers

/-- A name before a text changes nothing outside of its string. -/
theorem quiet_member_iff (k : String) {v : String} (h : Closed v.toList) :
    Closed (text k ++ ": " ++ v).toList ∧
      (Quiet (text k ++ ": " ++ v).toList ↔ Quiet v.toList) := by
  have hname : Quiet (text k ++ ": ").toList := by
    rw [String.toList_append]
    exact (isString_text k).quiet.append (.of_all (by decide))
  rw [String.toList_append]
  exact ⟨hname.1.append h, (Quiet.append_iff hname.1 h).trans (and_iff_right hname)⟩

end Block

/-! ## Values -/

/-- The lines of a list are those of its items. -/
theorem itemLines_eq_map (level : Nat) (items : List Value) :
    itemLines level items = items.map (lines level) := by
  induction items with
  | nil => rfl
  | cons v items ih => rw [itemLines, ih, List.map_cons]

/-- The lines of a record are those of its values, each after its name. -/
theorem fieldLines_eq_map (level : Nat) (fields : List (String × Value)) :
    fieldLines level fields = fields.map fun f => text f.1 ++ ": " ++ lines level f.2 := by
  induction fields with
  | nil => rfl
  | cons f fields ih => rw [fieldLines, ih, List.map_cons]

/-- A value without doubles that are not finite is written as one of the grammar. -/
theorem isValue_lines {v : Value} (h : ∀ x, v.Holds x → isFinite x = true) (level : Nat) :
    IsValue (lines level v).toList := by
  induction v using Value.ind generalizing level with
  | null => rw [lines]; exact .null
  | bool b =>
    cases b with
    | false => rw [lines]; exact .false
    | true => rw [lines]; exact .true
  | int n => rw [lines]; exact .numeral (isNumeral_toString n)
  | real x => rw [lines]; exact .numeral (isNumeral_number (h x .real))
  | text s => rw [lines]; exact .string (isString_text s)
  | list items ih =>
    rw [Value.forall_holds_list] at h
    rw [lines, itemLines_eq_map]
    exact isValue_array (List.forall_mem_map.2 fun v hv => ih v hv (h v hv) (level + 1))
  | record fields ih =>
    rw [Value.forall_holds_record] at h
    rw [lines, fieldLines_eq_map]
    exact isValue_object <| List.forall_mem_map.2 fun f hf =>
      ⟨f.1, _, rfl, ih f hf (h f hf) (level + 1)⟩

/-- The strings of a value end in it, and it is quiet if the doubles in it are finite. -/
theorem quiet_lines_iff (v : Value) (level : Nat) : Closed (lines level v).toList ∧
    (Quiet (lines level v).toList ↔ ∀ x, v.Holds x → isFinite x = true) := by
  -- One without such doubles is of the grammar, and that is quiet.
  have hvalue {v : Value} (h : ∀ x, v.Holds x → isFinite x = true) (level : Nat) :
      Closed (lines level v).toList ∧
        (Quiet (lines level v).toList ↔ ∀ x, v.Holds x → isFinite x = true) := by
    have hquiet := (isValue_lines h level).quiet
    exact ⟨hquiet.1, fun _ => h, fun _ => hquiet⟩
  induction v using Value.ind generalizing level with
  | null | bool | int | text => exact hvalue (fun x hx => by cases hx) level
  | real x =>
    by_cases hx : isFinite x = true
    · exact hvalue (by simpa using hx) level
    · rw [lines]
      obtain ⟨hclosed, hquiet⟩ := not_quiet_number hx
      exact ⟨hclosed, fun h => absurd h hquiet, fun h => absurd (h x .real) hx⟩
  | list items ih =>
    -- The items are closed whatever doubles they hold, and the block is quiet if they all are.
    obtain ⟨hclosed, hiff⟩ := quiet_block_iff "[" "]" level (.of_all (by decide))
      (.of_all (by decide)) (List.forall_mem_map.2 fun v hv => (ih v hv (level + 1)).1)
    rw [lines, itemLines_eq_map, Value.forall_holds_list]
    refine ⟨hclosed, hiff.trans ?_⟩
    rw [List.forall_mem_map]
    exact forall₂_congr fun v hv => (ih v hv (level + 1)).2
  | record fields ih =>
    have hfield (f : String × Value) (hf : f ∈ fields) :=
      quiet_member_iff f.1 (ih f hf (level + 1)).1
    obtain ⟨hclosed, hiff⟩ := quiet_block_iff "\x7b" "\x7d" level (.of_all (by decide))
      (.of_all (by decide)) (List.forall_mem_map.2 fun f hf => (hfield f hf).1)
    rw [lines, fieldLines_eq_map, Value.forall_holds_record]
    refine ⟨hclosed, hiff.trans ?_⟩
    rw [List.forall_mem_map]
    exact forall₂_congr fun f hf => (hfield f hf).2.trans (ih f hf (level + 1)).2

/-- A record is printed as a document if and only if every double in it is finite. -/
theorem isDocument_printed_iff (fields : List (String × Value)) :
    IsDocument (Report.printed .json fields).toList ↔
      ∀ x, (Value.record fields).Holds x → isFinite x = true := by
  have hend : Blanks ['\n'] := by simp [Blanks]
  obtain ⟨hclosed, hiff⟩ := quiet_lines_iff (.record fields) 0
  rw [Report.printed, String.toList_append]
  -- A document is quiet, which the line end after the value does not change.
  refine ⟨fun h => hiff.1 ?_, fun h => ?_⟩
  · exact ((Quiet.append_iff hclosed hend.quiet.1).1 h.quiet).1
  · exact IsItem.mk (List.forall_mem_nil _) (isValue_lines h 0) hend

end Json

end FormulaPlot
