import LuaLex.Json
import LuaLex.Proofs.OnText
import LuaLex.Proofs.ReadBack

/-!
# Reading JSON

A reader for JSON texts that are made of strings, counts, lists and records. It takes all that the
standard allows in them: blanks around every part, and every form of a character in a string, also
those that the compact form never uses. It refuses what the standard refuses: controls that stand
for themselves, zeros in front of a number, halves of surrogate pairs, and anything behind the
value.

* `Json.induct`: induction over values.
* `Json.read?`: the value of a text.
* `Json.printable_chars`: the compact form holds no control, so it stands on one line.
* `Json.readValue_chars`, `Json.read?_render`: the compact form of a value is read back as that
  value.
-/

namespace LuaLex.Json

/-- Induction over values: lists by their items, records by their fields. -/
@[elab_as_elim]
theorem induct {P : Json → Prop} (text : ∀ s, P (.text s)) (count : ∀ n, P (.count n))
    (list : ∀ items, (∀ value ∈ items, P value) → P (.list items))
    (record : ∀ fields, (∀ field ∈ fields, P field.2) → P (.record fields)) (value : Json) :
    P value := by
  cases value with
  | text s => exact text s
  | count n => exact count n
  | list items => exact list items fun value _ => induct text count list record value
  | record fields => exact record fields fun field _ => induct text count list record field.2
termination_by sizeOf value
decreasing_by
  · have hmem := List.sizeOf_lt_of_mem ‹value ∈ items›
    simp only [Json.list.sizeOf_spec]
    omega
  · have hmem := List.sizeOf_lt_of_mem ‹field ∈ fields›
    have hfield : sizeOf field = 1 + sizeOf field.1 + sizeOf field.2 := rfl
    simp only [Json.record.sizeOf_spec]
    omega

/-! ## The compact form -/

/-- Pieces with commas between them. -/
def joined {α : Type} (write : α → List Char) : List α → List Char
  | [] => []
  | a :: as => write a ++ as.flatMap fun b => ',' :: write b

/-- The compact form of a field. -/
def pair (field : String × Json) : List Char := quote field.1 ++ ':' :: chars field.2

theorem itemChars_eq (items : List Json) : itemChars items = joined chars items := by
  induction items with
  | nil => rfl
  | cons item items ih =>
    cases items with
    | nil => simp [itemChars, joined]
    | cons next rest =>
      rw [itemChars, ih]
      rfl

theorem fieldChars_eq (fields : List (String × Json)) : fieldChars fields = joined pair fields := by
  induction fields with
  | nil => rfl
  | cons field fields ih =>
    cases fields with
    | nil => simp [fieldChars, joined, pair]
    | cons next rest =>
      rw [fieldChars, ih]
      simp [joined, pair]

theorem chars_list (items : List Json) :
    chars (.list items) = '[' :: (joined chars items ++ [']']) := by
  rw [chars, itemChars_eq, List.cons_append]

theorem chars_record (fields : List (String × Json)) :
    chars (.record fields) = '{' :: (joined pair fields ++ ['}']) := by
  rw [chars, fieldChars_eq, List.cons_append]

section Joined

variable {α : Type} {write : α → List Char} {a : α} {as : List α}

theorem mem_joined {c : Char} (h : c ∈ joined write as) : c = ',' ∨ ∃ a ∈ as, c ∈ write a := by
  cases as with
  | nil => cases h
  | cons a as =>
    rcases List.mem_append.mp h with h | h
    · exact Or.inr ⟨a, List.mem_cons_self, h⟩
    · obtain ⟨b, hb, h⟩ := List.mem_flatMap.mp h
      rcases List.mem_cons.mp h with h | h
      · exact Or.inl h
      · exact Or.inr ⟨b, List.mem_cons_of_mem a hb, h⟩

theorem length_le_joined (h : a ∈ as) : (write a).length ≤ (joined write as).length := by
  cases as with
  | nil => cases h
  | cons b as =>
    rw [joined, List.length_append]
    rcases List.mem_cons.mp h with rfl | h
    · exact Nat.le_add_right _ _
    · obtain ⟨front, back, rfl⟩ := List.append_of_mem h
      rw [List.flatMap_append, List.flatMap_cons, List.length_append, List.length_append,
        List.length_cons]
      omega

end Joined

/-! ## No controls -/

/-- A character that is no control. -/
def Printable (c : Char) : Prop := 0x20 ≤ c.toNat

instance (c : Char) : Decidable (Printable c) := inferInstanceAs (Decidable (0x20 ≤ c.toNat))

theorem printable_hexDigit {d : Nat} (h : d < 16) : Printable (hexDigit d) := by
  have hall : ∀ d < 16, Printable (hexDigit d) := by decide
  exact hall d h

theorem printable_escape (c : Char) : ∀ x ∈ escape c, Printable x := by
  have hcontrol : c.toNat < 0x20 → Printable (hexDigit (c.toNat / 16)) ∧
      Printable (hexDigit (c.toNat % 16)) := fun h =>
    ⟨printable_hexDigit (by omega), printable_hexDigit (by omega)⟩
  unfold escape
  repeat' split
  all_goals
    simp only [List.forall_mem_cons, List.not_mem_nil, false_implies, implies_true, and_true]
  case h_8.isTrue h => exact ⟨by decide, by decide, by decide, by decide, hcontrol h⟩
  case h_8.isFalse h => exact Nat.le_of_not_lt h
  all_goals decide

theorem printable_quote (s : String) : ∀ x ∈ quote s, Printable x := by
  intro x hx
  rcases List.mem_append.mp hx with hx | hx
  · rcases List.mem_cons.mp hx with rfl | hx
    · decide
    · obtain ⟨c, -, hx⟩ := List.mem_flatMap.mp hx
      exact printable_escape c x hx
  · rw [List.mem_singleton.mp hx]
    decide

theorem printable_joined {α : Type} {write : α → List Char} {as : List α} {first last : Char}
    (hfirst : Printable first) (hlast : Printable last)
    (h : ∀ a ∈ as, ∀ x ∈ write a, Printable x) :
    ∀ x ∈ first :: (joined write as ++ [last]), Printable x := by
  intro x hx
  rcases List.mem_cons.mp hx with rfl | hx
  · exact hfirst
  rcases List.mem_append.mp hx with hx | hx
  · rcases mem_joined hx with rfl | ⟨a, ha, hx⟩
    · decide
    · exact h a ha x hx
  · rw [List.mem_singleton.mp hx]
    exact hlast

/-- **No control stands in the compact form** of a value. -/
theorem printable_chars (value : Json) : ∀ x ∈ value.chars, Printable x := by
  induction value using induct with
  | text s => exact printable_quote s
  | count n =>
    intro x hx
    have hrange := Char.isDigit_iff_toNat.mp (isDigit_toDigits n x hx)
    exact Nat.le_trans (by decide) hrange.1
  | list items ih =>
    rw [chars_list]
    exact printable_joined (by decide) (by decide) ih
  | record fields ih =>
    rw [chars_record]
    refine printable_joined (by decide) (by decide) fun field hfield x hx => ?_
    rcases List.mem_append.mp hx with hx | hx
    · exact printable_quote field.1 x hx
    · rcases List.mem_cons.mp hx with rfl | hx
      · decide
      · exact ih field hfield x hx

/-! ## The reader -/

/-- Skips blanks: spaces, tabs and line ends. -/
def skipBlanks (cs : List Char) : List Char :=
  cs.dropWhile fun c => c == ' ' || c == '\t' || c == '\n' || c == '\r'

/-- Reads four hexadecimal digits. -/
def readUnit : List Char → Option (Nat × List Char)
  | a :: b :: c :: d :: rest => (hexNumber? [a, b, c, d]).map (·, rest)
  | _ => none

/-- Reads the character that an escape by code units stands for. The first half of a surrogate pair
has to be followed by the second one. -/
def readUnits (cs : List Char) : Option (Char × List Char) := do
  let (unit, rest) ← readUnit cs
  if 0xd800 ≤ unit ∧ unit < 0xdc00 then
    match rest with
    | '\\' :: 'u' :: rest =>
      let (second, rest) ← readUnit rest
      if 0xdc00 ≤ second ∧ second < 0xe000 then
        let c ← charOf? (0x10000 + 0x400 * (unit - 0xd800) + (second - 0xdc00))
        return (c, rest)
      else none
    | _ => none
  else
    let c ← charOf? unit
    return (c, rest)

/-- Reads which character is meant behind a backslash. -/
def readNamed : List Char → Option (Char × List Char)
  | '"' :: rest => some ('"', rest)
  | '\\' :: rest => some ('\\', rest)
  | '/' :: rest => some ('/', rest)
  | 'b' :: rest => some ('\x08', rest)
  | 'f' :: rest => some ('\x0c', rest)
  | 'n' :: rest => some ('\n', rest)
  | 'r' :: rest => some ('\r', rest)
  | 't' :: rest => some ('\t', rest)
  | 'u' :: rest => readUnits rest
  | _ => none

/-- Reads a string, in which controls do not stand for themselves. -/
def readString (cs : List Char) : Option (String × List Char) :=
  readQuoted readNamed (fun c => decide (Printable c)) cs

/-- Reads a count, which has no zeros in front. -/
def readCount (cs : List Char) : Option (Nat × List Char) :=
  let digits := cs.takeWhile Char.isDigit
  if digits = [] ∨ digits.head? = some '0' ∧ digits ≠ ['0'] then none
  else some (Nat.ofDigitChars 10 digits 0, cs.dropWhile Char.isDigit)

section Separated

variable {α : Type} (close : Char) (read : List Char → Option (α × List Char))

/-- Reads a comma with a piece behind it, or the bracket that closes. -/
def separatedStep (cs : List Char) : Option (Option α × List Char) :=
  match skipBlanks cs with
  | [] => none
  | c :: rest =>
    if c = ',' then (read rest).map (Prod.map some id)
    else if c = close then some (none, rest)
    else none

/-- Reads pieces with commas between them and the bracket that closes. -/
def readSeparated (cs : List Char) : Option (List α × List Char) :=
  match read cs with
  -- a comma stands in front of every piece but the first
  | some (a, rest) => (gather (separatedStep close read) rest).map (Prod.map (a :: ·) id)
  | none => if (skipBlanks cs).head? = some close then some ([], (skipBlanks cs).tail) else none

end Separated

/-- Reads a name and, behind a colon, its value. -/
def readField (read : List Char → Option (Json × List Char)) (cs : List Char) :
    Option ((String × Json) × List Char) := do
  let (name, rest) ← readString (skipBlanks cs)
  match skipBlanks rest with
  | ':' :: rest => (read rest).map (Prod.map (name, ·) id)
  | _ => none

/-- Reads a value in which values are nested no deeper than `depth`. -/
def readValue : Nat → List Char → Option (Json × List Char)
  | 0, _ => none
  | depth + 1, cs =>
    match skipBlanks cs with
    | [] => none
    | c :: rest =>
      if c = '"' then (readString (c :: rest)).map (Prod.map text id)
      else if c = '[' then (readSeparated ']' (readValue depth) rest).map (Prod.map list id)
      else if c = '{' then
        (readSeparated '}' (readField (readValue depth)) rest).map (Prod.map record id)
      else (readCount (c :: rest)).map (Prod.map count id)

/-- The value of a text. Values are nested no deeper than the text is long. -/
def read? (s : String) : Option Json := do
  let (value, rest) ← readValue s.toList.length s.toList
  if skipBlanks rest = [] then return value else none

/-! ## Strings and counts -/

theorem skipBlanks_of_not {c : Char} (cs : List Char)
    (h : (c == ' ' || c == '\t' || c == '\n' || c == '\r') = false) :
    skipBlanks (c :: cs) = c :: cs := by
  rw [skipBlanks, List.dropWhile_cons, if_neg (by simpa using h)]

theorem readUnit_eq {a b c d : Char} {n : Nat} (h : hexNumber? [a, b, c, d] = some n)
    (rest : List Char) : readUnit (a :: b :: c :: d :: rest) = some (n, rest) := by
  rw [readUnit, h]
  rfl

/-- A control by its code. -/
theorem readNamed_control {c : Char} (h : c.toNat < 0x20) (rest : List Char) :
    readNamed (['u', '0', '0', hexDigit (c.toNat / 16), hexDigit (c.toNat % 16)] ++ rest) =
      some (c, rest) := by
  -- the two digits are appended to the two zeros one after the other
  have hzeros : hexNumber? ['0', '0'] = some 0 := by decide
  have hhigh := hexNumber?_concat hzeros (show c.toNat / 16 < 16 by omega)
  have hlow := hexNumber?_concat hhigh (Nat.mod_lt c.toNat (by decide : 0 < 16))
  rw [Nat.mul_zero, Nat.zero_add, Nat.div_add_mod] at hlow
  have hunit : readUnit ('0' :: '0' :: hexDigit (c.toNat / 16) :: hexDigit (c.toNat % 16) :: rest) =
      some (c.toNat, rest) := readUnit_eq hlow rest
  have hplain : ¬(0xd800 ≤ c.toNat ∧ c.toNat < 0xdc00) := by omega
  change readUnits ('0' :: '0' :: hexDigit (c.toNat / 16) :: hexDigit (c.toNat % 16) :: rest) = _
  rw [readUnits, hunit, Option.bind_eq_bind, Option.bind_some]
  simp only
  rw [if_neg hplain, charOf?_toNat]
  rfl

theorem written_escape (c : Char) :
    Written readNamed (fun c => decide (Printable c)) c (escape c) := by
  unfold escape
  repeat' split
  case h_8.isTrue h => exact .escaped (readNamed_control h)
  case h_8.isFalse hquote hslash _ _ _ _ _ h =>
    exact .verbatim hquote hslash (decide_eq_true (Nat.le_of_not_lt h))
  all_goals exact .escaped fun _ => rfl

theorem readString_quote (s : String) (rest : List Char) :
    readString (quote s ++ rest) = some (s, rest) := by
  have htext : quote s ++ rest = '"' :: (s.toList.flatMap escape ++ '"' :: rest) := by
    simp [quote]
  rw [htext]
  exact readQuoted_of_written written_escape s rest

/-- No digit follows. -/
def Ends (cs : List Char) : Prop := ∀ c, cs.head? = some c → c.isDigit = false

theorem ends_cons {c : Char} {cs : List Char} (h : c.isDigit = false) : Ends (c :: cs) := by
  intro x hx
  rwa [← Option.some.inj hx]

/-- No zero stands in front of a number. -/
theorem head?_toDigits {n : Nat} (h : 0 < n) : (Nat.toDigits 10 n).head? ≠ some '0' := by
  induction n using Nat.strongRecOn with
  | ind n ih =>
    rw [Nat.toDigits_eq_if (by decide)]
    split
    · rename_i hn
      have hall : ∀ n < 10, 0 < n → n.digitChar ≠ '0' := by decide
      intro hhead
      exact hall n hn h (Option.some.inj hhead)
    · have hfront := ih (n / 10) (by omega) (by omega)
      cases hdigits : Nat.toDigits 10 (n / 10) with
      | nil => exact absurd hdigits Nat.toDigits_ne_nil
      | cons c cs => rwa [hdigits] at hfront

theorem readCount_toDigits (n : Nat) {rest : List Char} (h : Ends rest) :
    readCount (Nat.toDigits 10 n ++ rest) = some (n, rest) := by
  obtain ⟨htake, hdrop⟩ := Scan.takeWhile_run (isDigit_toDigits n) h
  have hform : ¬(Nat.toDigits 10 n = [] ∨
      (Nat.toDigits 10 n).head? = some '0' ∧ Nat.toDigits 10 n ≠ ['0']) := by
    rintro (hnil | ⟨hzero, hmore⟩)
    · exact Nat.toDigits_ne_nil hnil
    · rcases Nat.eq_zero_or_pos n with rfl | hn
      · exact hmore rfl
      · exact head?_toDigits hn hzero
  simp only [readCount, htake, hdrop]
  rw [if_neg hform, Nat.ofDigitChars_ten_toDigits]

/-! ## Lists and records -/

section Separated

variable {α : Type} {close : Char} {read : List Char → Option (α × List Char)}
  {write : α → List Char} {as : List α}

/-- A bracket that can close a list. -/
structure Closing (close : Char) (read : List Char → Option (α × List Char)) : Prop where
  ends : close.isDigit = false
  skip : ∀ cs, skipBlanks (close :: cs) = close :: cs
  ne_comma : close ≠ ','
  no_piece : ∀ cs, read (close :: cs) = none

/-- **Pieces between brackets are read back** if each piece is. -/
theorem readSeparated_joined (hclose : Closing close read)
    (hread : ∀ a ∈ as, ∀ cs, Ends cs → read (write a ++ cs) = some (a, cs)) (rest : List Char) :
    readSeparated close read (joined write as ++ close :: rest) = some (as, rest) := by
  cases as with
  | nil =>
    rw [joined, List.nil_append, readSeparated, hclose.no_piece]
    simp [hclose.skip]
  | cons a as =>
    have hcomma : ∀ cs, Ends (',' :: cs) := fun cs => ends_cons (by decide)
    have hstep : ∀ b ∈ as, ∀ cs, Ends cs →
        separatedStep close read (',' :: write b ++ cs) = some (some b, cs) := by
      intro b hb cs hcs
      have hpiece := hread b (List.mem_cons_of_mem a hb) cs hcs
      rw [List.cons_append, separatedStep, skipBlanks_of_not _ (by decide)]
      simp [hpiece]
    have hstop : separatedStep close read (close :: rest) = some (none, rest) := by
      rw [separatedStep, hclose.skip]
      simp [hclose.ne_comma]
    have hmore := gather_flatMap Ends (fun _ => List.cons_ne_nil _ _) (fun _ _ => hcomma _)
      (ends_cons hclose.ends) hstep hstop
    have hbehind : Ends ((as.flatMap fun b => ',' :: write b) ++ close :: rest) := by
      cases as with
      | nil => exact ends_cons hclose.ends
      | cons b as => exact hcomma _
    rw [joined, List.append_assoc, readSeparated, hread a List.mem_cons_self _ hbehind]
    simp only
    rw [hmore]
    rfl

end Separated

theorem readField_pair {read : List Char → Option (Json × List Char)} {field : String × Json}
    {rest : List Char} (h : read (chars field.2 ++ rest) = some (field.2, rest)) :
    readField read (pair field ++ rest) = some (field, rest) := by
  have hquote : skipBlanks (quote field.1 ++ ':' :: (chars field.2 ++ rest)) =
      quote field.1 ++ ':' :: (chars field.2 ++ rest) := skipBlanks_of_not _ (by decide)
  rw [pair, List.append_assoc, List.cons_append, readField, hquote, readString_quote,
    Option.bind_eq_bind, Option.bind_some]
  simp only
  rw [skipBlanks_of_not _ (by decide)]
  simp only
  rw [h]
  rfl

/-! ## Values -/

theorem readValue_text (depth : Nat) (s : String) (rest : List Char) :
    readValue (depth + 1) (quote s ++ rest) = some (text s, rest) := by
  have hread := readString_quote s rest
  rw [quote, List.cons_append, List.cons_append] at hread
  rw [quote, List.cons_append, List.cons_append, readValue, skipBlanks_of_not _ (by decide)]
  simp only [if_true]
  rw [hread]
  rfl

theorem readValue_bracket (depth : Nat) (cs : List Char) :
    readValue (depth + 1) ('[' :: cs) =
      (readSeparated ']' (readValue depth) cs).map (Prod.map list id) := by
  rw [readValue, skipBlanks_of_not _ (by decide)]
  rfl

theorem readValue_brace (depth : Nat) (cs : List Char) :
    readValue (depth + 1) ('{' :: cs) =
      (readSeparated '}' (readField (readValue depth)) cs).map (Prod.map record id) := by
  rw [readValue, skipBlanks_of_not _ (by decide)]
  rfl

theorem readValue_count (depth n : Nat) {rest : List Char} (h : Ends rest) :
    readValue (depth + 1) (Nat.toDigits 10 n ++ rest) = some (count n, rest) := by
  have hread := readCount_toDigits n h
  have hdigit := isDigit_toDigits n
  cases hdigits : Nat.toDigits 10 n with
  | nil => exact absurd hdigits Nat.toDigits_ne_nil
  | cons c cs =>
    rw [hdigits, List.cons_append] at hread
    rw [hdigits] at hdigit
    have hne : ∀ x : Char, x.isDigit = false → c ≠ x := fun x hx =>
      ne_of_isDigit (hdigit c List.mem_cons_self) hx
    have hblank : (c == ' ' || c == '\t' || c == '\n' || c == '\r') = false := by
      simp [hne ' ' (by decide), hne '\t' (by decide), hne '\n' (by decide), hne '\r' (by decide)]
    rw [List.cons_append, readValue, skipBlanks_of_not _ hblank]
    simp only
    rw [if_neg (hne _ (by decide)), if_neg (hne _ (by decide)), if_neg (hne _ (by decide)), hread]
    rfl

/-- No value begins with the bracket that closes a list. -/
theorem closing_list (depth : Nat) : Closing ']' (readValue depth) where
  ends := by decide
  skip _ := skipBlanks_of_not _ (by decide)
  ne_comma := by decide
  no_piece cs := by
    cases depth with
    | zero => rfl
    | succ depth =>
      rw [readValue, skipBlanks_of_not _ (by decide)]
      rfl

theorem closing_record (read : List Char → Option (Json × List Char)) :
    Closing '}' (readField read) where
  ends := by decide
  skip _ := skipBlanks_of_not _ (by decide)
  ne_comma := by decide
  no_piece cs := by
    rw [readField, skipBlanks_of_not _ (by decide)]
    rfl

/-- **The compact form is read back**, whatever follows it that does not go on with a number. -/
theorem readValue_chars (value : Json) (depth : Nat) (rest : List Char)
    (hdepth : value.chars.length ≤ depth) (hrest : Ends rest) :
    readValue depth (value.chars ++ rest) = some (value, rest) := by
  -- each value is shorter than the list or record it stands in, so `depth` is enough for it too
  induction value using induct generalizing depth rest with
  | text s =>
    cases depth with
    | zero => simp [chars, quote] at hdepth
    | succ depth =>
      rw [chars]
      exact readValue_text depth s rest
  | count n =>
    cases depth with
    | zero => exact absurd (List.length_eq_zero_iff.mp (Nat.le_zero.mp hdepth)) Nat.toDigits_ne_nil
    | succ depth =>
      rw [chars]
      exact readValue_count depth n hrest
  | list items ih =>
    rw [chars_list] at hdepth ⊢
    cases depth with
    | zero => simp at hdepth
    | succ depth =>
      have hitems : (joined chars items).length ≤ depth := by
        simp only [List.length_cons, List.length_append, List.length_nil] at hdepth
        omega
      rw [List.cons_append, List.append_assoc, List.singleton_append, readValue_bracket,
        readSeparated_joined (closing_list depth) fun item hitem cs hcs =>
          ih item hitem depth cs (Nat.le_trans (length_le_joined hitem) hitems) hcs]
      rfl
  | record fields ih =>
    rw [chars_record] at hdepth ⊢
    cases depth with
    | zero => simp at hdepth
    | succ depth =>
      have hfields : (joined pair fields).length ≤ depth := by
        simp only [List.length_cons, List.length_append, List.length_nil] at hdepth
        omega
      have hvalue : ∀ field ∈ fields, (chars field.2).length ≤ depth := fun field hfield => by
        have hpair := Nat.le_trans (length_le_joined hfield) hfields
        simp only [pair, List.length_append, List.length_cons] at hpair
        omega
      rw [List.cons_append, List.append_assoc, List.singleton_append, readValue_brace,
        readSeparated_joined (closing_record _) fun field hfield cs hcs =>
          readField_pair (ih field hfield depth cs (hvalue field hfield) hcs)]
      rfl

/-- **The text of a value is read back as that value.** -/
theorem read?_render (value : Json) : read? value.render = some value := by
  have hread := readValue_chars value value.chars.length [] (Nat.le_refl _) (fun _ h => by cases h)
  rw [List.append_nil] at hread
  rw [read?, render, String.toList_ofList, hread]
  rfl

end LuaLex.Json
