/-!
# Reading text back

Readers for what is written one piece behind the other: hexadecimal numbers, text between double
quotes with escapes, and the lines of a text. They know the form of what they read, and nothing
about the writer.

* `gather`, `gather_flatMap`: a step that is repeated until it ends, on pieces each of which it
  reads.
* `hexNumber?_toDigits`: a number by its digits.
* `Written`, `readQuoted_of_written`: text between quotes, however the writer chooses between the
  forms of a character.
* `linesOf_join`: the lines of a text.
-/

namespace LuaLex

/-! ## Steps -/

section Gather

variable {α : Type}

/-- Repeats a step from the beginning of a text on, until it ends, and gathers what it reads. A step
that reads something has to take something. -/
def gather (step : List Char → Option (Option α × List Char)) (cs : List Char) :
    Option (List α × List Char) :=
  match step cs with
  | none => none
  | some (none, rest) => some ([], rest)
  | some (some a, rest) =>
    if rest.length < cs.length then (gather step rest).map (Prod.map (a :: ·) id) else none
termination_by cs.length

variable {step : List Char → Option (Option α × List Char)} {cs w rest : List Char} {a : α}

theorem gather_stop (h : step cs = some (none, rest)) : gather step cs = some ([], rest) := by
  rw [gather, h]

theorem gather_again (h : step (w ++ rest) = some (some a, rest)) (hw : w ≠ []) :
    gather step (w ++ rest) = (gather step rest).map (Prod.map (a :: ·) id) := by
  have hlt : rest.length < (w ++ rest).length := by
    rw [List.length_append]
    exact Nat.lt_add_of_pos_left (List.length_pos_iff.mpr hw)
  rw [gather, h]
  simp only
  rw [if_pos hlt]

/-- **Pieces that a step reads one by one are gathered.** What the step needs to know of the text
behind a piece holds in front of every piece and at the end. -/
theorem gather_flatMap (Follows : List Char → Prop) {write : α → List Char} {as : List α}
    (hwrite : ∀ a, write a ≠ []) (hfollows : ∀ a cs, Follows (write a ++ cs)) (hend : Follows cs)
    (hstep : ∀ a ∈ as, ∀ cs, Follows cs → step (write a ++ cs) = some (some a, cs))
    (hstop : step cs = some (none, rest)) :
    gather step (as.flatMap write ++ cs) = some (as, rest) := by
  induction as with
  | nil => exact gather_stop hstop
  | cons a as ih =>
    -- behind a piece stands the next one, or the end
    have hbehind : Follows (as.flatMap write ++ cs) := by
      cases as with
      | nil => exact hend
      | cons b as =>
        rw [List.flatMap_cons, List.append_assoc]
        exact hfollows b _
    rw [List.flatMap_cons, List.append_assoc,
      gather_again (hstep a List.mem_cons_self _ hbehind) (hwrite a),
      ih fun b hb => hstep b (List.mem_cons_of_mem a hb)]
    rfl

end Gather

/-! ## Numbers -/

theorem isDigit_toDigits (n : Nat) : ∀ c ∈ Nat.toDigits 10 n, c.isDigit = true := fun _ hc =>
  Nat.isDigit_of_mem_toDigits (by decide) (by decide) hc

theorem ne_of_isDigit {c x : Char} (hc : c.isDigit = true) (hx : x.isDigit = false) : c ≠ x := by
  rintro rfl
  rw [hc] at hx
  cases hx

/-- The value of a hexadecimal digit, in lower or upper case. -/
def hexValue? (c : Char) : Option Nat :=
  if c.isDigit then some (c.toNat - '0'.toNat)
  else if 'a' ≤ c ∧ c ≤ 'f' then some (c.toNat - 'a'.toNat + 10)
  else if 'A' ≤ c ∧ c ≤ 'F' then some (c.toNat - 'A'.toNat + 10)
  else none

/-- The number with the given hexadecimal digits. -/
def hexNumber? (digits : List Char) : Option Nat :=
  digits.foldlM (fun n c => (hexValue? c).map (16 * n + ·)) 0

theorem hexValue?_digitChar {d : Nat} (h : d < 16) : hexValue? d.digitChar = some d := by
  have hall : ∀ d < 16, hexValue? d.digitChar = some d := by decide
  exact hall d h

/-- A further digit. -/
theorem hexNumber?_concat {digits : List Char} {n d : Nat} (h : hexNumber? digits = some n)
    (hd : d < 16) : hexNumber? (digits ++ [d.digitChar]) = some (16 * n + d) := by
  rw [hexNumber?] at h
  rw [hexNumber?, List.foldlM_append, h]
  simp [hexValue?_digitChar hd]

theorem hexNumber?_toDigits (n : Nat) : hexNumber? (Nat.toDigits 16 n) = some n := by
  induction n using Nat.strongRecOn with
  | ind n ih =>
    rw [Nat.toDigits_eq_if (by decide)]
    split
    · rename_i hn
      have hnil : hexNumber? [] = some 0 := rfl
      have hone := hexNumber?_concat hnil hn
      rwa [Nat.mul_zero, Nat.zero_add] at hone
    · have hmore := hexNumber?_concat (ih (n / 16) (by omega)) (Nat.mod_lt n (by decide))
      rwa [Nat.div_add_mod] at hmore

/-- The digits of a number have values. -/
theorem hexValue?_of_mem_toDigits {n : Nat} {c : Char} (h : c ∈ Nat.toDigits 16 n) :
    (hexValue? c).isSome := by
  induction n using Nat.strongRecOn with
  | ind n ih =>
    rw [Nat.toDigits_eq_if (by decide)] at h
    split at h
    · rename_i hn
      rw [List.mem_singleton.mp h, hexValue?_digitChar hn]
      rfl
    · rcases List.mem_append.mp h with h | h
      · exact ih (n / 16) (by omega) h
      · rw [List.mem_singleton.mp h, hexValue?_digitChar (Nat.mod_lt n (by decide))]
        rfl

/-- The character of a code point. -/
def charOf? (n : Nat) : Option Char := if n.isValidChar then some (Char.ofNat n) else none

theorem charOf?_toNat (c : Char) : charOf? c.toNat = some c := by
  rw [charOf?, if_pos (show c.toNat.isValidChar from c.valid), Char.ofNat_toNat]

/-! ## Text between quotes -/

section Quoted

variable (named : List Char → Option (Char × List Char)) (plain : Char → Bool)

/-- Reads one character of a text between double quotes, or the quote at its end. Behind a backslash
`named` reads which character is meant; others stand for themselves if they may. -/
def quotedStep : List Char → Option (Option Char × List Char)
  | [] => none
  | c :: rest =>
    if c = '"' then some (none, rest)
    else if c = '\\' then (named rest).map (Prod.map some id)
    else if plain c then some (some c, rest)
    else none

/-- Reads a text between double quotes. -/
def readQuoted : List Char → Option (String × List Char)
  | '"' :: rest => (gather (quotedStep named plain) rest).map (Prod.map String.ofList id)
  | _ => none

/-- The forms of a character between quotes. -/
inductive Written (c : Char) : List Char → Prop
  | verbatim : c ≠ '"' → c ≠ '\\' → plain c = true → Written c [c]
  | escaped {w : List Char} : (∀ rest, named (w ++ rest) = some (c, rest)) → Written c ('\\' :: w)

variable {named plain}

theorem Written.ne_nil {c : Char} {w : List Char} (h : Written named plain c w) : w ≠ [] := by
  cases h <;> exact List.cons_ne_nil _ _

theorem Written.quotedStep_eq {c : Char} {w : List Char} (h : Written named plain c w)
    (rest : List Char) : quotedStep named plain (w ++ rest) = some (some c, rest) := by
  cases h with
  | verbatim hquote hslash hplain =>
    rw [List.singleton_append, quotedStep, if_neg hquote, if_neg hslash, if_pos hplain]
  | escaped hnamed =>
    rw [List.cons_append, quotedStep, if_neg (by decide), if_pos rfl, hnamed]
    rfl

/-- **Text between quotes is read back**, whichever form each character is written in. -/
theorem readQuoted_of_written {write : Char → List Char} (h : ∀ c, Written named plain c (write c))
    (s : String) (rest : List Char) :
    readQuoted named plain ('"' :: (s.toList.flatMap write ++ '"' :: rest)) = some (s, rest) := by
  have hstop : quotedStep named plain ('"' :: rest) = some (none, rest) := by
    rw [quotedStep, if_pos rfl]
  have hgather : gather (quotedStep named plain) (s.toList.flatMap write ++ '"' :: rest) =
      some (s.toList, rest) :=
    gather_flatMap (fun _ => True) (fun c => (h c).ne_nil) (fun _ _ => trivial) trivial
      (fun c _ cs _ => (h c).quotedStep_eq cs) hstop
  rw [readQuoted, hgather, Option.map_some, Prod.map_apply, String.ofList_toList]
  rfl

end Quoted

/-! ## Lines -/

/-- The lines of a text, each of which ends in a line feed. -/
def linesOf (out : String) : List String :=
  (out.toList.splitOn '\n').dropLast.map String.ofList

/-- **Lines are found again** if no line feed stands in them. -/
theorem linesOf_join {lines : List String} (h : ∀ line ∈ lines, '\n' ∉ line.toList) :
    linesOf (String.join (lines.map (· ++ "\n"))) = lines := by
  -- an empty piece is left behind the last line feed
  have hsplit : (String.join (lines.map (· ++ "\n"))).toList.splitOn '\n' =
      lines.map String.toList ++ [[]] := by
    induction lines with
    | nil => exact List.splitOn_eq_singleton (List.not_mem_nil)
    | cons line lines ih =>
      have hline := h line List.mem_cons_self
      rw [List.map_cons, String.join_cons, String.toList_append, String.toList_append,
        List.append_assoc, show "\n".toList = ['\n'] from rfl,
        List.singleton_append,
        List.splitOn_append_cons_self_of_not_mem hline,
        ih fun line hline => h line (List.mem_cons_of_mem _ hline)]
      rfl
  rw [linesOf, hsplit, List.dropLast_concat, List.map_map]
  have hid : String.ofList ∘ String.toList = id := funext fun s => String.ofList_toList
  rw [hid, List.map_id]

/-- A reader that finds something in every piece finds it in all of them. -/
theorem mapM_map_of_forall {α β γ : Type} (f : α → γ) {read : β → Option γ} {write : α → β}
    (h : ∀ a, read (write a) = some (f a)) (as : List α) :
    (as.map write).mapM read = some (as.map f) := by
  have hsome : read ∘ write = fun a => pure (f a) := funext h
  rw [List.mapM_map, hsome, List.mapM_pure]
  rfl

end LuaLex
