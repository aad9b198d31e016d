import LuaLex.Proofs.LineTable

/-!
# The lines of a file make up its text

A file has found in its bytes where its lines begin, and a line is cut out up to the beginning of
the next one and then loses the line break characters at its end. No cut goes through a character,
and nothing else gets lost: what is taken off is one line ending, since a line itself has no line
break character.

* `Lines cs lines endings`: the text `cs` is its lines with an ending between any two. Every text is
  (`exists_lines`), and there is one line more than there are line breaks (`Lines.length_eq`).
* `Lines.exists_split`: where a line stands in the text, and what ends it.
* `lines_partition_text`: the lines of a text are the ones its file hands out.
-/

namespace LuaLex

/-- What ends a line in front of a rest. -/
inductive LineEnding : List Char → List Char → Prop where
  | feed (rest : List Char) : LineEnding ['\n'] rest
  | pair (rest : List Char) : LineEnding ['\r', '\n'] rest
  /-- A carriage return ends a line alone only if it is not one half of a pair. -/
  | lone {rest : List Char} : rest.head? ≠ some '\n' → LineEnding ['\r'] rest

/-- A text without line break characters. -/
def Unbroken (line : List Char) : Prop := ∀ c ∈ line, CharClass.isLineEnd c = false

/-- A text is its lines with an ending between any two of them. -/
inductive Lines : List Char → List (List Char) → List (List Char) → Prop where
  | last {line : List Char} : Unbroken line → Lines line [line] []
  | more {line ending rest : List Char} {lines endings : List (List Char)} :
      Unbroken line → LineEnding ending rest → Lines rest lines endings →
      Lines (line ++ (ending ++ rest)) (line :: lines) (ending :: endings)

/-! ## Endings -/

namespace LineEnding

variable {ending rest : List Char}

theorem isLineEnd (h : LineEnding ending rest) : ∀ c ∈ ending, CharClass.isLineEnd c = true := by
  cases h with
  | feed => simp [CharClass.isLineEnd]
  | pair => simp [CharClass.isLineEnd]
  | lone => simp [CharClass.isLineEnd]

/-- Behind an ending a line begins. -/
theorem lineStart (h : LineEnding ending rest) (v : List Char) : LineStart (v ++ ending) rest := by
  cases h with
  | feed => exact Or.inr ⟨v, '\n', rfl, rfl⟩
  | pair => exact Or.inr ⟨v ++ ['\r'], '\n', by simp, rfl⟩
  | lone hrest => exact Or.inr ⟨v, '\r', rfl, by simpa [endsLine] using hrest⟩

/-- An ending is one line break, also if it has two characters. -/
theorem lineBreaks_eq (h : LineEnding ending rest) :
    lineBreaks (ending ++ rest) ending.length = 1 := by
  cases h with
  | feed => rfl
  | pair => rfl
  | lone hrest =>
    have hends : endsLine '\r' rest.head? = true := by simpa [endsLine] using hrest
    rw [List.singleton_append, List.length_singleton, lineBreaks_cons, if_pos hends,
      lineBreaks_zero]

end LineEnding

/-- A line break character begins an ending. -/
theorem exists_lineEnding {c : Char} (hc : CharClass.isLineEnd c = true) (cs : List Char) :
    ∃ ending rest, c :: cs = ending ++ rest ∧ LineEnding ending rest ∧
      rest.length ≤ cs.length := by
  simp only [CharClass.isLineEnd, Bool.or_eq_true, beq_iff_eq] at hc
  rcases hc with rfl | rfl
  · exact ⟨['\n'], cs, rfl, .feed cs, Nat.le_refl _⟩
  · by_cases hcs : cs.head? = some '\n'
    · obtain ⟨rest, rfl⟩ := List.head?_eq_some_iff.mp hcs
      exact ⟨['\r', '\n'], rest, rfl, .pair rest, Nat.le_succ _⟩
    · exact ⟨['\r'], cs, rfl, .lone hcs, Nat.le_refl _⟩

/-! ## Lines -/

namespace Unbroken

variable {line : List Char}

theorem lineBreaks_eq (h : Unbroken line) (rest : List Char) :
    lineBreaks (line ++ rest) line.length = 0 := by
  induction line with
  | nil => rfl
  | cons c line ih =>
    have hc : endsLine c (line ++ rest).head? = false := by
      have := h c List.mem_cons_self
      simp only [CharClass.isLineEnd, Bool.or_eq_false_iff] at this
      simp [endsLine, this]
    rw [List.cons_append, List.length_cons, lineBreaks_cons, hc,
      ih fun d hd => h d (List.mem_cons_of_mem c hd)]
    rfl

/-- Up to a line break character, or the end of the text, there is nothing but the line. -/
theorem firstRow_eq (h : Unbroken line) {rest : List Char}
    (hrest : ∀ c, rest.head? = some c → CharClass.isLineEnd c = true) :
    firstRow (line ++ rest) = line := by
  rw [firstRow, List.takeWhile_append_of_pos fun c hc => by simp [h c hc]]
  cases rest with
  | nil => exact List.append_nil line
  | cons c rest =>
    rw [List.takeWhile_cons_of_neg (by simp [hrest c rfl]), List.append_nil]

/-- A line with its ending has one line break. -/
theorem lineBreaks_ending (h : Unbroken line) {ending rest : List Char}
    (hending : LineEnding ending rest) :
    lineBreaks (line ++ ending ++ rest) (line ++ ending).length = 1 := by
  rw [List.append_assoc, List.length_append, lineBreaks_append, h.lineBreaks_eq,
    hending.lineBreaks_eq]

/-- Taking the line break characters off the end of a line takes off its ending. -/
theorem trimLineEnd_eq (h : Unbroken line) {ending : List Char}
    (hending : ∀ c ∈ ending, CharClass.isLineEnd c = true) :
    trimLineEnd (line ++ ending) = line := by
  have hrow : firstRow (line ++ []) = line := h.firstRow_eq (by simp)
  rw [List.append_nil] at hrow
  rw [← hrow]
  exact trimLineEnd_firstRow hending

end Unbroken

/-- The line at the beginning of a text goes up to a line break character or the end. -/
theorem exists_unbroken (cs : List Char) :
    ∃ line tail, cs = line ++ tail ∧ Unbroken line ∧
      ∀ c, tail.head? = some c → CharClass.isLineEnd c = true := by
  refine ⟨firstRow cs, cs.dropWhile (!CharClass.isLineEnd ·),
    List.takeWhile_append_dropWhile.symm, fun c hc => isLineEnd_of_mem_firstRow hc, ?_⟩
  intro c hc
  have hstop := List.head?_dropWhile_not (!CharClass.isLineEnd ·) cs
  rw [hc] at hstop
  simpa using hstop

/-- Every text is its lines and the endings between them. -/
theorem exists_lines (cs : List Char) : ∃ lines endings, Lines cs lines endings := by
  induction hn : cs.length using Nat.strongRecOn generalizing cs with
  | ind n ih =>
    obtain ⟨line, tail, rfl, hline, htail⟩ := exists_unbroken cs
    cases tail with
    | nil => exact ⟨[line], [], by simpa using Lines.last hline⟩
    | cons c tail =>
      obtain ⟨ending, rest, hc, hending, hle⟩ := exists_lineEnding (htail c rfl) tail
      rw [List.length_append, List.length_cons] at hn
      obtain ⟨lines, endings, hlines⟩ := ih rest.length (by omega) rest rfl
      rw [hc]
      exact ⟨line :: lines, ending :: endings, .more hline hending hlines⟩

namespace Lines

variable {cs : List Char} {lines endings : List (List Char)}

theorem unbroken (h : Lines cs lines endings) : ∀ line ∈ lines, Unbroken line := by
  induction h with
  | last hline => simpa using hline
  | more hline _ _ ih => simpa using ⟨hline, ih⟩

theorem endings_length (h : Lines cs lines endings) : endings.length + 1 = lines.length := by
  induction h with
  | last => rfl
  | more _ _ _ ih => rw [List.length_cons, List.length_cons, ih]

theorem isLineEnd_endings (h : Lines cs lines endings) :
    ∀ ending ∈ endings, ∀ c ∈ ending, CharClass.isLineEnd c = true := by
  induction h with
  | last => simp
  | more _ hending _ ih => simpa using ⟨hending.isLineEnd, ih⟩

/-- Taking the line break characters off the end of a line takes off the one ending behind it. -/
theorem trimLineEnd_eq (h : Lines cs lines endings) {k : Nat} {line : List Char}
    (hk : lines[k]? = some line) : trimLineEnd (line ++ endings[k]?.getD []) = line := by
  refine (h.unbroken line (List.mem_of_getElem? hk)).trimLineEnd_eq ?_
  cases hending : endings[k]? with
  | none => simp
  | some ending => exact h.isLineEnd_endings ending (List.mem_of_getElem? hending)

/-- There is one line more than there are line breaks. -/
theorem length_eq (h : Lines cs lines endings) : lines.length = 1 + lineBreaks cs cs.length := by
  induction h with
  | @last line hline =>
    have hbreaks := hline.lineBreaks_eq []
    rw [List.append_nil] at hbreaks
    rw [hbreaks, List.length_singleton]
  | @more line ending rest lines endings hline hending _ ih =>
    rw [← List.append_assoc, @List.length_append _ _ rest, lineBreaks_append,
      hline.lineBreaks_ending hending, List.length_cons, ih, Nat.add_comm]

/-- A line stands where a line begins, behind as many line breaks as there are lines in front of it.
Its ending follows, or it is the last one. -/
theorem exists_split (h : Lines cs lines endings) {k : Nat} {line : List Char}
    (hk : lines[k]? = some line) :
    ∃ before after, cs = before ++ (line ++ after) ∧ LineStart before (line ++ after) ∧
      lineBreaks cs before.length = k ∧
      ((endings[k]? = none ∧ after = []) ∨
        ∃ ending rest, endings[k]? = some ending ∧ after = ending ++ rest ∧
          LineEnding ending rest) := by
  induction h generalizing k with
  | @last row hrow =>
    cases k with
    | zero =>
      cases hk
      exact ⟨[], [], (List.append_nil _).symm, Or.inl rfl, rfl, Or.inl ⟨rfl, rfl⟩⟩
    | succ k => cases hk
  | @more row ending rest lines endings hrow hending _ ih =>
    cases k with
    | zero =>
      cases hk
      exact ⟨[], ending ++ rest, rfl, Or.inl rfl, rfl, Or.inr ⟨ending, rest, rfl, rfl, hending⟩⟩
    | succ k =>
      obtain ⟨before, after, rfl, hstart, hbreaks, hend⟩ := ih hk
      refine ⟨row ++ ending ++ before, after, by simp only [List.append_assoc], ?_, ?_, hend⟩
      · rcases hstart with rfl | ⟨v, c, rfl, hc⟩
        · rw [List.append_nil]
          exact hending.lineStart row
        · exact Or.inr ⟨row ++ ending ++ v, c, by simp only [List.append_assoc], hc⟩
      · rw [← List.append_assoc, @List.length_append _ _ before, lineBreaks_append,
          hrow.lineBreaks_ending hending, hbreaks, Nat.add_comm]

end Lines

/-! ## The table of a file -/

/-- The table has an entry for each line break. -/
theorem length_breaksFrom (o : Nat) (cs : List Char) :
    (breaksFrom o cs).length = lineBreaks cs cs.length := by
  induction cs generalizing o with
  | nil => rfl
  | cons c cs ih =>
    rw [breaksFrom, List.length_cons, lineBreaks_cons]
    by_cases hc : endsLine c cs.head? = true
    · rw [if_pos hc, if_pos hc, List.length_cons, ih, Nat.add_comm]
    · rw [if_neg hc, if_neg hc, ih, Nat.zero_add]

namespace SourceFile

variable {file : SourceFile} {lines endings : List (List Char)} {k : Nat} {line : List Char}

theorem eq_ofText (file : SourceFile) : file = ofText file.name file.content := by
  obtain ⟨name, content, chars, lineStarts, rfl, rfl⟩ := file
  rfl

/-- The table has one entry more than there are line breaks. -/
theorem size_lineStarts (file : SourceFile) :
    file.lineStarts.size = 1 + lineBreaks file.chars file.chars.length := by
  rw [file.lineStarts_eq, List.size_toArray, lineStartsOf_utf8Bytes, List.length_cons,
    length_breaksFrom, ← file.chars_eq, Nat.add_comm]

section Beginnings

variable {before after : List Char}

/-- Where a line of a file begins, its table has the offset. -/
theorem lineStarts_of_split (h : file.chars = before ++ after) (hstart : LineStart before after) :
    file.lineStarts[lineBreaks file.chars before.length]? = some (byteLength before) := by
  rw [file.eq_ofText] at h ⊢
  exact getElem?_lineStarts h hstart

/-- The text of a line of a file is what stands behind its beginning, up to the next line break
character. -/
theorem lineAt_of_split (h : file.chars = before ++ after) (hstart : LineStart before after) :
    file.lineAt (lineBreaks file.chars before.length + 1) =
      .ok (String.ofList (firstRow after)) := by
  rw [file.eq_ofText] at h ⊢
  exact lineAt_of_lineStart h hstart

end Beginnings

/-- The lines of a text can be had by their numbers, counted from one. -/
theorem lineAt_of_lines (h : Lines file.chars lines endings) (hk : lines[k]? = some line) :
    file.lineAt (k + 1) = .ok (String.ofList line) := by
  obtain ⟨before, after, hchars, hstart, hbreaks, hend⟩ := h.exists_split hk
  have hrow : firstRow (line ++ after) = line := by
    refine (h.unbroken line (List.mem_of_getElem? hk)).firstRow_eq fun c hc => ?_
    rcases hend with ⟨-, rfl⟩ | ⟨ending, rest, -, rfl, hending⟩
    · cases hc
    · obtain ⟨d, more, rfl⟩ : ∃ d more, ending = d :: more := by cases hending <;> simp
      cases hc
      exact hending.isLineEnd c List.mem_cons_self
  have hat := lineAt_of_split hchars hstart
  rwa [hbreaks, hrow] at hat

/-- Outside the lines of a text there is none, and the failure tells how many there are. -/
theorem lineAt_error (h : Lines file.chars lines endings) (hk : ¬(1 ≤ k ∧ k ≤ lines.length)) :
    file.lineAt k = .error (.invalidLineNumber k lines.length) := by
  have hsize : file.lineStarts.size = lines.length := by rw [h.length_eq, size_lineStarts]
  cases k with
  | zero => rw [lineAt, hsize]
  | succ k =>
    have hnone : file.lineStarts[k]? = none := Array.getElem?_eq_none (by omega)
    rw [lineAt, hnone, hsize]

theorem exists_lineAt (h : Lines file.chars lines endings) (hk : 1 ≤ k ∧ k ≤ lines.length) :
    ∃ line, lines[k - 1]? = some line ∧ file.lineAt k = .ok (String.ofList line) := by
  have hline : lines[k - 1]? = some lines[k - 1] := List.getElem?_eq_getElem (by omega)
  have hat := lineAt_of_lines h hline
  rw [Nat.sub_add_cancel hk.1] at hat
  exact ⟨_, hline, hat⟩

/-- What is handed out is a line of the text. -/
theorem getElem?_of_lineAt (h : Lines file.chars lines endings) {text : String}
    (hat : file.lineAt k = .ok text) :
    (1 ≤ k ∧ k ≤ lines.length) ∧ lines[k - 1]? = some text.toList := by
  by_cases hk : 1 ≤ k ∧ k ≤ lines.length
  · obtain ⟨line, hline, hat'⟩ := exists_lineAt h hk
    cases hat.symm.trans hat'
    rw [String.toList_ofList]
    exact ⟨hk, hline⟩
  · cases hat.symm.trans (lineAt_error h hk)

/-- A line is cut out with its ending, between two entries of the table or in front of the end of
the text. -/
theorem cut_of_lines (h : Lines file.chars lines endings) (hk : lines[k]? = some line) :
    ∃ start, file.lineStarts[k]? = some start ∧
      file.cut start (file.lineStarts[k + 1]?.getD file.content.utf8ByteSize) =
        .ok (line ++ endings[k]?.getD []) := by
  obtain ⟨before, after, hchars, hstart, hbreaks, hend⟩ := h.exists_split hk
  have htable := lineStarts_of_split hchars hstart
  rw [hbreaks] at htable
  refine ⟨byteLength before, htable, ?_⟩
  rcases hend with ⟨hnone, rfl⟩ | ⟨ending, rest, hsome, rfl, hending⟩
  · -- the last line goes up to the end of the text
    have hlast : file.lineStarts[k + 1]? = none := by
      have hk' : lines.length ≤ k + 1 := by
        have := h.endings_length
        have := List.getElem?_eq_none_iff.mp hnone
        omega
      refine Array.getElem?_eq_none ?_
      rwa [size_lineStarts, ← h.length_eq]
    have hsize : file.content.utf8ByteSize = byteLength before + byteLength line := by
      rw [← byteLength_toList, ← file.chars_eq, hchars, List.append_nil, byteLength_append]
    rw [hlast, hnone, Option.getD_none, Option.getD_none, List.append_nil, hsize]
    exact cut_append hchars
  · -- the next line begins behind the ending
    have hrow := h.unbroken line (List.mem_of_getElem? hk)
    have hsplit : file.chars = before ++ (line ++ ending) ++ rest := by
      rw [hchars, List.append_assoc, List.append_assoc]
    have hnext : LineStart (before ++ (line ++ ending)) rest := by
      rw [← List.append_assoc]
      exact hending.lineStart _
    have hcount : lineBreaks file.chars (before ++ (line ++ ending)).length = k + 1 := by
      rw [hchars, List.length_append, lineBreaks_append, ← hchars, hbreaks, ← List.append_assoc,
        hrow.lineBreaks_ending hending]
    have hstop := lineStarts_of_split hsplit hnext
    rw [hcount] at hstop
    rw [hstop, hsome, Option.getD_some, Option.getD_some, byteLength_append]
    exact cut_append (hsplit.trans (List.append_assoc _ _ _))

/-- The lines that a file hands out, and the endings between them, are its text. -/
structure PartitionedBy (file : SourceFile) (lines endings : List (List Char)) : Prop where
  /-- The first line, its ending, the second line, and so on up to the last line. -/
  parts : Lines file.chars lines endings
  /-- There is one line more than there are line breaks. -/
  length_eq : lines.length = 1 + lineBreaks file.chars file.chars.length
  endings_length : endings.length + 1 = lines.length
  /-- These lines are handed out by their numbers. -/
  lineAt_eq : ∀ k line, lines[k]? = some line → file.lineAt (k + 1) = .ok (String.ofList line)
  /-- And no others are. -/
  lineAt_ok_iff : ∀ k, (∃ line, file.lineAt k = .ok line) ↔ 1 ≤ k ∧ k ≤ lines.length
  lineAt_error : ∀ k, ¬(1 ≤ k ∧ k ≤ lines.length) →
    file.lineAt k = .error (.invalidLineNumber k lines.length)
  unbroken : ∀ k line, file.lineAt k = .ok line → ∀ c ∈ line.toList, c ≠ '\n' ∧ c ≠ '\r'
  /-- The offsets in the table are fit for cutting: what is cut out for a line is the line with one
  ending, or the last line alone, and what is taken off it is that ending. -/
  cut_eq : ∀ k line, lines[k]? = some line → ∃ start, file.lineStarts[k]? = some start ∧
    file.cut start (file.lineStarts[k + 1]?.getD file.content.utf8ByteSize) =
      .ok (line ++ endings[k]?.getD []) ∧
    trimLineEnd (line ++ endings[k]?.getD []) = line

end SourceFile

open SourceFile in
/-- **The lines of a file partition its text.** The lines are those with the numbers from one up to
the number of line breaks and one more; they hold no line break character, and the text is the
lines with one line ending between any two. -/
theorem lines_partition_text (name content : String) :
    ∃ lines endings, (SourceFile.ofText name content).PartitionedBy lines endings := by
  obtain ⟨lines, endings, hparts⟩ := exists_lines (SourceFile.ofText name content).chars
  refine ⟨lines, endings, ?_⟩
  constructor
  case parts => exact hparts
  case length_eq => exact hparts.length_eq
  case endings_length => exact hparts.endings_length
  case lineAt_eq =>
    intro k line hk
    exact lineAt_of_lines hparts hk
  case lineAt_ok_iff =>
    intro k
    constructor
    · rintro ⟨line, hat⟩
      obtain ⟨hk, -⟩ := getElem?_of_lineAt hparts hat
      exact hk
    · intro hk
      obtain ⟨line, -, hat⟩ := exists_lineAt hparts hk
      exact ⟨_, hat⟩
  case lineAt_error =>
    intro k hk
    exact lineAt_error hparts hk
  case unbroken =>
    intro k line hat c hc
    obtain ⟨-, hline⟩ := getElem?_of_lineAt hparts hat
    have hend := hparts.unbroken _ (List.mem_of_getElem? hline) c hc
    simpa [CharClass.isLineEnd] using hend
  case cut_eq =>
    intro k line hk
    obtain ⟨start, hstart, hcut⟩ := cut_of_lines hparts hk
    exact ⟨start, hstart, hcut, hparts.trimLineEnd_eq hk⟩

/-- A line feed and a pair that follow each other are two line breaks, and a lone carriage return at
the end begins an empty line. -/
example : (SourceFile.ofText "mixed.lua" "a\n\r\nλ\r").lineAt 3 = .ok "λ" ∧
    (SourceFile.ofText "mixed.lua" "a\n\r\nλ\r").lineAt 4 = .ok "" :=
  ⟨rfl, rfl⟩

end LuaLex
