import LuaLex.Proofs.Utf8Text
import LuaLex.SourceFile

/-!
# The line table

The table of a file has the offset of every line, in order. It is found in the bytes of the text,
and bytes could also be cut inside a character. But only the line break characters have the bytes
that the scan looks for, so it finds the line breaks of the text. A text is cut where a line begins:
the table has the length of what is before the cut, and the text of the line is what stands behind
it, up to the next line break character.

* `sliceBytes?_append`: cutting out the middle of three parts.
* `lineStartsOf_utf8Bytes`: the scan of the bytes finds the line breaks between the characters.
* `getElem?_lineStartsOf`: where a line begins, the table has its offset.
* `SourceFile.lineAt_of_lineStart`: the text of that line.
* `SourceFile.Locates`, `locates_behind`: the place behind any part of a text agrees with the lines
  of the text.
-/

namespace LuaLex

/-! ## Cutting -/

theorem dropBytes?_append (v w : List Char) : dropBytes? (v ++ w) (byteLength v) = some w := by
  induction v with
  | nil => rw [byteLength_nil, List.nil_append, dropBytes?]
  | cons c v ih =>
    obtain ⟨n, hn⟩ : ∃ n, c.utf8Size + byteLength v = n + 1 :=
      ⟨c.utf8Size + byteLength v - 1, by have := c.utf8Size_pos; omega⟩
    rw [byteLength_cons, hn, List.cons_append, dropBytes?, if_pos (by omega), ← hn,
      Nat.add_sub_cancel_left, ih]

theorem takeBytes?_append (v w : List Char) : takeBytes? (v ++ w) (byteLength v) = some v := by
  induction v with
  | nil => rw [byteLength_nil, List.nil_append, takeBytes?]
  | cons c v ih =>
    obtain ⟨n, hn⟩ : ∃ n, c.utf8Size + byteLength v = n + 1 :=
      ⟨c.utf8Size + byteLength v - 1, by have := c.utf8Size_pos; omega⟩
    rw [byteLength_cons, hn, List.cons_append, takeBytes?, if_pos (by omega), ← hn,
      Nat.add_sub_cancel_left, ih, Option.map_some]

/-- A text is cut where one of its parts ends. -/
theorem sliceBytes?_append (u v w : List Char) :
    sliceBytes? (u ++ (v ++ w)) (byteLength u) (byteLength u + byteLength v) = some v := by
  rw [sliceBytes?, if_pos (Nat.le_add_right _ _), dropBytes?_append, Nat.add_sub_cancel_left,
    Option.bind_some, takeBytes?_append]

/-! ## The scan of the bytes -/

/-- The offsets behind the line breaks of a text that begins at `offset`. -/
def breaksFrom (offset : Nat) : List Char → List Nat
  | [] => []
  | c :: cs =>
    if endsLine c cs.head? then (offset + c.utf8Size) :: breaksFrom (offset + c.utf8Size) cs
    else breaksFrom (offset + c.utf8Size) cs

/-- Bytes that are not ASCII hold no line break. -/
theorem lineStartsFrom_append {bytes : List UInt8} (h : ∀ byte ∈ bytes, 0x80 ≤ byte) (o : Nat)
    (rest : List UInt8) :
    lineStartsFrom o (bytes ++ rest) = lineStartsFrom (o + bytes.length) rest := by
  induction bytes generalizing o with
  | nil => rfl
  | cons byte bytes ih =>
    have hhigh : 0x80 ≤ byte := h byte List.mem_cons_self
    have hbreak : ¬(byte = 0x0a ∨ (byte = 0x0d ∧ (bytes ++ rest).head? ≠ some 0x0a)) := by
      rintro (rfl | ⟨rfl, -⟩)
      · exact absurd hhigh (by decide)
      · exact absurd hhigh (by decide)
    rw [List.cons_append, lineStartsFrom, if_neg hbreak,
      ih fun b hb => h b (List.mem_cons_of_mem byte hb), List.length_cons, Nat.add_assoc,
      Nat.add_comm 1]

/-- The byte of an ASCII character is a line break in front of encoded text if the character is one
in front of the text. -/
theorem endsLine_asciiByte {c : Char} (hc : c.val.toNat < 0x80) (cs : List Char) :
    (UInt8.ofNat c.val.toNat = 0x0a ∨ (UInt8.ofNat c.val.toNat = 0x0d ∧
      (cs.flatMap String.utf8EncodeChar).head? ≠ some 0x0a)) ↔ endsLine c cs.head? = true := by
  have hfeed : UInt8.ofNat c.val.toNat = 0x0a ↔ c = '\n' :=
    Utf8.asciiByte_inj (d := '\n') hc (by decide)
  have hreturn : UInt8.ofNat c.val.toNat = 0x0d ↔ c = '\r' :=
    Utf8.asciiByte_inj (d := '\r') hc (by decide)
  have hnext : (cs.flatMap String.utf8EncodeChar).head? = some 0x0a ↔ cs.head? = some '\n' :=
    Utf8.head?_encoded (d := '\n') (by decide) cs
  rw [hfeed, hreturn, ne_eq, hnext]
  simp [endsLine]

theorem not_endsLine {c : Char} (hc : 0x80 ≤ c.val.toNat) (next : Option Char) :
    ¬endsLine c next = true := by
  intro h
  simp only [endsLine, Bool.or_eq_true, Bool.and_eq_true, beq_iff_eq] at h
  rcases h with rfl | ⟨rfl, -⟩
  · exact absurd hc (by decide)
  · exact absurd hc (by decide)

/-- **The scan of the bytes finds the line breaks between the characters.** -/
theorem lineStartsFrom_encoded (o : Nat) (cs : List Char) :
    lineStartsFrom o (cs.flatMap String.utf8EncodeChar) = breaksFrom o cs := by
  induction cs generalizing o with
  | nil => rfl
  | cons c cs ih =>
    rw [List.flatMap_cons, breaksFrom]
    rcases Utf8.utf8EncodeChar_cases c with ⟨hc, hbytes⟩ | ⟨hc, hbytes⟩
    · have hsize : c.utf8Size = 1 := by
        rw [← String.length_utf8EncodeChar, hbytes]
        rfl
      rw [hbytes, List.singleton_append, lineStartsFrom, hsize, ih]
      simp only [endsLine_asciiByte hc]
    · -- the scan passes over a longer character, as the walk does
      rw [lineStartsFrom_append hbytes, String.length_utf8EncodeChar, ih,
        if_neg (not_endsLine hc cs.head?)]

theorem lineStartsOf_utf8Bytes (s : String) :
    lineStartsOf (utf8Bytes s) = 0 :: breaksFrom 0 s.toList := by
  rw [lineStartsOf, utf8Bytes_eq, lineStartsFrom_encoded]

/-! ## Where lines begin -/

/-- Behind the entries for the breaks of a part stand the entries of the rest. -/
theorem drop_breaksFrom (o : Nat) (v w : List Char) :
    (breaksFrom o (v ++ w)).drop (lineBreaks (v ++ w) v.length) =
      breaksFrom (o + byteLength v) w := by
  induction v generalizing o with
  | nil => rfl
  | cons c v ih =>
    rw [List.cons_append, List.length_cons, lineBreaks_cons, breaksFrom, byteLength_cons,
      ← Nat.add_assoc, ← ih]
    by_cases hc : endsLine c (v ++ w).head? = true
    · rw [if_pos hc, if_pos hc, Nat.add_comm 1, List.drop_succ_cons]
    · rw [if_neg hc, if_neg hc, Nat.zero_add]

/-- The entry behind those for the breaks of a part is the first one of the rest. -/
theorem getElem?_breaksFrom (o : Nat) (v w : List Char) :
    (breaksFrom o (v ++ w))[lineBreaks (v ++ w) v.length]? =
      (breaksFrom (o + byteLength v) w).head? := by
  rw [← drop_breaksFrom, List.head?_drop]

section Beginnings

variable {s : String} {before after : List Char}

/-- **Where a line begins, the table has its offset.** -/
theorem getElem?_lineStartsOf (hs : s.toList = before ++ after) (h : LineStart before after) :
    (lineStartsOf (utf8Bytes s))[lineBreaks s.toList before.length]? =
      some (byteLength before) := by
  rw [lineStartsOf_utf8Bytes, hs]
  rcases h with rfl | ⟨v, c, rfl, hc⟩
  · rfl
  · have hbreaks : lineBreaks (v ++ c :: after) (v.length + 1) =
        lineBreaks (v ++ c :: after) v.length + 1 := by
      rw [lineBreaks_append, lineBreaks_cons, if_pos hc]
      rfl
    rw [List.append_assoc, List.singleton_append, List.length_append, List.length_singleton,
      hbreaks, List.getElem?_cons_succ, getElem?_breaksFrom, breaksFrom, if_pos hc,
      List.head?_cons, Nat.zero_add, byteLength_append, byteLength_cons, byteLength_nil,
      Nat.add_zero]

/-- The entry behind that of a line is the first one behind the beginning of the line. -/
theorem getElem?_succ_lineStartsOf (hs : s.toList = before ++ after) :
    (lineStartsOf (utf8Bytes s))[lineBreaks s.toList before.length + 1]? =
      (breaksFrom (byteLength before) after).head? := by
  rw [lineStartsOf_utf8Bytes, List.getElem?_cons_succ, hs, getElem?_breaksFrom, Nat.zero_add]

end Beginnings

/-! ## The text of a line -/

/-- What stands on the line at the beginning of a text. -/
def firstRow (cs : List Char) : List Char := cs.takeWhile (!CharClass.isLineEnd ·)

/-- The line at the beginning of a text, its line break and what follows. The next entry of the
table is the offset behind the break, or the end of the text. -/
theorem exists_firstRow (cs : List Char) :
    ∃ ending rest, cs = firstRow cs ++ (ending ++ rest) ∧
      (∀ c ∈ ending, CharClass.isLineEnd c = true) ∧
      ∀ o, (breaksFrom o cs).head?.getD (o + byteLength cs) =
        o + byteLength (firstRow cs ++ ending) := by
  induction cs with
  | nil => exact ⟨[], [], rfl, by simp, fun o => rfl⟩
  | cons c cs ih =>
    by_cases hend : CharClass.isLineEnd c = true
    · have hrow : firstRow (c :: cs) = [] := by
        rw [firstRow, List.takeWhile_cons_of_neg (by simp [hend])]
      rw [hrow]
      by_cases hc : endsLine c cs.head? = true
      · refine ⟨[c], cs, rfl, by simp [hend], fun o => ?_⟩
        rw [breaksFrom, if_pos hc]
        rfl
      · -- a carriage return with its line feed
        obtain ⟨hr, hhead⟩ : c = '\r' ∧ cs.head? = some '\n' := by
          have hc' := hc
          simp only [CharClass.isLineEnd, Bool.or_eq_true, beq_iff_eq] at hend
          rcases hend with rfl | rfl
          · exact absurd rfl hc'
          · exact ⟨rfl, by simpa [endsLine] using hc'⟩
        obtain ⟨rest, rfl⟩ := List.head?_eq_some_iff.mp hhead
        refine ⟨[c, '\n'], rest, rfl, by simp [hr, CharClass.isLineEnd], fun o => ?_⟩
        rw [breaksFrom, if_neg hc, breaksFrom, if_pos (by rfl)]
        simp [Nat.add_assoc]
    · obtain ⟨ending, rest, hcs, hending, hnext⟩ := ih
      have hrow : firstRow (c :: cs) = c :: firstRow cs := by
        rw [firstRow, List.takeWhile_cons_of_pos (by simp [hend])]
        rfl
      have hc : ¬endsLine c cs.head? = true := by
        intro hc
        apply hend
        simp only [endsLine, Bool.or_eq_true, Bool.and_eq_true] at hc
        simpa [CharClass.isLineEnd] using hc.imp_right And.left
      refine ⟨ending, rest, ?_, hending, fun o => ?_⟩
      · rw [hrow, List.cons_append, ← hcs]
      · rw [breaksFrom, if_neg hc, hrow, byteLength_cons, List.cons_append,
          byteLength_cons, ← Nat.add_assoc, hnext, Nat.add_assoc]

theorem isLineEnd_of_mem_firstRow {c : Char} {cs : List Char} (h : c ∈ firstRow cs) :
    CharClass.isLineEnd c = false := by
  simpa using List.all_eq_true.mp List.all_takeWhile c h

/-- Cutting off the line break leaves the line. -/
theorem trimLineEnd_firstRow {cs ending : List Char}
    (hending : ∀ c ∈ ending, CharClass.isLineEnd c = true) :
    trimLineEnd (firstRow cs ++ ending) = firstRow cs := by
  have hdrop : ∀ l : List Char, (∀ c ∈ l, CharClass.isLineEnd c = false) →
      l.dropWhile CharClass.isLineEnd = l := by
    intro l hl
    cases l with
    | nil => rfl
    | cons c l => rw [List.dropWhile_cons_of_neg (by simp [hl c (by simp)])]
  rw [trimLineEnd, List.reverse_append, List.dropWhile_append_of_pos, hdrop, List.reverse_reverse]
  · intro c hc
    exact isLineEnd_of_mem_firstRow (List.mem_reverse.mp hc)
  · intro c hc
    exact hending c (List.mem_reverse.mp hc)

namespace SourceFile

theorem cut_append {file : SourceFile} {u v w : List Char} (h : file.chars = u ++ (v ++ w)) :
    file.cut (byteLength u) (byteLength u + byteLength v) = .ok v := by
  rw [cut, h, sliceBytes?_append]

variable {name content : String}

/-- Where a line begins, the table of the file has its offset. -/
theorem getElem?_lineStarts {before after : List Char} (h : content.toList = before ++ after)
    (hstart : LineStart before after) :
    (ofText name content).lineStarts[lineBreaks content.toList before.length]? =
      some (byteLength before) := by
  show (lineStartsOf (utf8Bytes content)).toArray[_]? = _
  rw [List.getElem?_toArray, getElem?_lineStartsOf h hstart]

/-- **The text of a line** is what stands behind its beginning, up to the next line break
character. -/
theorem lineAt_of_lineStart {before after : List Char} (h : content.toList = before ++ after)
    (hstart : LineStart before after) :
    (ofText name content).lineAt (lineBreaks content.toList before.length + 1) =
      .ok (String.ofList (firstRow after)) := by
  obtain ⟨ending, rest, hafter, hending, hnext⟩ := exists_firstRow after
  have hsize : (ofText name content).content.utf8ByteSize =
      byteLength before + byteLength after := by
    rw [← byteLength_append, ← h, byteLength_toList]
    rfl
  have hstop : (ofText name content).lineStarts[lineBreaks content.toList before.length + 1]?.getD
      (ofText name content).content.utf8ByteSize =
        byteLength before + byteLength (firstRow after ++ ending) := by
    rw [hsize, ← hnext]
    show ((lineStartsOf (utf8Bytes content)).toArray[_]?).getD _ = _
    rw [List.getElem?_toArray, getElem?_succ_lineStartsOf h]
  rw [lineAt]
  simp only [getElem?_lineStarts h hstart, hstop]
  rw [cut_append (h.trans (by rw [List.append_assoc, ← hafter]))]
  show Except.ok (String.ofList (trimLineEnd _)) = _
  rw [trimLineEnd_firstRow hending]

end SourceFile

/-! ## Places on the lines of a file -/

/-- The place `p` agrees with the lines of a file. What stands in front of it is cut into `before`
and `part` where the table of the file lets the line of `p` begin. -/
structure SourceFile.LocatedBy (file : SourceFile) (p : Position)
    (before part after : List Char) : Prop where
  chars_eq : file.chars = before ++ (part ++ after)
  offset_eq : p.offset = byteLength before + byteLength part
  /-- The line counts the breaks in the bytes before the place. -/
  line_eq : p.line = 1 + lineBreaks file.chars (before.length + part.length)
  lineAt_eq : file.lineAt p.line = .ok (String.ofList (firstRow (part ++ after)))
  lineStart_eq : file.lineStarts[p.line - 1]? = some (byteLength before)
  cut_eq : file.cut (byteLength before) p.offset = .ok part
  /-- The column counts the characters between the two offsets. -/
  column_eq : p.column = 1 + part.length
  begins : LineStart before (part ++ after)
  /-- No line ends between the two. -/
  unbroken : ∀ i, before.length ≤ i → i < before.length + part.length →
    endsLineAt file.chars i = false
  /-- Lines and columns stay in the range of 32 bits if the number of characters does. -/
  line_le : p.line ≤ file.chars.length + 1
  column_le : p.column ≤ file.chars.length + 1

/-- The place `p` agrees with the lines of a file. -/
def SourceFile.Locates (file : SourceFile) (p : Position) : Prop :=
  ∃ before part after, file.LocatedBy p before part after

/-- **The place behind a part of a text** agrees with the lines of the text. -/
theorem locatedBy_behind (name : String) {content : String} {v rest : List Char}
    (h : content.toList = v ++ rest) :
    ∃ before part, v = before ++ part ∧
      (SourceFile.ofText name content).LocatedBy (Position.origin.behind v rest)
        before part rest := by
  obtain ⟨before, part, rfl, hstart, hbreaks, hcolumn⟩ :=
    Position.exists_lineStart (p := .origin) rfl v rest
  rw [List.append_assoc] at h
  have hchars : (SourceFile.ofText name content).chars = before ++ (part ++ rest) := h
  have hline : (Position.origin.behind (before ++ part) rest).line =
      lineBreaks content.toList before.length + 1 := by
    rw [Position.behind_line, List.append_assoc, List.length_append, lineBreaks_append, hbreaks,
      ← h]
    exact Nat.add_comm 1 _
  have hoffset : (Position.origin.behind (before ++ part) rest).offset =
      byteLength before + byteLength part := by
    rw [Position.origin_behind_offset, byteLength_append]
  have hlength : (before ++ part).length ≤ content.toList.length := by
    rw [h]
    simp only [List.length_append]
    omega
  refine ⟨before, part, rfl, hchars, hoffset, ?_, ?_, ?_, ?_, hcolumn, hstart, ?_, ?_, ?_⟩
  · rw [hline, hchars, lineBreaks_append, hbreaks, ← h]
    exact Nat.add_comm _ 1
  · rw [hline]
    exact SourceFile.lineAt_of_lineStart h hstart
  · rw [hline, Nat.add_sub_cancel]
    exact SourceFile.getElem?_lineStarts h hstart
  · rw [hoffset]
    exact SourceFile.cut_append hchars
  · intro i hi hlt
    obtain ⟨j, rfl⟩ := Nat.exists_eq_add_of_le hi
    rw [hchars, endsLineAt_append]
    exact endsLineAt_eq_false hbreaks (by omega)
  · refine Nat.le_trans (Position.behind_line_le _ _ _) ?_
    rw [Nat.add_comm]
    exact Nat.add_le_add_right hlength 1
  · refine Nat.le_trans (Position.behind_column_le (Nat.le_refl 1) _ _) ?_
    rw [Nat.add_comm]
    exact Nat.add_le_add_right hlength 1

theorem locates_behind (name : String) {content : String} {v rest : List Char}
    (h : content.toList = v ++ rest) :
    (SourceFile.ofText name content).Locates (Position.origin.behind v rest) := by
  obtain ⟨before, part, -, hlocated⟩ := locatedBy_behind name h
  exact ⟨before, part, rest, hlocated⟩

end LuaLex
