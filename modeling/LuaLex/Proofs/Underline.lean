import LuaLex.Diagnostic
import LuaLex.Proofs.LineTable

/-!
# What a diagnostic points at

A rendered diagnostic quotes a line and underlines a part of it. The quoted line comes from the
table of lines; the number of carets comes from the covered text, of which the rendering takes the
lines that end with a line feed, and from the room left on the quoted line. Together the two amount
to the first line of the covered text, also where a lone carriage return ends it.

* `PhysicalLine`: the line of a text on which a byte stands.
* `Diagnostic.caretCount_eq`: the number of carets.
* `Diagnostic.Underlines`, `Diagnostic.underlines_of_located`: a diagnostic on a text that does not
  begin with a line break quotes the line of that text and underlines its first line.
-/

namespace LuaLex

/-! ## Rows -/

theorem firstRow_append_of_forall {v : List Char} (h : ∀ c ∈ v, CharClass.isLineEnd c = false)
    (w : List Char) : firstRow (v ++ w) = v ++ firstRow w := by
  refine List.takeWhile_append_of_pos ?_
  intro c hc
  simp [h c hc]

/-- The first line of a text goes on behind a part of it only if that part has no line break
character. -/
theorem firstRow_append (v w : List Char) :
    firstRow (v ++ w) = firstRow v ∨ (firstRow v = v ∧ firstRow (v ++ w) = v ++ firstRow w) := by
  by_cases hv : (firstRow v).length = v.length
  · have hrow : firstRow v = v := (List.takeWhile_prefix _).eq_of_length hv
    refine Or.inr ⟨hrow, firstRow_append_of_forall (fun c hc => ?_) w⟩
    rw [← hrow] at hc
    exact isLineEnd_of_mem_firstRow hc
  · refine Or.inl ?_
    rw [firstRow, List.takeWhile_append]
    exact if_neg hv

/-- What stands on the first line of a part stands on the first line of the whole. -/
theorem take_firstRow (v w : List Char) :
    (firstRow (v ++ w)).take (firstRow v).length = firstRow v := by
  rcases firstRow_append v w with h | ⟨h, h'⟩
  · rw [h, List.take_length]
  · rw [h', h, List.take_left]

theorem firstRow_ne_nil {c : Char} {cs : List Char} (hc : CharClass.isLineEnd c = false) :
    firstRow (c :: cs) ≠ [] := by
  rw [firstRow, List.takeWhile_cons_of_pos (by simp [hc])]
  exact List.cons_ne_nil _ _

theorem length_firstLine_le (cs : List Char) : (Diagnostic.firstLine cs).length ≤ cs.length := by
  have h := (List.takeWhile_prefix (l := cs) (· != '\n')).length_le
  unfold Diagnostic.firstLine
  simp only
  split
  · rw [List.length_dropLast]
    omega
  · exact h

theorem firstRow_prefix (cs : List Char) : firstRow cs <+: cs.takeWhile (· != '\n') := by
  induction cs with
  | nil => exact List.prefix_rfl
  | cons c cs ih =>
    by_cases hc : CharClass.isLineEnd c = true
    · rw [firstRow, List.takeWhile_cons_of_neg (by simp [hc])]
      exact List.nil_prefix
    · have hn : c ≠ '\n' := by
        rintro rfl
        exact hc rfl
      rw [firstRow, List.takeWhile_cons_of_pos (by simp [hc]),
        List.takeWhile_cons_of_pos (by simp [hn])]
      exact List.cons_prefix_cons.mpr ⟨rfl, ih⟩

/-- A line that only line feeds end is no shorter than one that ends at every line break
character. -/
theorem length_firstRow_le (cs : List Char) :
    (firstRow cs).length ≤ (Diagnostic.firstLine cs).length := by
  obtain ⟨more, hmore⟩ := firstRow_prefix cs
  unfold Diagnostic.firstLine
  simp only [← hmore]
  split
  · -- the carriage return that is taken off does not belong to the row
    rename_i h
    cases more with
    | nil =>
      have hlast : '\r' ∈ firstRow cs := List.mem_of_getLast? (by simpa using h.2)
      have := isLineEnd_of_mem_firstRow hlast
      simp [CharClass.isLineEnd] at this
    | cons c more =>
      rw [List.length_dropLast, List.length_append, List.length_cons]
      omega
  · rw [List.length_append]
    omega

/-- Where no line ends, and no line feed follows, there is no line break character. -/
theorem forall_not_isLineEnd {v w : List Char}
    (h : ∀ i, i < v.length → endsLineAt (v ++ w) i = false) (hw : w.head? ≠ some '\n') :
    ∀ c ∈ v, CharClass.isLineEnd c = false := by
  induction v with
  | nil => simp
  | cons c v ih =>
    have ih := ih fun i hi => by
      rw [← endsLineAt_succ c]
      exact h (i + 1) (Nat.succ_lt_succ hi)
    have hhead : (v ++ w).head? ≠ some '\n' := by
      cases v with
      | nil => exact hw
      | cons d v =>
        intro hnl
        obtain rfl : d = '\n' := by simpa using hnl
        have := ih '\n' (by simp)
        simp [CharClass.isLineEnd] at this
    have hc : endsLine c (v ++ w).head? = false := by
      have := h 0 (Nat.succ_pos _)
      simpa [endsLineAt, List.head?_eq_getElem?] using this
    intro d hd
    rcases List.mem_cons.mp hd with rfl | hd
    · simp only [endsLine, Bool.or_eq_false_iff, Bool.and_eq_false_iff, bne_eq_false_iff_eq] at hc
      rcases hc with ⟨hn, hr | hr⟩
      · rw [CharClass.isLineEnd, hn, hr, Bool.or_false]
      · exact absurd hr hhead
    · exact ih d hd

/-- In front of a character on the same line there is no line break character. -/
theorem SourceFile.LocatedBy.not_isLineEnd {file : SourceFile} {p : Position} {c : Char}
    {before part after : List Char} (h : file.LocatedBy p before part (c :: after))
    (hc : CharClass.isLineEnd c = false) : ∀ d ∈ part, CharClass.isLineEnd d = false := by
  refine forall_not_isLineEnd (w := c :: after) (fun i hi => ?_) ?_
  · rw [← endsLineAt_append before, ← h.chars_eq]
    exact h.unbroken _ (Nat.le_add_right _ _) (Nat.add_lt_add_left hi _)
  · intro hnl
    obtain rfl : c = '\n' := by simpa using hnl
    cases hc

/-- The span of a text that begins at a place of the file covers the text. -/
theorem slice_of_located {file : SourceFile} {span : Span} {before part t after : List Char}
    (h : file.LocatedBy (.ofSpan span) before part (t ++ after))
    (hstop : span.stop = span.start + byteLength t) :
    file.slice span = .ok (String.ofList t) := by
  have hchars : file.chars = (before ++ part) ++ (t ++ after) := by
    rw [h.chars_eq, List.append_assoc]
  have hstart : span.start = byteLength (before ++ part) := by
    rw [byteLength_append]
    exact h.offset_eq
  rw [SourceFile.slice, hstop, hstart, SourceFile.cut_append hchars]
  rfl

/-- The line of a text on which the byte `o` stands, without its line break: it begins where a line
begins, holds no line break character, and is followed by one unless the text ends. -/
def PhysicalLine (cs : List Char) (o : Nat) (line : List Char) : Prop :=
  ∃ before after, cs = before ++ (line ++ after) ∧ LineStart before (line ++ after) ∧
    (∀ c ∈ line, CharClass.isLineEnd c = false) ∧
    (∀ c, after.head? = some c → CharClass.isLineEnd c = true) ∧
    byteLength before ≤ o ∧ o < byteLength before + byteLength line

/-- The line behind its beginning is the line of every byte on it. -/
theorem physicalLine_firstRow {before after : List Char} (hstart : LineStart before after)
    {n : Nat} (hn : n < byteLength (firstRow after)) :
    PhysicalLine (before ++ after) (byteLength before + n) (firstRow after) := by
  have hsplit : firstRow after ++ after.dropWhile (!CharClass.isLineEnd ·) = after :=
    List.takeWhile_append_dropWhile
  refine ⟨before, after.dropWhile (!CharClass.isLineEnd ·), by rw [hsplit], by rwa [hsplit],
    fun c hc => isLineEnd_of_mem_firstRow hc, fun c hc => ?_, Nat.le_add_right _ _,
    Nat.add_lt_add_left hn _⟩
  have hstop := List.head?_dropWhile_not (!CharClass.isLineEnd ·) after
  rw [hc] at hstop
  simpa using hstop

namespace Diagnostic

/-! ## The underline -/

/-- **There are as many carets as the first line of the covered text has characters**, if it has
any. -/
theorem caretCount_eq {d : Diagnostic} {file : SourceFile} {part t after : List Char}
    (hslice : file.slice d.span = .ok (String.ofList t)) (hcolumn : d.span.column = 1 + part.length)
    (hrow : 1 ≤ (firstRow t).length) :
    d.caretCount file (String.ofList (part ++ firstRow (t ++ after))) = (firstRow t).length := by
  have hwish : d.caretWish file = (firstLine t).length := by
    rw [caretWish, hslice]
    simp only [String.toList_ofList]
  have hroom : d.caretRoom (String.ofList (part ++ firstRow (t ++ after))) =
      max (firstRow (t ++ after)).length 1 := by
    rw [caretRoom, caretColumn, hcolumn, String.length_ofList, List.length_append]
    omega
  have hle := length_firstRow_le t
  rw [caretCount, hwish, hroom]
  rcases firstRow_append t after with h | ⟨h, h'⟩
  · -- a line break character in the covered text ends the quoted line
    rw [h]
    omega
  · have hlen := length_firstLine_le t
    rw [h', List.length_append]
    rw [h] at hle hrow ⊢
    omega

/-- A lone carriage return inside a string ends the underline, but it is no end of a line to the
rendering. -/
example : (⟨.warning, "", ⟨4, 10, 1, 5⟩, []⟩ : Diagnostic).caretCount
    (.ofText "main.lua" "x = \"ab\rcd") "x = \"ab" = 3 := by
  cbv

/-- A diagnostic about `text` quotes `line` and underlines it with `w` carets. -/
structure Underlines (d : Diagnostic) (file : SourceFile) (colored : Bool) (text : String)
    (line : List Char) (w : Nat) : Prop where
  slice_eq : file.slice d.span = .ok text
  /-- The quoted line is the one on which the text begins. -/
  physical : PhysicalLine file.chars d.span.start line
  /-- The carets count the characters of the text before its first line break character. -/
  width_eq : w = (firstRow text.toList).length
  width_pos : 1 ≤ w
  column_pos : 1 ≤ d.span.column
  /-- Above the carets stands the first line of the text. -/
  covered : (line.drop (d.span.column - 1)).take w = firstRow text.toList
  render_eq : d.render file colored =
    file.name ++ ":" ++ toString d.span.line ++ ":" ++ toString d.span.column ++ ": " ++
      d.level.label colored ++ ": " ++ d.message ++
    "\n" ++ toString d.span.line ++ " | " ++ String.ofList line ++
    "\n" ++ String.ofList (List.replicate (toString d.span.line).length ' ') ++ " | " ++
      String.ofList (List.replicate (d.span.column - 1) ' ') ++
      String.ofList (List.replicate w '^') ++
    String.join (d.notes.map fun note => "\n  = note: " ++ note)

/-- A diagnostic on a line of the file quotes it. -/
theorem render_eq_of_lineAt {d : Diagnostic} {file : SourceFile} {line : String}
    (hat : file.lineAt d.span.line = .ok line) (hcolumn : 1 ≤ d.span.column) (colored : Bool) :
    d.render file colored =
      file.name ++ ":" ++ toString d.span.line ++ ":" ++ toString d.span.column ++ ": " ++
        d.level.label colored ++ ": " ++ d.message ++
      "\n" ++ toString d.span.line ++ " | " ++ line ++
      "\n" ++ String.ofList (List.replicate (toString d.span.line).length ' ') ++ " | " ++
        String.ofList (List.replicate (d.span.column - 1) ' ') ++
        String.ofList (List.replicate (d.caretCount file line) '^') ++
      String.join (d.notes.map fun note => "\n  = note: " ++ note) := by
  have hcaret : d.caretColumn = d.span.column := by
    rw [caretColumn]
    omega
  rw [render, hat]
  simp only [quotation, repeated, header, Span.place, hcaret, String.append_assoc]

/-- **A diagnostic points at its text**: it quotes the line on which the text begins and underlines
the first line of the text, if the text does not begin with a line break. -/
theorem underlines_of_located {d : Diagnostic} {file : SourceFile} {before part t after : List Char}
    (hlocated : file.LocatedBy (.ofSpan d.span) before part (t ++ after))
    (hstop : d.span.stop = d.span.start + byteLength t)
    (hhead : ∃ c w, t = c :: w ∧ CharClass.isLineEnd c = false) (colored : Bool) :
    d.Underlines file colored (String.ofList t) (part ++ firstRow (t ++ after))
      (firstRow t).length := by
  have hcolumn : d.span.column = 1 + part.length := hlocated.column_eq
  have hslice := slice_of_located hlocated hstop
  obtain ⟨c, w, rfl, hc⟩ := hhead
  have hrow : 1 ≤ (firstRow (c :: w)).length := List.length_pos_iff.mpr (firstRow_ne_nil hc)
  have hline : firstRow (part ++ (c :: w ++ after)) = part ++ firstRow (c :: w ++ after) :=
    firstRow_append_of_forall (hlocated.not_isLineEnd hc) _
  constructor
  case slice_eq => exact hslice
  case physical =>
    have hstart : d.span.start = byteLength before + byteLength part := hlocated.offset_eq
    rw [hlocated.chars_eq, hstart, ← hline]
    refine physicalLine_firstRow hlocated.begins ?_
    rw [hline, byteLength_append]
    exact Nat.lt_add_of_pos_right (byteLength_pos (firstRow_ne_nil hc))
  case width_eq => rw [String.toList_ofList]
  case width_pos => exact hrow
  case column_pos => omega
  case covered =>
    rw [hcolumn, Nat.add_sub_cancel_left, List.drop_left, String.toList_ofList, take_firstRow]
  case render_eq =>
    have hat : file.lineAt d.span.line =
        .ok (String.ofList (part ++ firstRow (c :: w ++ after))) := by
      rw [← hline]
      exact hlocated.lineAt_eq
    rw [render_eq_of_lineAt hat (by omega), caretCount_eq hslice hcolumn hrow]

end Diagnostic

end LuaLex
