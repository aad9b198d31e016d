import LuaLex.Diagnostic
import LuaLex.Proofs.LinePartition

/-!
# Every diagnostic can be shown

A diagnostic may carry any span, also one that has nothing to do with the file it is shown with.
Rendering takes the predecessor of a column and of a line number, reads the table of lines, cuts the
text and brings a number between two bounds, and each of these can fail. Here they are written as
steps that do, and no span makes one fail.

* `SourceFile.lineAt?`, `Diagnostic.render?`: the same work as `lineAt` and `render`, in steps that
  can fail. `lineAt?_eq` and `render?_eq` say that they never do and that the answers are the same.
* `SourceFile.slice_cases`: a span covers a text of the file, or the failure is reported.
* `rendering_safe`: what is shown of a file for a diagnostic.
-/

namespace LuaLex

/-! ## Steps that can fail -/

/-- The difference of two numbers, if there is one. -/
def minus? (m n : Nat) : Option Nat := if n ≤ m then some (m - n) else none

/-- A number brought between two bounds, if these are in order. -/
def clamp? (low high n : Nat) : Option Nat :=
  if low ≤ high then some (if n < low then low else if high < n then high else n) else none

theorem minus?_eq {m n : Nat} (h : n ≤ m) : minus? m n = some (m - n) := if_pos h

theorem clamp?_eq {low high : Nat} (h : low ≤ high) (n : Nat) :
    clamp? low high n = some (max low (min n high)) := by
  rw [clamp?, if_pos h]
  split
  · congr 1
    omega
  · split
    · congr 1
      omega
    · congr 1
      omega

/-! ## Cutting -/

theorem dropBytes?_eq_some {cs w : List Char} {n : Nat} (h : dropBytes? cs n = some w) :
    ∃ v, cs = v ++ w ∧ byteLength v = n := by
  fun_induction dropBytes? cs n with
  | case1 cs =>
    cases h
    exact ⟨[], rfl, rfl⟩
  | case2 => cases h
  | case3 c cs n hle ih =>
    obtain ⟨v, rfl, hv⟩ := ih h
    refine ⟨c :: v, rfl, ?_⟩
    rw [byteLength_cons, hv]
    omega
  | case4 => cases h

theorem takeBytes?_eq_some {cs v : List Char} {n : Nat} (h : takeBytes? cs n = some v) :
    ∃ w, cs = v ++ w ∧ byteLength v = n := by
  fun_induction takeBytes? cs n generalizing v with
  | case1 cs =>
    cases h
    exact ⟨cs, rfl, rfl⟩
  | case2 => cases h
  | case3 c cs n hle ih =>
    obtain ⟨v, hv, rfl⟩ := Option.map_eq_some_iff.mp h
    obtain ⟨w, rfl, hbytes⟩ := ih hv
    refine ⟨w, rfl, ?_⟩
    rw [byteLength_cons, hbytes]
    omega
  | case4 => cases h

/-- What is cut out of a text begins and ends where characters of the text do. -/
theorem sliceBytes?_eq_some {cs v : List Char} {start stop : Nat}
    (h : sliceBytes? cs start stop = some v) :
    ∃ u w, cs = u ++ (v ++ w) ∧ start = byteLength u ∧ stop = byteLength u + byteLength v := by
  unfold sliceBytes? at h
  by_cases hle : start ≤ stop
  · rw [if_pos hle] at h
    obtain ⟨tail, htail, hv⟩ := Option.bind_eq_some_iff.mp h
    obtain ⟨u, rfl, hu⟩ := dropBytes?_eq_some htail
    obtain ⟨w, rfl, hbytes⟩ := takeBytes?_eq_some hv
    exact ⟨u, w, rfl, hu.symm, by omega⟩
  · rw [if_neg hle] at h
    cases h

namespace SourceFile

/-- The span reaches from the beginning of one character of the file to the beginning of another one
that does not come before it, or to the end. -/
def Covers (file : SourceFile) (span : Span) (text : List Char) : Prop :=
  ∃ before after, file.chars = before ++ (text ++ after) ∧ span.start = byteLength before ∧
    span.stop = byteLength before + byteLength text

theorem slice_of_covers {file : SourceFile} {span : Span} {text : List Char}
    (h : file.Covers span text) : file.slice span = .ok (String.ofList text) := by
  obtain ⟨before, after, hchars, hstart, hstop⟩ := h
  rw [slice, hstart, hstop, cut_append hchars]
  rfl

/-- A span covers a text of the file, or there is no such text and the failure tells so. -/
theorem slice_cases (file : SourceFile) (span : Span) :
    (∃ text, file.Covers span text ∧ file.slice span = .ok (String.ofList text)) ∨
      (∀ text, ¬file.Covers span text) ∧ file.slice span =
        .error (.spanOutOfBounds file.content.utf8ByteSize span.start span.stop) := by
  cases hcut : sliceBytes? file.chars span.start span.stop with
  | some text =>
    have hcovers : file.Covers span text := sliceBytes?_eq_some hcut
    exact Or.inl ⟨text, hcovers, slice_of_covers hcovers⟩
  | none =>
    have herror : file.slice span =
        .error (.spanOutOfBounds file.content.utf8ByteSize span.start span.stop) := by
      rw [slice, cut, hcut]
      rfl
    refine Or.inr ⟨fun text hcovers => ?_, herror⟩
    cases herror.symm.trans (slice_of_covers hcovers)

/-! ## The line -/

/-- The text of a line, counted from one, in steps that can fail: the predecessor of the number, the
entry of the table, and the cut. -/
def lineAt? (file : SourceFile) (line : Nat) : Option (Except Error String) :=
  if line = 0 ∨ file.lineStarts.size < line then
    some (.error (.invalidLineNumber line file.lineStarts.size))
  else do
    let entry ← minus? line 1
    let start ← file.lineStarts[entry]?
    let stop := file.lineStarts[line]?.getD file.content.utf8ByteSize
    let cs ← sliceBytes? file.chars start stop
    return .ok (String.ofList (trimLineEnd cs))

theorem sliceBytes?_of_cut {file : SourceFile} {start stop : Nat} {cs : List Char}
    (h : file.cut start stop = .ok cs) : sliceBytes? file.chars start stop = some cs := by
  unfold cut at h
  cases hcut : sliceBytes? file.chars start stop with
  | some _ =>
    rw [hcut] at h
    cases h
    rfl
  | none =>
    rw [hcut] at h
    cases h

/-- **A line can be had or its number is refused**; no step on the way fails. -/
theorem lineAt?_eq (file : SourceFile) (line : Nat) :
    file.lineAt? line = some (file.lineAt line) := by
  obtain ⟨lines, endings, hlines⟩ := exists_lines file.chars
  have hsize : file.lineStarts.size = lines.length := by rw [size_lineStarts, hlines.length_eq]
  unfold lineAt?
  by_cases hline : 1 ≤ line ∧ line ≤ lines.length
  · have hk : lines[line - 1]? = some lines[line - 1] := List.getElem?_eq_getElem (by omega)
    have hat := lineAt_of_lines hlines hk
    obtain ⟨start, hstart, hcut⟩ := cut_of_lines hlines hk
    rw [Nat.sub_add_cancel hline.1] at hat hcut
    have htrim := hlines.trimLineEnd_eq hk
    rw [if_neg (by omega), minus?_eq hline.1, hat]
    simp only [Option.bind_eq_bind, Option.bind_some, hstart, sliceBytes?_of_cut hcut, htrim]
    rfl
  · rw [if_pos (by omega), lineAt_error hlines hline, hsize]

end SourceFile

/-! ## The rendering -/

namespace Diagnostic

/-- The quoted line and the underline below it, in steps that can fail: the predecessor of the
column and the bounds of the number of carets. -/
def quotation? (d : Diagnostic) (file : SourceFile) (line : String) : Option String := do
  let indent ← minus? (max d.span.column 1) 1
  let width ← clamp? 1 (max (line.length - indent) 1) (d.caretWish file)
  let gutter := toString d.span.line
  return "\n" ++ gutter ++ " | " ++ line ++
    "\n" ++ repeated gutter.length ' ' ++ " | " ++ repeated indent ' ' ++ repeated width '^'

/-- A diagnostic as it is shown, in steps that can fail. -/
def render? (d : Diagnostic) (file : SourceFile) (colored : Bool) : Option String := do
  let quoted ←
    match ← file.lineAt? d.span.line with
    | .ok line => d.quotation? file line
    | .error _ => some ""
  return d.header file colored ++ quoted ++
    String.join (d.notes.map fun note => "\n  = note: " ++ note)

variable (d : Diagnostic) (file : SourceFile)

theorem one_le_caretColumn : 1 ≤ d.caretColumn := Nat.le_max_right _ _

theorem one_le_caretRoom (line : String) : 1 ≤ d.caretRoom line := Nat.le_max_right _ _

theorem quotation?_eq (line : String) : d.quotation? file line = some (d.quotation file line) := by
  unfold quotation?
  rw [show max d.span.column 1 = d.caretColumn from rfl, minus?_eq d.one_le_caretColumn]
  show (clamp? 1 (d.caretRoom line) (d.caretWish file)).bind _ = _
  rw [clamp?_eq (d.one_le_caretRoom line)]
  rfl

/-- **No step of a rendering fails**, and what comes out is the rendering. -/
theorem render?_eq (colored : Bool) :
    d.render? file colored = some (d.render file colored) := by
  unfold render? render
  rw [file.lineAt?_eq]
  cases file.lineAt d.span.line with
  | ok line =>
    show (d.quotation? file line).bind _ = _
    rw [d.quotation?_eq file]
    rfl
  | error e => rfl

/-- There is at least one caret. -/
theorem one_le_caretCount (line : String) : 1 ≤ d.caretCount file line := Nat.le_max_left _ _

/-- The carets end where the line does, but one is always shown. -/
theorem caretCount_le (line : String) :
    d.caretCount file line ≤ max 1 (line.length - (d.caretColumn - 1)) := by
  have hroom : d.caretRoom line = max (line.length - (d.caretColumn - 1)) 1 := rfl
  have hcount : d.caretCount file line = max 1 (min (d.caretWish file) (d.caretRoom line)) := rfl
  omega

/-- What is shown of a file for a diagnostic, whatever span it carries. -/
structure Shown (d : Diagnostic) (file : SourceFile) (colored : Bool) : Prop where
  /-- No step fails. -/
  steps : d.render? file colored = some (d.render file colored)
  /-- The span covers a text of the file, or it is refused. -/
  covered : (∃ text, file.Covers d.span text ∧ file.slice d.span = .ok (String.ofList text)) ∨
    (∀ text, ¬file.Covers d.span text) ∧ file.slice d.span =
      .error (.spanOutOfBounds file.content.utf8ByteSize d.span.start d.span.stop)
  /-- A line of the file is quoted and underlined. The carets are at least one, and no more than
  what the column leaves of the line unless that is nothing. -/
  quoted : 1 ≤ d.span.line ∧ d.span.line ≤ 1 + lineBreaks file.chars file.chars.length →
    ∃ line w, file.lineAt d.span.line = .ok line ∧
      d.render file colored = d.header file colored ++
        ("\n" ++ toString d.span.line ++ " | " ++ line ++
          "\n" ++ String.ofList (List.replicate (toString d.span.line).length ' ') ++ " | " ++
            String.ofList (List.replicate (max d.span.column 1 - 1) ' ') ++
            String.ofList (List.replicate w '^')) ++
        String.join (d.notes.map fun note => "\n  = note: " ++ note) ∧
      1 ≤ w ∧ w ≤ max 1 (line.length - (max d.span.column 1 - 1)) ∧
      (max d.span.column 1 ≤ line.length → max d.span.column 1 - 1 + w ≤ line.length)
  /-- Without such a line there is nothing between the header and the notes. -/
  bare : ¬(1 ≤ d.span.line ∧ d.span.line ≤ 1 + lineBreaks file.chars file.chars.length) →
    file.lineAt d.span.line = .error (.invalidLineNumber d.span.line file.lineStarts.size) ∧
      d.render file colored = d.header file colored ++
        String.join (d.notes.map fun note => "\n  = note: " ++ note)

/-- **Every diagnostic can be shown**: no step fails, the quoted line is there exactly if the file
has a line of that number, and the carets do not go past its end. -/
theorem rendering_safe (colored : Bool) : d.Shown file colored := by
  obtain ⟨lines, endings, hlines⟩ := exists_lines file.chars
  constructor
  case steps => exact d.render?_eq file colored
  case covered => exact file.slice_cases d.span
  case quoted =>
    intro hline
    rw [← hlines.length_eq] at hline
    obtain ⟨line, -, hat⟩ := SourceFile.exists_lineAt hlines hline
    refine ⟨_, d.caretCount file _, hat, ?_, d.one_le_caretCount file _, d.caretCount_le file _, ?_⟩
    · simp only [render, hat, quotation, repeated, caretColumn]
    · intro hcolumn
      have hle := d.caretCount_le file (String.ofList line)
      have hone := d.one_le_caretColumn
      simp only [caretColumn] at hle hone
      omega
  case bare =>
    intro hline
    rw [← hlines.length_eq] at hline
    have hat := SourceFile.lineAt_error hlines hline
    rw [hlines.length_eq, ← file.size_lineStarts] at hat
    refine ⟨hat, ?_⟩
    simp only [render, hat, String.append_empty]

/-- A span that runs backwards past the end of an empty file, with a column that does not exist. -/
example :
    (⟨.error, "gone", ⟨9, 2, 1, 0⟩, []⟩ : Diagnostic).render (.ofText "a.lua" "") false =
      "a.lua:1:0: error: gone\n1 | \n  | ^" := by
  decide +kernel

end Diagnostic

end LuaLex
