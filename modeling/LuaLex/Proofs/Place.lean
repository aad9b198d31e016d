import LuaLex.Cursor

/-!
# Places in a text

Where a text leads from a given place. A line ends behind a line feed, and behind a carriage return
that no line feed follows; so the place behind a text depends on the character after it, and all
statements here are about a text `w` in front of a rest.

* `Position.behind p w rest` is the place behind `w`. Its offset and line are sums
  (`behind_offset`, `behind_line`), and it composes (`behind_append`).
* `exists_lineStart`: from the beginning of a line on, the column is one more than the number of
  characters behind the last line break.
* `behind_line_le`, `behind_column_le`: neither counter outgrows the number of characters.
-/

namespace LuaLex

/-- The number of bytes of a text in UTF-8. -/
def byteLength : List Char → Nat
  | [] => 0
  | c :: cs => c.utf8Size + byteLength cs

@[simp] theorem byteLength_nil : byteLength [] = 0 := rfl

@[simp] theorem byteLength_cons (c : Char) (cs : List Char) :
    byteLength (c :: cs) = c.utf8Size + byteLength cs := rfl

@[simp] theorem byteLength_append (v w : List Char) :
    byteLength (v ++ w) = byteLength v + byteLength w := by
  induction v with
  | nil => rw [List.nil_append, byteLength_nil, Nat.zero_add]
  | cons c v ih => rw [List.cons_append, byteLength_cons, byteLength_cons, ih, Nat.add_assoc]

theorem byteLength_pos {cs : List Char} (h : cs ≠ []) : 0 < byteLength cs := by
  cases cs with
  | nil => exact absurd rfl h
  | cons c cs =>
    have := c.utf8Size_pos
    rw [byteLength_cons]
    omega

/-- The count agrees with the size of the string. -/
theorem byteLength_toList (s : String) : byteLength s.toList = s.utf8ByteSize := by
  have h : ∀ cs : List Char, byteLength cs = (String.ofList cs).utf8ByteSize := by
    intro cs
    induction cs with
    | nil => rfl
    | cons c cs ih =>
      rw [byteLength_cons, ih, show c :: cs = [c] ++ cs from rfl, String.ofList_append,
        String.utf8ByteSize_append, ← String.singleton_eq_ofList, String.utf8ByteSize_singleton]
  rw [h, String.ofList_toList]

/-! ## Line breaks -/

/-- Whether a line ends behind `c` when `follower` is the character after it. -/
def endsLine (c : Char) (follower : Option Char) : Bool :=
  c == '\n' || (c == '\r' && follower != some '\n')

/-- Whether a line ends behind the `i`-th character of a text. -/
def endsLineAt (cs : List Char) (i : Nat) : Bool :=
  cs[i]?.any fun c => endsLine c cs[i + 1]?

/-- The number of line breaks among the first `n` characters of a text. -/
def lineBreaks (cs : List Char) (n : Nat) : Nat :=
  (List.range n).countP (endsLineAt cs)

@[simp] theorem lineBreaks_zero (cs : List Char) : lineBreaks cs 0 = 0 := rfl

theorem endsLineAt_succ (c : Char) (cs : List Char) (i : Nat) :
    endsLineAt (c :: cs) (i + 1) = endsLineAt cs i := by
  simp [endsLineAt]

theorem lineBreaks_cons (c : Char) (cs : List Char) (n : Nat) :
    lineBreaks (c :: cs) (n + 1) =
      (if endsLine c cs.head? then 1 else 0) + lineBreaks cs n := by
  have h : endsLineAt (c :: cs) 0 = endsLine c cs.head? := by
    simp [endsLineAt, List.head?_eq_getElem?]
  have hs : endsLineAt (c :: cs) ∘ Nat.succ = endsLineAt cs := by
    funext i
    exact endsLineAt_succ c cs i
  rw [lineBreaks, List.range_succ_eq_map, List.countP_cons, List.countP_map, hs, h, Nat.add_comm]
  rfl

/-- The breaks of a text are those of its first part and those of the rest. -/
theorem lineBreaks_append (v w : List Char) (n : Nat) :
    lineBreaks (v ++ w) (v.length + n) = lineBreaks (v ++ w) v.length + lineBreaks w n := by
  induction v with
  | nil => simp
  | cons c v ih =>
    rw [List.cons_append, List.length_cons, Nat.add_right_comm, lineBreaks_cons, lineBreaks_cons,
      ih, Nat.add_assoc]

theorem endsLineAt_append (v w : List Char) (i : Nat) :
    endsLineAt (v ++ w) (v.length + i) = endsLineAt w i := by
  rw [endsLineAt, endsLineAt, Nat.add_assoc, List.getElem?_append_right (Nat.le_add_right _ _),
    List.getElem?_append_right (Nat.le_add_right _ _), Nat.add_sub_cancel_left,
    Nat.add_sub_cancel_left]

theorem lineBreaks_le (cs : List Char) (n : Nat) : lineBreaks cs n ≤ n := by
  have := List.countP_le_length (p := endsLineAt cs) (l := List.range n)
  simpa [lineBreaks] using this

/-- No line ends among characters that hold no break. -/
theorem endsLineAt_eq_false {cs : List Char} {n i : Nat} (h : lineBreaks cs n = 0) (hi : i < n) :
    endsLineAt cs i = false := by
  have := List.countP_eq_zero.mp h i (List.mem_range.mpr hi)
  simpa using this

/-- A line begins between two parts of a text: at the very beginning, or behind a line break. -/
def LineStart (before after : List Char) : Prop :=
  before = [] ∨ ∃ v c, before = v ++ [c] ∧ endsLine c after.head? = true

/-! ## The place behind a text -/

namespace Position

/-- The place behind `c`, which stands at `p` in front of `follower`. -/
def step (p : Position) (c : Char) (follower : Option Char) : Position :=
  if endsLine c follower then ⟨p.offset + c.utf8Size, p.line + 1, 1⟩
  else ⟨p.offset + c.utf8Size, p.line, p.column + 1⟩

/-- The place behind the first text, which stands at `p` in front of the second. -/
def behind (p : Position) : List Char → List Char → Position
  | [], _ => p
  | c :: w, rest => (p.step c (w ++ rest).head?).behind w rest

/-- The span of a text that reaches from `p` to `q`. -/
def spanTo (p q : Position) : Span := ⟨p.offset, q.offset, p.line, p.column⟩

/-- The place at which a span begins. -/
def ofSpan (span : Span) : Position := ⟨span.start, span.line, span.column⟩

@[simp] theorem ofSpan_spanTo (p q : Position) : ofSpan (p.spanTo q) = p := rfl

@[simp] theorem behind_nil (p : Position) (rest : List Char) : p.behind [] rest = p := rfl

theorem behind_cons (p : Position) (c : Char) (w rest : List Char) :
    p.behind (c :: w) rest = (p.step c (w ++ rest).head?).behind w rest := rfl

theorem behind_append (p : Position) (v w rest : List Char) :
    p.behind (v ++ w) rest = (p.behind v (w ++ rest)).behind w rest := by
  induction v generalizing p with
  | nil => rfl
  | cons c v ih => rw [List.cons_append, behind_cons, behind_cons, ih, List.append_assoc]

theorem step_offset (p : Position) (c : Char) (follower : Option Char) :
    (p.step c follower).offset = p.offset + c.utf8Size := by
  unfold step
  split <;> rfl

theorem step_line (p : Position) (c : Char) (follower : Option Char) :
    (p.step c follower).line = p.line + if endsLine c follower then 1 else 0 := by
  unfold step
  split <;> rfl

theorem behind_offset (p : Position) (w rest : List Char) :
    (p.behind w rest).offset = p.offset + byteLength w := by
  induction w generalizing p with
  | nil => rfl
  | cons c w ih => rw [behind_cons, ih, step_offset, byteLength_cons, Nat.add_assoc]

/-- From the beginning on the offset counts the bytes. -/
theorem origin_behind_offset (w rest : List Char) :
    (origin.behind w rest).offset = byteLength w := by
  rw [behind_offset]
  exact Nat.zero_add _

theorem behind_line (p : Position) (w rest : List Char) :
    (p.behind w rest).line = p.line + lineBreaks (w ++ rest) w.length := by
  induction w generalizing p with
  | nil => rfl
  | cons c w ih =>
    rw [behind_cons, ih, step_line, List.cons_append, List.length_cons, lineBreaks_cons,
      Nat.add_assoc]

/-- Either the text holds no break and every character counts for the column, or the column counts
the characters behind the last break. -/
theorem behind_column (p : Position) (w rest : List Char) :
    (lineBreaks (w ++ rest) w.length = 0 ∧ (p.behind w rest).column = p.column + w.length) ∨
      ∃ v c part, w = v ++ c :: part ∧ endsLine c (part ++ rest).head? = true ∧
        lineBreaks (part ++ rest) part.length = 0 ∧ (p.behind w rest).column = 1 + part.length := by
  induction w generalizing p with
  | nil => exact Or.inl ⟨rfl, rfl⟩
  | cons c w ih =>
    rw [behind_cons]
    rcases ih (p.step c (w ++ rest).head?) with ⟨hw, hcol⟩ | ⟨v, d, part, rfl, hd, hp, hcol⟩
    · by_cases hc : endsLine c (w ++ rest).head? = true
      · refine Or.inr ⟨[], c, w, rfl, hc, hw, ?_⟩
        rw [hcol, step, if_pos hc]
      · refine Or.inl ⟨?_, ?_⟩
        · rw [List.cons_append, List.length_cons, lineBreaks_cons, if_neg hc, hw]
        · rw [hcol, step, if_neg hc, List.length_cons, Nat.add_comm w.length, ← Nat.add_assoc]
    · exact Or.inr ⟨c :: v, d, part, rfl, hd, hp, hcol⟩

/-- From the beginning of a line on, the column counts the characters behind the last place where a
line begins. -/
theorem exists_lineStart {p : Position} (hp : p.column = 1) (w rest : List Char) :
    ∃ before part, w = before ++ part ∧ LineStart before (part ++ rest) ∧
      lineBreaks (part ++ rest) part.length = 0 ∧ (p.behind w rest).column = 1 + part.length := by
  rcases behind_column p w rest with ⟨hw, hcol⟩ | ⟨v, c, part, rfl, hc, hpart, hcol⟩
  · exact ⟨[], w, rfl, Or.inl rfl, hw, by rw [hcol, hp]⟩
  · exact ⟨v ++ [c], part, by simp, Or.inr ⟨v, c, rfl, hc⟩, hpart, hcol⟩

theorem behind_line_le (p : Position) (w rest : List Char) :
    (p.behind w rest).line ≤ p.line + w.length := by
  rw [behind_line]
  exact Nat.add_le_add_left (lineBreaks_le _ _) _

theorem behind_column_le {p : Position} (hp : 1 ≤ p.column) (w rest : List Char) :
    (p.behind w rest).column ≤ p.column + w.length := by
  rcases behind_column p w rest with ⟨-, hcol⟩ | ⟨v, c, part, rfl, -, -, hcol⟩
  · exact Nat.le_of_eq hcol
  · rw [hcol, List.length_append, List.length_cons]
    omega

end Position

end LuaLex
