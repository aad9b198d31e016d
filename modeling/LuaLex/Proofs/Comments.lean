import LuaLex.Proofs.Lexing
import LuaLex.Proofs.LongBrackets

/-!
# How far comments reach

Behind its two hyphens a comment goes to the leftmost closing bracket of the long bracket that it
opens, or to the end of its line. The scanner decides between the two with two characters in sight,
although an opening bracket may be of any length: what it has taken for an opening bracket in vain
belongs to the line.

* `Lexer.Comments`: what is taken behind two hyphens, the defect of the comment, and what is left.
* `Comments.takes`, `exists_comments`: the scanner does so, and on every text.
* `Comments.takes_triviaText`: the comment is the next piece of trivia.
-/

namespace LuaLex.Lexer

open Scan LongBracket

/-- The text opens no long bracket. -/
def OpensNone (cs : List Char) : Prop := ∀ level rest, cs ≠ opener level ++ rest

/-- What is in front of the end of the line. -/
def inLine (c : Char) : Bool := !CharClass.isLineEnd c

/-- What is taken of a text behind two hyphens, the defect of the comment, and what is left. -/
inductive Comments : List Char → Option Defect → List Char → List Char → Prop
  /-- A long comment reaches to the leftmost closing bracket of its level. -/
  | long {level : Nat} {body rest : List Char} :
      Leftmost (closer level) body (body ++ (closer level ++ rest)) →
        Comments (opener level ++ (body ++ (closer level ++ rest))) none
          (opener level ++ (body ++ closer level)) rest
  /-- A long comment that is not closed reaches to the end. -/
  | unclosed {level : Nat} {cs : List Char} : Absent (closer level) cs →
      Comments (opener level ++ cs) (some .unterminatedLongComment) (opener level ++ cs) []
  /-- Any other comment reaches to the end of its line. -/
  | line {cs : List Char} : OpensNone cs →
      Comments cs none (cs.takeWhile inLine) (cs.dropWhile inLine)

/-! ## Which comments are long -/

section Openings

variable {cs : List Char}

theorem takes_opensLong_false (h : cs.head? ≠ some '[') (v : List Char) :
    Takes opensLong v cs false [] cs := by
  refine (Takes.bind_iff (.current v cs)).mpr ?_
  rw [if_neg h]
  exact .pure _ _ _

/-- Behind a first bracket the second character decides. -/
theorem takes_opensLong (v : List Char) :
    Takes opensLong v ('[' :: cs) (cs.head? == some '[' || cs.head? == some '=') []
      ('[' :: cs) := by
  refine (Takes.bind_iff (.current v ('[' :: cs))).mpr ?_
  rw [List.head?_cons, if_pos rfl]
  refine (Takes.bind_iff (.peek 1 v ('[' :: cs))).mpr ?_
  rw [List.getElem?_cons_succ, ← List.head?_eq_getElem?]
  exact .pure _ _ _

end Openings

/-! ## Where comments end -/

section Ends

variable {cs w rest : List Char} {level : Nat} {defect : Option Defect}

theorem takes_restOfLine (v cs : List Char) :
    Takes restOfLine v cs none (cs.takeWhile inLine) (cs.dropWhile inLine) :=
  (takes_eatWhile inLine v cs).bind_still (.pure _ _ _)

/-- A comment that opens a long bracket ends as the bracket does. -/
theorem takes_commentBody_opener {closed : Bool}
    (h : ∀ v, Takes (closing level) v cs closed w rest) (v : List Char) :
    Takes commentBody v (opener level ++ cs)
      (if closed then none else some .unterminatedLongComment) (opener level ++ w) rest := by
  have htaken : opener level ++ w = '[' :: (List.replicate level '=' ++ ['['] ++ w) := by
    simp [opener]
  rw [opener_append, htaken]
  refine (Takes.bind_iff (takes_opensLong v)).mpr ?_
  have hsecond : ((List.replicate level '=' ++ '[' :: cs).head? == some '[' ||
      (List.replicate level '=' ++ '[' :: cs).head? == some '=') = true := by
    cases level <;> rfl
  rw [if_pos hsecond]
  refine (Takes.advance_cons v '[' _).bind ((takes_opening level _ cs).bind ?_)
  refine (h _).bind_still ?_
  cases closed with
  | true => exact .pure _ _ _
  | false => exact .pure _ _ _

/-- Equals signs behind a bracket belong to the line if no second bracket follows them. -/
theorem takes_commentBody_signs (n : Nat) (hsign : cs.head? ≠ some '=')
    (hbracket : cs.head? ≠ some '[') (v : List Char) :
    Takes commentBody v ('[' :: (List.replicate n '=' ++ cs)) none
      ('[' :: (List.replicate n '=' ++ cs.takeWhile inLine)) (cs.dropWhile inLine) := by
  refine (Takes.bind_iff (takes_opensLong v)).mpr ?_
  cases n with
  | zero =>
    have hsecond : ¬(cs.head? == some '[' || cs.head? == some '=') = true := by
      simp [hsign, hbracket]
    rw [List.replicate_zero, List.nil_append, if_neg hsecond]
    exact takes_restOfLine v ('[' :: cs)
  | succ n =>
    rw [if_pos (by simp [List.replicate_succ])]
    refine (Takes.advance_cons v '[' _).bind ?_
    exact (takes_opening_none (n + 1) _ hsign hbracket).bind (takes_restOfLine _ cs)

theorem takes_commentBody_line (h : OpensNone cs) (v : List Char) :
    Takes commentBody v cs none (cs.takeWhile inLine) (cs.dropWhile inLine) := by
  by_cases hhead : cs.head? = some '['
  · obtain ⟨cs, rfl⟩ := List.head?_eq_some_iff.mp hhead
    obtain ⟨n, cs, rfl, hsign⟩ := exists_signs cs
    have hbracket : cs.head? ≠ some '[' := by
      intro hbracket
      obtain ⟨rest, rfl⟩ := List.head?_eq_some_iff.mp hbracket
      exact h n rest (opener_append n rest).symm
    have hline : ∀ c ∈ '[' :: List.replicate n '=', inLine c = true := by
      refine List.forall_mem_cons.mpr ⟨rfl, fun c hc => ?_⟩
      rw [List.eq_of_mem_replicate hc]
      rfl
    rw [← List.cons_append, List.takeWhile_append_of_pos hline, List.dropWhile_append_of_pos hline]
    exact takes_commentBody_signs n hsign hbracket v
  · refine (Takes.bind_iff (takes_opensLong_false hhead v)).mpr ?_
    exact takes_restOfLine v cs

/-- **Behind two hyphens** so much is taken. -/
theorem Comments.takes (h : Comments cs defect w rest) (v : List Char) :
    Takes commentBody v cs defect w rest := by
  cases h with
  | long hleftmost => exact takes_commentBody_opener (takes_closing hleftmost) v
  | unclosed habsent => exact takes_commentBody_opener (takes_closing_absent habsent) v
  | line hopens => exact takes_commentBody_line hopens v

theorem Comments.split (h : Comments cs defect w rest) : cs = w ++ rest := (h.takes []).split

/-- There is one extent of a comment. -/
theorem Comments.unique {defect' : Option Defect} {w' rest' : List Char}
    (h : Comments cs defect w rest) (h' : Comments cs defect' w' rest') :
    defect = defect' ∧ w = w' ∧ rest = rest' :=
  (h.takes []).unique (h'.takes [])

theorem exists_comments (cs : List Char) : ∃ defect w rest, Comments cs defect w rest := by
  by_cases hopens : OpensNone cs
  · exact ⟨_, _, _, .line hopens⟩
  · obtain ⟨level, cs, rfl⟩ : ∃ level cs', cs = opener level ++ cs' := by
      simpa [OpensNone] using hopens
    rcases closing_cases level [] cs with ⟨body, rest, rfl, hleftmost, -⟩ | ⟨habsent, -⟩
    · exact ⟨_, _, _, .long hleftmost⟩
    · exact ⟨_, _, _, .unclosed habsent⟩

theorem Comments.takes_comment (h : Comments cs defect w rest) (v : List Char) :
    Takes comment v ('-' :: '-' :: cs) defect ('-' :: '-' :: w) rest :=
  (Takes.advance_cons v '-' ('-' :: cs)).bind ((Takes.advance_cons _ '-' cs).bind (h.takes _))

/-- **A comment is a piece of trivia.** -/
theorem Comments.takes_triviaText (h : Comments cs defect w rest) :
    Takes triviaText [] ('-' :: '-' :: cs) (some (.comment, defect)) ('-' :: '-' :: w) rest := by
  refine (Takes.bind_iff (.current [] ('-' :: '-' :: cs))).mpr ?_
  simp only [List.head?_cons]
  rw [if_neg (by decide), if_neg (by decide), if_neg (by decide), if_pos trivial]
  refine (Takes.bind_iff (.peek 1 [] ('-' :: '-' :: cs))).mpr ?_
  rw [if_pos (show ('-' :: '-' :: cs)[1]? = some '-' from rfl)]
  exact (h.takes_comment []).bind_still (.pure _ _ _)

end Ends

end LuaLex.Lexer
