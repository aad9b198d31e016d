import LuaLex.Proofs.MaximalMunch
import LuaLex.Proofs.TriviaPieces

/-!
# The extent of comments

Whether a comment is long is decided by all that follows its hyphens, however long the opening
bracket is: it is long exactly if a whole opening bracket follows. Then the leftmost closing bracket
of its level ends it, and otherwise the end of its line.

* `CommentExtent`: how far a comment has to reach.
* `comments_reach_exactly`: the scanner of comments goes so far on every text, and so do the
  comments of every text.
-/

namespace LuaLex

open Scan LongBracket Lexer

/-- How far a comment reaches behind its hyphens: of the text `cs` there it takes `w` and leaves
`rest`, with this defect. -/
structure CommentExtent (cs : List Char) (defect : Option Defect) (w rest : List Char) : Prop where
  split : cs = w ++ rest
  /-- Behind an opening bracket it goes up to the leftmost closing bracket of the same level. -/
  closed : ∀ level text inner, cs = opener level ++ text → Leftmost (closer level) inner text →
    w = opener level ++ (inner ++ closer level) ∧ defect = none
  /-- If there is none, it goes to the end. -/
  unclosed : ∀ level text, cs = opener level ++ text → Absent (closer level) text →
    w = cs ∧ defect = some .unterminatedLongComment
  /-- Without an opening bracket it goes to the end of the line. -/
  line : (∀ level text, cs ≠ opener level ++ text) →
    LongestPrefix (fun v => ∀ c ∈ v, c ≠ '\n' ∧ c ≠ '\r') w cs ∧ defect = none

section Comments

variable {cs w rest : List Char} {defect : Option Defect}

theorem inLine_iff (c : Char) : inLine c = true ↔ c ≠ '\n' ∧ c ≠ '\r' := by
  simp [inLine, CharClass.isLineEnd]

/-- A comment reaches as far as it has to. -/
theorem Lexer.Comments.extent (h : Comments cs defect w rest) :
    CommentExtent cs defect w rest where
  split := h.split
  closed := by
    rintro level text inner rfl hleftmost
    obtain ⟨rest', rfl⟩ := hleftmost.begins
    rw [List.append_assoc] at h hleftmost
    obtain ⟨hdefect, hw, -⟩ := h.unique (.long hleftmost)
    exact ⟨hw, hdefect⟩
  unclosed := by
    rintro level text rfl habsent
    obtain ⟨hdefect, hw, -⟩ := h.unique (.unclosed habsent)
    exact ⟨hw, hdefect⟩
  line := by
    intro hopens
    obtain ⟨hdefect, rfl, -⟩ := h.unique (.line hopens)
    exact ⟨longest_takeWhile inLine_iff cs, hdefect⟩

end Comments

/-- **Comments reach exactly so far.** Behind its two hyphens a comment takes a long bracket with
its text and the leftmost closing bracket of the same level, or all that is left if there is none,
and then it has a defect; if no opening bracket of any level follows, it takes the rest of its line.
The comments of every text are taken so where they stand. -/
theorem comments_reach_exactly :
    (∀ v cs, ∃ defect w rest, CommentExtent cs defect w rest ∧
        Takes comment v ('-' :: '-' :: cs) defect ('-' :: '-' :: w) rest) ∧
      ∀ s, ∃ tokens, tokenize s = .ok tokens ∧ ∀ t ∈ tokens, ∀ u ∈ t.leadingTrivia,
        u.kind = .comment → ∃ cs w rest, CommentExtent cs u.defect w rest ∧
          dropBytes? s.toList u.span.start = some ('-' :: '-' :: cs) ∧
          u.text.toList = '-' :: '-' :: w := by
  constructor
  · intro v cs
    obtain ⟨defect, w, rest, h⟩ := exists_comments cs
    exact ⟨defect, w, rest, h.extent, h.takes_comment v⟩
  · intro s
    obtain ⟨tokens, htokens⟩ := exists_tokenize s
    refine ⟨tokens, htokens, fun t ht u hu hkind => ?_⟩
    obtain ⟨before, cs, hs, hstart, ⟨hmark, -⟩ | ⟨rest, htakes⟩⟩ := trivia_of_tokenize htokens ht hu
    · cases hkind.symm.trans hmark.kind
    · have hpieces := pieces_of_takes htakes
      rw [hkind] at hpieces
      generalize hw : u.text.toList = text at hpieces
      cases hpieces with
      | comment h =>
        refine ⟨_, _, _, h.extent, ?_, rfl⟩
        rw [hs, hstart, dropBytes?_append]

end LuaLex
