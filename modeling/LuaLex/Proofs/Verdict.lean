import LuaLex.Proofs.Reading

/-!
# Verdicts

What the scanners of lexemes can answer, on any source and however they are run.

* `Answers P m`: every answer of the program `m` is one of `P`. It is kept by sequencing and by the
  loop.
* `sound_lexemeOf`: the verdict on a lexeme that begins with a character is never the end of input,
  and it has a defect exactly when its category is `unknown`.
-/

namespace LuaLex

namespace Scan

/-! ## Answers of a program -/

/-- Every answer of the program is one of `P`. -/
def Answers {α : Type} (P : α → Prop) (m : Scan α) : Prop :=
  ∀ ⦃c a c'⦄, m c = .ok a c' → P a

theorem bind_eq_ok {α β : Type} {m : Scan α} {f : α → Scan β} {c c'' : Cursor} {b : β}
    (h : (m >>= f) c = .ok b c'') : ∃ a c', m c = .ok a c' ∧ f a c' = .ok b c'' := by
  cases e : m c with
  | ok a c' => exact ⟨a, c', rfl, by rwa [bind_ok e] at h⟩
  | error x c' =>
    rw [bind_error e] at h
    cases h

namespace Answers

variable {α β : Type} {P : α → Prop}

theorem pure {a : α} (h : P a) : Answers P (Pure.pure a : Scan α) := by
  intro c b c' e
  cases e
  exact h

/-- What comes first may restrict the answers of the rest. -/
theorem bind_of {Q : β → Prop} {m : Scan β} {f : β → Scan α} (hm : Answers Q m)
    (hf : ∀ b, Q b → Answers P (f b)) : Answers P (m >>= f) := by
  intro c a c' h
  obtain ⟨b, c₁, hb, h⟩ := bind_eq_ok h
  exact hf b (hm hb) h

theorem bind {m : Scan β} {f : β → Scan α} (hf : ∀ b, Answers P (f b)) : Answers P (m >>= f) :=
  bind_of (fun _ _ _ _ => True.intro) fun b _ => hf b

theorem ite {p : Prop} [Decidable p] {m n : Scan α} (hm : Answers P m) (hn : Answers P n) :
    Answers P (if p then m else n) := by
  split <;> assumption

/-- The answer of a loop is the answer of the round that stops it. -/
theorem loop {body : β → Scan (Round β α)} {progress : Progress body}
    (hbody : ∀ b, Answers (fun round => ∀ a, round = .stop a → P a) (body b)) (b : β) :
    Answers P (Scan.loop body progress b) := by
  intro c a c' h
  fun_induction Scan.loop body progress b c with
  | case1 b c b' c₁ e _ ih => exact ih h
  | case2 b c a' c₁ e =>
    cases h
    exact hbody b e a rfl
  | case3 b c x c₁ e => cases h

end Answers

end Scan

open Scan

/-! ## Symbols -/

theorem Symbol.mem_table {text : String} {kind : TokenKind} (h : Symbol.kind? text = some kind) :
    (text, kind) ∈ Symbol.table := by
  obtain ⟨l₁, l₂, htable, -⟩ := List.lookup_eq_some_iff.mp h
  rw [htable]
  simp

/-- The symbols of the table are well formed and are not the end of input. -/
theorem Symbol.kind?_ne {text : String} {kind : TokenKind} (h : Symbol.kind? text = some kind) :
    kind ≠ .endOfInput ∧ kind ≠ .unknown := by
  have htable : ∀ entry ∈ Symbol.table, entry.2 ≠ .endOfInput ∧ entry.2 ≠ .unknown := by
    decide
  exact htable _ (Symbol.mem_table h)

namespace Lexer

/-! ## The scanners of lexemes -/

/-- The verdict on a lexeme that has a first character. -/
structure Verdict.Sound (verdict : Verdict) : Prop where
  not_end : verdict.1 ≠ .endOfInput
  unknown_iff : verdict.1 = .unknown ↔ verdict.2.isSome

theorem Verdict.Sound.accepted {kind : TokenKind} (h : kind ≠ .endOfInput ∧ kind ≠ .unknown) :
    (Verdict.accepted kind).Sound :=
  ⟨h.1, by simpa [Verdict.accepted] using h.2⟩

theorem Verdict.Sound.malformed (defect : Defect) : (Verdict.malformed defect).Sound :=
  ⟨by simp [Verdict.malformed], by simp [Verdict.malformed]⟩

theorem sound_name : Answers Verdict.Sound name :=
  .bind fun _ => .bind fun _ =>
    .ite (.pure (.accepted (by simp))) (.pure (.accepted (by simp)))

theorem sound_number : Answers Verdict.Sound number :=
  .bind fun _ => .bind fun _ =>
    .ite (.pure (.accepted (by simp))) (.pure (.malformed _))

theorem sound_quotedBody (quote : Char) : Answers Verdict.Sound (quotedBody quote) := by
  refine .loop (fun _ => .bind fun o => ?_) ()
  cases o with
  | none =>
    refine .pure fun a h => ?_
    cases h
    exact .malformed _
  | some c =>
    refine .ite (.bind fun _ => .pure (by simp)) (.ite (.pure fun a h => ?_) (.pure (by simp)))
    cases h
    exact .accepted (by simp)

theorem sound_bracketBody : Answers Verdict.Sound bracketBody := by
  refine .bind fun _ => .ite (.bind fun o => ?_) (.pure (.accepted (by simp)))
  cases o with
  | none => exact .pure (.malformed _)
  | some level =>
    exact .bind fun _ => .ite (.pure (.accepted (by simp))) (.pure (.malformed _))

theorem sound_symbolBody (first : Char) : Answers Verdict.Sound (symbolBody first) := by
  refine .bind fun _ => .bind fun _ => .bind fun c => ?_
  cases hk : Symbol.kind? c.text with
  | none => exact .pure (.malformed _)
  | some kind => exact .pure (.accepted (Symbol.kind?_ne hk))

/-- **The verdict on a lexeme that has a first character** is not the end of input, and it has a
defect exactly when the lexeme is malformed. -/
theorem sound_lexemeOf (c : Char) : Answers Verdict.Sound (lexemeOf c) :=
  .ite sound_name <| .ite sound_number <|
    .ite (.bind fun _ => sound_quotedBody c) <|
    .ite (.bind fun _ => sound_bracketBody) <|
    .bind fun _ => sound_symbolBody c

/-! ## The scanners of trivia -/

/-- The only defect of a comment is that it is not closed. -/
theorem sound_comment :
    Answers (fun defect => defect = none ∨ defect = some .unterminatedLongComment) comment := by
  have hline : Answers (fun defect => defect = none ∨ defect = some .unterminatedLongComment)
      restOfLine := .bind fun _ => .pure (Or.inl rfl)
  refine .bind fun _ => .bind fun _ => .bind fun _ =>
    .ite (.bind fun _ => .bind fun o => ?_) hline
  cases o with
  | none => exact hline
  | some level => exact .bind fun _ => .ite (.pure (Or.inl rfl)) (.pure (Or.inr rfl))

end Lexer

end LuaLex
