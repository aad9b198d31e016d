import LuaLex.Lexer.Lexeme
import LuaLex.Lexer.Trivia
import LuaLex.Utf8

/-!
# The lexer

Splits a source into tokens. A lexer can be asked for the next token again and again, also after
the end of input and after a fault (`nextToken`), or be run as a stream that ends behind the first
end of input or fault (`next?`, `drain`).

* `next?_load_lt`: as a stream a lexer comes nearer to its end with every answer, so `drain` ends.
-/

namespace LuaLex

/-- A lexer at some place of its source. -/
structure Lexer where
  cursor : Cursor
  /-- Whether the place for a byte order mark has been passed. -/
  started : Bool
  /-- Whether the stream of tokens has ended. -/
  finished : Bool

/-- What a stream of tokens is made of. -/
abbrev Outcome := Except Fault Token

/-- A stream of tokens ends with the end of input and with a fault. -/
def Outcome.isLast : Outcome → Bool
  | .ok token => token.isEndOfInput
  | .error _ => true

namespace Lexer

open Scan

/-- A lexer at the beginning of a source. -/
def ofSource (source : Source) : Lexer := ⟨.ofSource source, false, false⟩

/-- A lexer at the beginning of a text. -/
def ofString (s : String) : Lexer := ofSource (.ofString s)

/-- A lexer at the beginning of what a reader delivers. -/
def ofScript (script : Script) : Lexer := ofSource (.ofScript script)

/-- Where the lexer has come to. -/
def position (lexer : Lexer) : Position := lexer.cursor.position

/-- A byte order mark is looked for only at the first token. -/
def markOf (started : Bool) : Scan (List Trivia) :=
  if started then pure [] else byteOrderMark

/-- Takes a token with the trivia in front of it. -/
def token (started : Bool) : Scan Token := do
  let mark ← markOf started
  let found ← trivia
  begin
  let (kind, defect) ← lexeme
  let (text, span) ← finish
  return ⟨kind, text, mark ++ found, span, defect⟩

/-- Hands out the next token. At the end of input that is an empty token, however often it is asked
for. A fault is reported once; what was taken for the token by then is dropped, and lexing goes on
behind it. -/
def nextToken (lexer : Lexer) : Outcome × Lexer :=
  match token lexer.started lexer.cursor with
  | .ok token cursor => (.ok token, { lexer with cursor, started := true })
  | .error e cursor => (.error e, { lexer with cursor, started := true })

/-- The next answer of the stream: `none` behind the end of input or a fault. -/
def next? (lexer : Lexer) : Option Outcome × Lexer :=
  if lexer.finished then (none, lexer)
  else
    let (outcome, lexer') := lexer.nextToken
    (some outcome, { lexer' with finished := outcome.isLast })

/-! ## The stream ends -/

/-- An upper bound on the answers still to come. -/
def load (lexer : Lexer) : Nat :=
  if lexer.finished then 0 else lexer.cursor.size + 1

theorem takesWhen_token (started : Bool) (c : Cursor) :
    TakesWhen (!·.isEndOfInput) c (token started) := by
  refine .bind (.ite (.pure _) shrinks_byteOrderMark) fun m c₁ _ =>
    .bind shrinks_trivia fun found c₂ _ => .bind shrinks_begin fun _ c₃ _ =>
    .bind_or shrinks_lexeme (takesWhen_lexeme c₃) ?_ ?_
  · exact fun _ _ => .bind shrinks_finish fun _ => .pure _
  · intro verdict c₄ hv
    refine .bind shrinks_finish fun _ _ _ => .pure ?_
    simp only [ne_eq, Decidable.not_not] at hv
    simp [Token.isEndOfInput, hv]

theorem nextToken_size_lt {lexer lexer' : Lexer} {token : Token}
    (h : lexer.nextToken = (.ok token, lexer')) (ht : token.isEndOfInput = false) :
    lexer'.cursor.size < lexer.cursor.size := by
  unfold nextToken at h
  split at h
  · rename_i t cursor e
    injection h with h₁ h₂
    cases h₁
    subst h₂
    exact takesWhen_token _ _ e (by simp [ht])
  · injection h with h₁
    cases h₁

theorem next?_load_lt {lexer lexer' : Lexer} {outcome : Outcome}
    (h : lexer.next? = (some outcome, lexer')) : lexer'.load < lexer.load := by
  unfold next? at h
  split at h
  · cases h
  · rename_i hf
    simp only at h
    injection h with h₁ h₂
    injection h₁ with h₁
    subst h₂
    unfold load
    simp only [hf]
    rw [h₁]
    cases outcome with
    | error e => simp [Outcome.isLast]
    | ok t =>
      cases ht : t.isEndOfInput with
      | true => simp [Outcome.isLast, ht]
      | false =>
        have : lexer.nextToken = (.ok t, lexer.nextToken.2) := by rw [← h₁]
        have := nextToken_size_lt this ht
        simpa [Outcome.isLast, ht] using this

/-! ## Whole streams -/

/-- Adds all answers still to come to those in `found`. -/
def drainOnto (found : Array Outcome) (lexer : Lexer) : Array Outcome × Lexer :=
  match h : lexer.next? with
  | (none, lexer') => (found, lexer')
  | (some outcome, lexer') =>
    have := next?_load_lt h
    drainOnto (found.push outcome) lexer'
termination_by lexer.load

/-- All answers still to come. -/
def drain (lexer : Lexer) : List Outcome × Lexer :=
  let (found, lexer') := drainOnto #[] lexer
  (found.toList, lexer')

theorem drainOnto_append (base found : Array Outcome) (lexer : Lexer) :
    drainOnto (base ++ found) lexer =
      (base ++ (drainOnto found lexer).1, (drainOnto found lexer).2) := by
  fun_induction drainOnto found lexer with
  | case1 found lexer lexer' h => rw [drainOnto]; split <;> simp_all
  | case2 found lexer outcome lexer' h _ ih =>
    rw [drainOnto, ← ih, ← Array.push_append]
    split <;> simp_all

/-- The stream is its first answer, followed by the stream from there on. -/
theorem drain_eq (lexer : Lexer) :
    lexer.drain =
      match lexer.next? with
      | (none, lexer') => ([], lexer')
      | (some outcome, lexer') => (outcome :: lexer'.drain.1, lexer'.drain.2) := by
  simp only [drain]
  rw [drainOnto]
  split
  · rename_i h
    simp [h]
  · rename_i outcome lexer' h
    have := drainOnto_append #[outcome] #[] lexer'
    simp_all

theorem drain_finished (c : Cursor) (started : Bool) :
    (⟨c, started, true⟩ : Lexer).drain.1 = [] := by
  rw [drain_eq]
  rfl

/-- The stream goes on behind a token unless it is the last one. -/
theorem drain_unfinished (c : Cursor) (started : Bool) :
    (⟨c, started, false⟩ : Lexer).drain.1 =
      match token started c with
      | .error e _ => [.error e]
      | .ok t c' =>
        .ok t :: if t.isEndOfInput then [] else (⟨c', true, false⟩ : Lexer).drain.1 := by
  rw [drain_eq]
  simp only [next?, nextToken, Bool.false_eq_true, if_false]
  cases token started c with
  | error e c' => simp only [Outcome.isLast, drain_finished]
  | ok t c' =>
    cases ht : t.isEndOfInput with
    | true => simp only [Outcome.isLast, ht, drain_finished, if_true]
    | false => simp only [Outcome.isLast, ht, Bool.false_eq_true, if_false]

/-- All tokens of a source, or the first fault. -/
def tokens (lexer : Lexer) : Except Fault (List Token) :=
  lexer.drain.1.mapM id

/-- The tokens are the first one, followed by those from there on unless it is the last. -/
theorem tokens_eq (c : Cursor) (started : Bool) :
    (⟨c, started, false⟩ : Lexer).tokens =
      match token started c with
      | .error e _ => .error e
      | .ok t c' =>
        if t.isEndOfInput then .ok [t]
        else (⟨c', true, false⟩ : Lexer).tokens.map (t :: ·) := by
  rw [tokens, drain_unfinished]
  cases token started c with
  | error e c' => rfl
  | ok t c' =>
    cases ht : t.isEndOfInput with
    | true => simp only [ht, if_true]; rfl
    | false =>
      simp only [ht, Bool.false_eq_true, if_false, List.mapM_cons]
      rfl
end Lexer

/-- Splits a text into tokens. -/
def tokenize (s : String) : Except Fault (List Token) := (Lexer.ofString s).tokens

/-- Splits what a reader delivers into tokens. -/
def tokenizeScript (script : Script) : Except Fault (List Token) := (Lexer.ofScript script).tokens

end LuaLex
