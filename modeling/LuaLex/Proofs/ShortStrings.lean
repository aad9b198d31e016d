import LuaLex.Proofs.LineTable
import LuaLex.Proofs.QuotedStrings
import LuaLex.Proofs.RoundTrip

/-!
# Which texts are strings in quotes

A text between quotes is a string exactly if it is a sequence of units, and there is at most one
such text in front of a quote. So every text can be written between quotes: with a backslash in
front of each backslash and each quote it is a sequence of units.

* `QuotedUnits.unique`: which units a quote closes.
* `quotedForm q b`: the text `b` between quotes `q`, with its backslashes and quotes protected.
* `exists_lexes_quotedForm`: it is a token, whatever follows.
* `quoted_strings_exact`: which texts are strings, which are not closed, and that every text can be
  written as a string.
-/

namespace LuaLex

open Scan Lexer

/-! ## Units -/

/-- The units that a quote closes are found in one way only. -/
theorem Lexer.QuotedUnits.unique {q : Char} {u u' rest rest' : List Char} (hq : q ≠ '\\')
    (h : QuotedUnits q u) (h' : QuotedUnits q u') (heq : u ++ q :: rest = u' ++ q :: rest') :
    u = u' := by
  have htakes := takes_quotedBody hq h [] rest
  rw [heq] at htakes
  obtain ⟨-, hlexeme, -⟩ := htakes.unique (takes_quotedBody hq h' [] rest')
  exact List.append_cancel_right hlexeme

/-- The text with a backslash in front of each backslash and each quote. -/
def protect (q : Char) (cs : List Char) : List Char :=
  cs.flatMap fun c => if c = '\\' ∨ c = q then ['\\', c] else [c]

theorem quotedUnits_protect (q : Char) (cs : List Char) : QuotedUnits q (protect q cs) := by
  induction cs with
  | nil => exact .nil
  | cons c cs ih =>
    rw [protect, List.flatMap_cons]
    by_cases hc : c = '\\' ∨ c = q
    · rw [if_pos hc]
      exact .escaped ih
    · rw [if_neg hc]
      exact .plain (fun h => hc (Or.inl h)) (fun h => hc (Or.inr h)) ih

/-- The text `b` as a string between quotes `q`. -/
def quotedForm (q : Char) (b : String) : String :=
  String.ofList (q :: (protect q b.toList ++ [q]))

/-! ## Tokens in quotes -/

/-- The two quotes. -/
def IsQuote (q : Char) : Prop := q = '"' ∨ q = '\''

section Tokens

variable {q : Char} {cs w rest : List Char} {verdict : Verdict}

theorem IsQuote.ne_slash (hq : IsQuote q) : q ≠ '\\' := by
  rcases hq with rfl | rfl <;> decide

theorem IsQuote.takes_lexeme_iff (hq : IsQuote q) :
    Takes lexeme [] (q :: cs) verdict w rest ↔ Takes (quoted q) [] (q :: cs) verdict w rest := by
  have hscan : lexemeOf q = quoted q := by rcases hq with rfl | rfl <;> rfl
  rw [← hscan]
  exact Takes.bind_iff (.current [] (q :: cs))

/-- Quotes begin a token without trivia. -/
theorem IsQuote.startsTrivia (hq : IsQuote q) (cs : List Char) :
    startsTrivia (q :: cs) = false := by
  rcases hq with rfl | rfl <;> rfl

/-- A text in quotes in front of anything is lexed as one token. -/
theorem exists_lexes_quotedForm (hq : IsQuote q) (b v : String) :
    ∃ ts, Lexes false (quotedForm q b ++ v).toList
      (⟨.string, quotedForm q b, [], .dummy, none⟩ :: ts) := by
  obtain ⟨ts, hts⟩ := exists_lexes true v.toList
  have htext : (quotedForm q b ++ v).toList = q :: (protect q b.toList ++ q :: v.toList) := by
    simp [quotedForm]
  have hquotes : Quotes q (q :: (protect q b.toList ++ q :: v.toList)) _ _ _ :=
    .string (quotedUnits_protect q b.toList)
  have hlexeme := hq.takes_lexeme_iff.mpr (hquotes.takes hq.ne_slash [])
  have hmark : (q :: (protect q b.toList ++ q :: v.toList)).head? ≠ some '\ufeff' := by
    rcases hq with rfl | rfl <;> simp
  rw [htext]
  exact ⟨ts, .more (.mk (.absent hmark) (.stop (hq.startsTrivia _)) hlexeme) rfl hts⟩

/-- A token that begins with a quote is taken as strings in quotes are. -/
theorem quotes_of_tokenize (hq : IsQuote q) {s : String} {tokens : List Token} {t : Token}
    (h : tokenize s = .ok tokens) (ht : t ∈ tokens)
    (hbegins : dropBytes? s.toList t.span.start = some (q :: cs)) :
    ∃ rest, Quotes q (q :: cs) (t.kind, t.defect) t.lexeme.toList rest := by
  obtain ⟨before, cs', rest, hs, hstart, -, htakes⟩ := lexeme_of_tokenize h ht
  rw [hs, hstart, dropBytes?_append] at hbegins
  obtain rfl := Option.some.inj hbegins
  exact ⟨rest, quotes_of_takes hq.ne_slash (hq.takes_lexeme_iff.mp htakes)⟩

/-- What is accepted is a sequence of units with a quote behind it. -/
theorem takes_string_iff (hq : q ≠ '\\') (v : List Char) :
    Takes (quoted q) v (q :: cs) (.accepted .string) w rest ↔
      ∃ u, QuotedUnits q u ∧ cs = u ++ q :: rest ∧ w = q :: (u ++ [q]) := by
  constructor
  · intro h
    have hquotes := quotes_of_takes hq h
    generalize htext : q :: cs = text at hquotes
    generalize hverdict : Verdict.accepted .string = verdict at hquotes
    cases hquotes with
    | string hu => exact ⟨_, hu, (List.cons.inj htext).2, rfl⟩
    | unclosed _ => cases congrArg Prod.snd hverdict
  · rintro ⟨u, hu, rfl, rfl⟩
    exact (Quotes.string hu).takes hq v

end Tokens

/-- **Strings in quotes are accepted exactly.** What stands behind a quote is a string if it begins
with units and a quote, and these are all of it; there is one choice of such units at most, and if
there is none, all that is left is taken as a string that is not closed. So are the tokens of every
text that begin with a quote. Every text becomes a string, whatever follows, when its backslashes
and quotes are protected. -/
theorem quoted_strings_exact {q : Char} (hq : IsQuote q) :
    (∀ v cs w rest, Takes (quoted q) v (q :: cs) (.accepted .string) w rest ↔
        ∃ u, QuotedUnits q u ∧ cs = u ++ q :: rest ∧ w = q :: (u ++ [q])) ∧
      (∀ u u' rest rest', QuotedUnits q u → QuotedUnits q u' →
        u ++ q :: rest = u' ++ q :: rest' → u = u') ∧
      (∀ v cs, (∀ u rest, QuotedUnits q u → cs ≠ u ++ q :: rest) →
        Takes (quoted q) v (q :: cs) (.malformed .unterminatedString) (q :: cs) []) ∧
      (∀ s, ∃ tokens, tokenize s = .ok tokens ∧ ∀ t ∈ tokens, ∀ cs,
        dropBytes? s.toList t.span.start = some (q :: cs) →
          ∃ rest, Quotes q (q :: cs) (t.kind, t.defect) t.lexeme.toList rest) ∧
      ∀ b v, ∃ later, tokenize (quotedForm q b ++ v) = .ok
        (⟨.string, quotedForm q b, [], ⟨0, (quotedForm q b).utf8ByteSize, 1, 1⟩, none⟩ ::
          later) := by
  refine ⟨fun v cs w rest => takes_string_iff hq.ne_slash v, ?_, ?_, ?_, ?_⟩
  · intro u u' rest rest' hu hu' heq
    exact hu.unique hq.ne_slash hu' heq
  · intro v cs hnone
    exact (Quotes.unclosed hnone).takes hq.ne_slash v
  · intro s
    obtain ⟨tokens, htokens⟩ := exists_tokenize s
    exact ⟨tokens, htokens, fun t ht cs hbegins => quotes_of_tokenize hq htokens ht hbegins⟩
  · intro b v
    obtain ⟨ts, hlexes⟩ := exists_lexes_quotedForm hq b v
    have htokens := tokenize_of_lexes hlexes
    rw [layOutTokens_cons, Token.placed_alone] at htokens
    exact ⟨_, htokens⟩

/-- A backslash between quotes is written twice, and the second one does not protect the quote. -/
theorem quoted_strings_exact_slash :
    IsQuote '\'' ∧ ∃ later, tokenize "'\\\\'x" = .ok
      (⟨.string, "'\\\\'", [], ⟨0, 4, 1, 1⟩, none⟩ :: later) := by
  have hq : IsQuote '\'' := Or.inr rfl
  exact ⟨hq, (quoted_strings_exact hq).2.2.2.2 "\\" "x"⟩

end LuaLex
