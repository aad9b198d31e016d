import LuaLex.Proofs.LineTable
import LuaLex.Proofs.RoundTrip
import LuaLex.Proofs.WordSearch

/-!
# Maximal munch

Names, numbers and symbols are taken as long as they go, and what was taken decides the category of
the token. The first character decides which of the three it is.

* `LongestPrefix P w cs`: of the beginnings of `cs` with the property `P`, the longest is `w`.
* `takes_name`, `takes_number`, `takes_symbol`: the outcomes of the three scanners on every text.
* `longest_symbol`: the rule by which a symbol goes on for a second character finds the longest text
  in the table of symbols.
* `telling_lexemeOf`: which categories and defects tell what a lexeme begins with.
* `tokenize_maximal_munch`: every token of a text is munched from where it stands.
-/

namespace LuaLex

/-! ## Longest beginnings -/

/-- Of the beginnings of `cs` that have the property `P`, the longest is `w`. -/
structure LongestPrefix (P : List Char → Prop) (w cs : List Char) : Prop where
  begins : w <+: cs
  holds : P w
  longest : ∀ v, v <+: cs → P v → v.length ≤ w.length

/-- A run of characters of a class is the longest beginning made of that class. -/
theorem longest_takeWhile {P : Char → Prop} {p : Char → Bool} (hp : ∀ c, p c = true ↔ P c)
    (cs : List Char) : LongestPrefix (fun v => ∀ c ∈ v, P c) (cs.takeWhile p) cs where
  begins := List.takeWhile_prefix p
  holds c hc := (hp c).mp (List.all_eq_true.mp List.all_takeWhile c hc)
  longest := by
    rintro v ⟨rest, rfl⟩ hv
    rw [List.takeWhile_append_of_pos fun c hc => (hp c).mpr (hv c hc), List.length_append]
    exact Nat.le_add_right _ _

/-! ## What a lexeme can begin with -/

/-- Names begin with an ASCII letter or an underscore. -/
def StartsName (c : Char) : Prop := c.isAlpha = true ∨ c = '_'

/-- Names go on with ASCII letters, digits and underscores. -/
def InName (c : Char) : Prop := c.isAlpha = true ∨ c.isDigit = true ∨ c = '_'

/-- Numbers go on with digits, points and the letters `e` and `x`. -/
def InNumber (c : Char) : Prop := c.isDigit = true ∨ c = '.' ∨ c = 'e' ∨ c = 'x'

/-- The 22 reserved words, which no name may be. -/
def reservedWords : List String := [
  "and", "break", "do", "else", "elseif", "end", "false", "for", "function", "goto", "if",
  "in", "local", "nil", "not", "or", "repeat", "return", "then", "true", "until", "while"]

/-- What ends a number well: a semicolon, a space, a tab, a line break character or the end. -/
def EndsNumber (next : Option Char) : Prop :=
  next = none ∨ ∃ c ∈ [';', ' ', '\t', '\n', '\r'], next = some c

/-- Symbols begin with what begins neither a name nor a number nor a string, and is no opening
square bracket. -/
structure StartsSymbol (c : Char) : Prop where
  not_name : ¬StartsName c
  not_digit : c.isDigit = false
  not_quote : c ≠ '"' ∧ c ≠ '\''
  not_bracket : c ≠ '['

/-- A text in the table of symbols. -/
def IsSymbol (v : List Char) : Prop := (Symbol.kind? (String.ofList v)).isSome

theorem isIdentStart_iff (c : Char) : CharClass.isIdentStart c = true ↔ StartsName c := by
  simp [CharClass.isIdentStart, StartsName, or_comm]

theorem isIdentContinue_iff (c : Char) : CharClass.isIdentContinue c = true ↔ InName c := by
  simp only [CharClass.isIdentContinue, CharClass.isIdentStart, InName, Bool.or_eq_true,
    beq_iff_eq]
  grind

theorem isNumberChar_iff (c : Char) : CharClass.isNumberChar c = true ↔ InNumber c := by
  simp [CharClass.isNumberChar, InNumber, or_assoc]

theorem endsNumber_iff (next : Option Char) :
    CharClass.endsNumber next = true ↔ EndsNumber next := by
  cases next with
  | none => simp [CharClass.endsNumber, EndsNumber]
  | some c => simp [CharClass.endsNumber, EndsNumber, or_assoc]

theorem Keyword.isKeyword_iff_mem (word : String) :
    isKeyword word = true ↔ word ∈ reservedWords := by
  have htable : table.toList = reservedWords := rfl
  rw [isKeyword, search_iff_mem rising_table, ← htable, Array.mem_toList_iff]

instance : DecidablePred IsSymbol := fun _ => inferInstanceAs (Decidable (_ = true))

/-- No digit begins a name. -/
theorem not_isIdentStart_of_isDigit {c : Char} (h : c.isDigit = true) :
    ¬CharClass.isIdentStart c = true := by
  rw [isIdentStart_iff]
  rintro (halpha | rfl)
  · -- the digits stand in front of both kinds of letters
    have hdigit : c.val ≤ '9'.val := of_decide_eq_true (Bool.and_eq_true_iff.mp h).2
    have hletter : 'A'.val ≤ c.val := by
      rcases Bool.or_eq_true_iff.mp halpha with hupper | hlower
      · exact (of_decide_eq_true hupper).1
      · have ha : 'a'.val ≤ c.val := of_decide_eq_true (Bool.and_eq_true_iff.mp hlower).1
        exact UInt32.le_trans (by decide) ha
    exact absurd (UInt32.le_trans hletter hdigit) (by decide)
  · revert h
    decide

namespace Symbol

/-! ## Symbols -/

/-- A character alone, or two of which the first goes on with the second. -/
def spelled : List Char → Bool
  | [_] => true
  | [first, next] => continues first next
  | _ => false

theorem spelled_table : ∀ entry ∈ table, spelled entry.1.toList = true := by
  decide

theorem spelled_of_isSymbol {v : List Char} (h : IsSymbol v) : spelled v = true := by
  obtain ⟨kind, hkind⟩ := Option.isSome_iff_exists.mp h
  have hspelled := spelled_table _ (mem_table hkind)
  rwa [String.toList_ofList] at hspelled

/-- What goes on for a second character is in the table. -/
theorem isSymbol_of_continues {first next : Char} (h : continues first next = true) :
    IsSymbol [first, next] := by
  unfold continues at h
  split at h
  all_goals simp only [beq_iff_eq, Bool.or_eq_true, Bool.false_eq_true] at h
  -- each way of going on makes one symbol or, behind an angle bracket, two
  case h_1 | h_2 | h_3 | h_4 | h_7 =>
    subst h
    decide
  case h_5 | h_6 =>
    rcases h with rfl | rfl
    · decide
    · decide

/-- The characters that a symbol which begins with `first` takes behind it. -/
def second (first : Char) : List Char → List Char
  | [] => []
  | next :: _ => if continues first next then [next] else []

theorem isPrefix_second (first : Char) (cs : List Char) : second first cs <+: cs := by
  cases cs with
  | nil => exact List.prefix_rfl
  | cons next cs =>
    simp only [second]
    split
    · exact ⟨cs, rfl⟩
    · exact List.nil_prefix

/-- A symbol at the beginning of a text is its first character, or goes on as the rule says. -/
theorem isSymbol_cases {first : Char} {cs v : List Char} (hv : v <+: first :: cs)
    (h : IsSymbol v) : v = [first] ∨ v = first :: second first cs := by
  obtain ⟨rest, hv⟩ := hv
  have hspelled := spelled_of_isSymbol h
  cases v with
  | nil => cases hspelled
  | cons x v =>
    obtain ⟨rfl, rfl⟩ := List.cons.inj hv
    cases v with
    | nil => exact Or.inl rfl
    | cons next v =>
      cases v with
      | nil =>
        have hnext : continues x next = true := hspelled
        refine Or.inr ?_
        show [x, next] = x :: second x (next :: rest)
        rw [second, if_pos hnext]
      | cons _ _ => cases hspelled

/-- What the rule takes is a symbol if the first character is one or any is taken behind it. -/
theorem isSymbol_second {first : Char} {cs : List Char}
    (h : IsSymbol [first] ∨ second first cs ≠ []) : IsSymbol (first :: second first cs) := by
  cases cs with
  | nil => exact h.resolve_right fun h => h rfl
  | cons next cs =>
    by_cases hnext : continues first next = true
    · simp only [second, if_pos hnext]
      exact isSymbol_of_continues hnext
    · simp only [second, if_neg hnext] at h ⊢
      exact h.resolve_right fun h => h rfl

/-- **The rule by which a symbol goes on finds the longest symbol**, if any begins here. -/
theorem longest_symbol {first : Char} {cs : List Char} (h : ∃ v, v <+: first :: cs ∧ IsSymbol v) :
    LongestPrefix IsSymbol (first :: second first cs) (first :: cs) where
  begins := (List.prefix_cons_inj first).mpr (isPrefix_second first cs)
  holds := by
    obtain ⟨v, hv, hsymbol⟩ := h
    rcases isSymbol_cases hv hsymbol with rfl | rfl
    · exact isSymbol_second (Or.inl hsymbol)
    · exact hsymbol
  longest := by
    intro v hv hsymbol
    rcases isSymbol_cases hv hsymbol with rfl | rfl
    · exact Nat.le_add_left _ _
    · exact Nat.le_refl _

/-- Where no symbol begins, the first character stands alone. -/
theorem second_eq_nil {first : Char} {cs : List Char} (h : ∀ v, v <+: first :: cs → ¬IsSymbol v) :
    second first cs = [] := by
  by_cases hnil : second first cs = []
  · exact hnil
  · exact absurd (isSymbol_second (Or.inr hnil))
      (h _ ((List.prefix_cons_inj first).mpr (isPrefix_second first cs)))

end Symbol

/-! ## The scanners -/

namespace Lexer

open Scan

/-- The category of a name. -/
def nameKind (word : String) : TokenKind :=
  if word ∈ reservedWords then .keyword else .identifier

/-- **A name** is the run of its characters, and a keyword if it is reserved. -/
theorem takes_name (cs : List Char) :
    Takes name [] cs
      (.accepted (nameKind (String.ofList (cs.takeWhile CharClass.isIdentContinue))))
      (cs.takeWhile CharClass.isIdentContinue) (cs.dropWhile CharClass.isIdentContinue) := by
  refine (takes_eatWhile _ [] cs).bind_still ?_
  refine .get fun p => ?_
  rw [List.nil_append, Cursor.text_onText]
  unfold nameKind
  by_cases hword : String.ofList (cs.takeWhile CharClass.isIdentContinue) ∈ reservedWords
  · rw [if_pos hword, if_pos ((Keyword.isKeyword_iff_mem _).mpr hword)]
    exact .pure _ _ _
  · rw [if_neg hword, if_neg (mt (Keyword.isKeyword_iff_mem _).mp hword)]
    exact .pure _ _ _

/-- The verdict on a number in front of a character or the end. -/
def numberVerdict (next : Option Char) : Verdict :=
  if CharClass.endsNumber next then .accepted .number else .malformed .invalidNumberTerminator

/-- **A number** is the run of its characters. What follows decides whether it is well formed. -/
theorem takes_number (cs : List Char) :
    Takes number [] cs (numberVerdict (cs.dropWhile CharClass.isNumberChar).head?)
      (cs.takeWhile CharClass.isNumberChar) (cs.dropWhile CharClass.isNumberChar) := by
  refine (takes_eatWhile _ [] cs).bind_still ((Takes.bind_iff (.current _ _)).mpr ?_)
  unfold numberVerdict
  split
  · exact .pure _ _ _
  · exact .pure _ _ _

/-- The verdict on the text of a symbol. -/
def symbolVerdict (text : String) : Verdict :=
  match Symbol.kind? text with
  | some kind => .accepted kind
  | none => .malformed .unknownSymbol

theorem takes_secondOf (first : Char) (v cs : List Char) :
    Takes (secondOf first cs.head?) v cs () (Symbol.second first cs)
      (cs.drop (Symbol.second first cs).length) := by
  cases cs with
  | nil => exact .pure _ _ _
  | cons next cs =>
    by_cases hnext : Symbol.continues first next = true
    · simp only [List.head?_cons, secondOf, Symbol.second, if_pos hnext]
      exact (Takes.advance_cons v next cs).bind_still (.pure _ _ _)
    · simp only [List.head?_cons, secondOf, Symbol.second, if_neg hnext]
      exact .pure _ _ _

/-- **A symbol** is its first character with what goes on behind it, judged by the table. -/
theorem takes_symbol (first : Char) (cs : List Char) :
    Takes (symbol first) [] (first :: cs)
      (symbolVerdict (String.ofList (first :: Symbol.second first cs)))
      (first :: Symbol.second first cs) (cs.drop (Symbol.second first cs).length) := by
  refine (Takes.advance_cons [] first cs).bind ((Takes.bind_iff (.current _ cs)).mpr ?_)
  refine (takes_secondOf first [first] cs).bind_still ?_
  refine .get fun p => ?_
  rw [List.singleton_append, Cursor.text_onText]
  unfold symbolVerdict
  cases Symbol.kind? (String.ofList (first :: Symbol.second first cs)) with
  | some kind => exact .pure _ _ _
  | none => exact .pure _ _ _

/-! ## What a verdict tells -/

/-- Names, numbers and symbols, and their defects, tell what the lexeme begins with. -/
structure Verdict.Telling (first : Char) (verdict : Verdict) : Prop where
  name : verdict.1 = .keyword ∨ verdict.1 = .identifier → StartsName first
  number : verdict.1 = .number ∨ verdict.2 = some .invalidNumberTerminator → first.isDigit = true
  symbol : verdict.1 = .operator ∨ verdict.1 = .punctuation ∨ verdict.1 = .bracketClose ∨
    verdict.2 = some .unknownSymbol → StartsSymbol first

/-- The verdicts on strings and on what begins with an opening square bracket. -/
def bracketedVerdicts : List Verdict := [
  .accepted .string, .accepted .bracketOpen, .malformed .unterminatedString,
  .malformed .unterminatedLongString, .malformed .invalidLongBracket]

/-- These verdicts tell nothing. -/
theorem telling_of_mem {verdict : Verdict} (h : verdict ∈ bracketedVerdicts) (first : Char) :
    verdict.Telling first := by
  have hnone : ∀ verdict ∈ bracketedVerdicts,
      ¬(verdict.1 = .keyword ∨ verdict.1 = .identifier) ∧
      ¬(verdict.1 = .number ∨ verdict.2 = some .invalidNumberTerminator) ∧
      ¬(verdict.1 = .operator ∨ verdict.1 = .punctuation ∨ verdict.1 = .bracketClose ∨
        verdict.2 = some .unknownSymbol) := by
    decide
  obtain ⟨hname, hnumber, hsymbol⟩ := hnone verdict h
  exact ⟨fun h => absurd h hname, fun h => absurd h hnumber, fun h => absurd h hsymbol⟩

theorem telling_name {first : Char} (h : StartsName first) : Answers (Verdict.Telling first) name :=
  .bind fun _ => .bind fun _ => .ite
    (.pure ⟨fun _ => h, by simp [Verdict.accepted], by simp [Verdict.accepted]⟩)
    (.pure ⟨fun _ => h, by simp [Verdict.accepted], by simp [Verdict.accepted]⟩)

theorem telling_number {first : Char} (h : first.isDigit = true) :
    Answers (Verdict.Telling first) number :=
  .bind fun _ => .bind fun _ => .ite
    (.pure ⟨by simp [Verdict.accepted], fun _ => h, by simp [Verdict.accepted]⟩)
    (.pure ⟨by simp [Verdict.malformed], fun _ => h, by simp [Verdict.malformed]⟩)

theorem mem_verdicts_quotedBody (quote : Char) :
    Answers (· ∈ bracketedVerdicts) (quotedBody quote) := by
  refine .loop (fun _ => .bind fun o => ?_) ()
  cases o with
  | none =>
    refine .pure fun a h => ?_
    cases h
    decide
  | some c =>
    refine .ite (.bind fun _ => .pure (by simp)) (.ite (.pure fun a h => ?_) (.pure (by simp)))
    cases h
    decide

theorem mem_verdicts_bracketBody : Answers (· ∈ bracketedVerdicts) bracketBody := by
  refine .bind fun _ => .ite (.bind fun o => ?_) (.pure (by decide))
  cases o with
  | none => exact .pure (by decide)
  | some level => exact .bind fun _ => .ite (.pure (by decide)) (.pure (by decide))

theorem telling_symbolBody {first : Char} (h : StartsSymbol first) :
    Answers (Verdict.Telling first) (symbolBody first) := by
  have htable : ∀ entry ∈ Symbol.table,
      ¬(entry.2 = .keyword ∨ entry.2 = .identifier) ∧ entry.2 ≠ .number := by
    decide
  refine .bind fun _ => .bind fun _ => .bind fun c => ?_
  cases hk : Symbol.kind? c.text with
  | none => exact .pure ⟨by simp [Verdict.malformed], by simp [Verdict.malformed], fun _ => h⟩
  | some kind =>
    obtain ⟨hname, hnumber⟩ := htable _ (Symbol.mem_table hk)
    refine .pure ⟨fun h => absurd h hname, fun h => absurd h ?_, fun _ => h⟩
    simpa [Verdict.accepted] using hnumber

/-- **What a lexeme begins with is told** by the categories of names, numbers and symbols. -/
theorem telling_lexemeOf (c : Char) : Answers (Verdict.Telling c) (lexemeOf c) := by
  unfold lexemeOf
  split
  · rename_i h
    exact telling_name ((isIdentStart_iff c).mp h)
  rename_i hname
  split
  · rename_i h
    exact telling_number h
  rename_i hdigit
  split
  · exact .bind fun _ => fun _ _ _ h => telling_of_mem (mem_verdicts_quotedBody c h) c
  rename_i hquote
  split
  · exact .bind fun _ => fun _ _ _ h => telling_of_mem (mem_verdicts_bracketBody h) c
  · rename_i hbracket
    refine .bind fun _ => telling_symbolBody ⟨?_, by simpa using hdigit, ?_, hbracket⟩
    · rwa [← isIdentStart_iff]
    · simpa [CharClass.isQuote] using hquote

/-! ## Which scanner runs -/

theorem lexemeOf_of_name {c : Char} (h : StartsName c) : lexemeOf c = name := by
  rw [lexemeOf, if_pos ((isIdentStart_iff c).mpr h)]

theorem lexemeOf_of_digit {c : Char} (h : c.isDigit = true) : lexemeOf c = number := by
  rw [lexemeOf, if_neg (not_isIdentStart_of_isDigit h), if_pos h]

theorem lexemeOf_of_symbol {c : Char} (h : StartsSymbol c) : lexemeOf c = symbol c := by
  have hname : ¬CharClass.isIdentStart c = true := by
    rw [isIdentStart_iff]
    exact h.not_name
  have hquote : ¬CharClass.isQuote c = true := by
    simpa [CharClass.isQuote] using h.not_quote
  rw [lexemeOf, if_neg hname, if_neg (by simp [h.not_digit]), if_neg hquote, if_neg h.not_bracket]

end Lexer

/-! ## Tokens -/

/-- A token that begins with `c` in front of `cs` is munched: it is as long as its class allows, and
its category says what was taken. -/
structure Munched (c : Char) (cs : List Char) (t : Token) : Prop where
  name : StartsName c →
    LongestPrefix (fun v => ∀ x ∈ v, InName x) t.lexeme.toList (c :: cs) ∧ t.defect = none ∧
      t.kind = if t.lexeme ∈ reservedWords then .keyword else .identifier
  number : c.isDigit = true →
    LongestPrefix (fun v => ∀ x ∈ v, InNumber x) t.lexeme.toList (c :: cs) ∧
      (EndsNumber (c :: cs)[t.lexeme.length]? → t.kind = .number ∧ t.defect = none) ∧
      (¬EndsNumber (c :: cs)[t.lexeme.length]? →
        t.kind = .unknown ∧ t.defect = some .invalidNumberTerminator)
  symbol : StartsSymbol c → (∃ v, v <+: c :: cs ∧ IsSymbol v) →
    LongestPrefix IsSymbol t.lexeme.toList (c :: cs) ∧ Symbol.kind? t.lexeme = some t.kind ∧
      t.defect = none
  /-- Where no symbol begins, the character stands alone. -/
  stray : StartsSymbol c → (∀ v, v <+: c :: cs → ¬IsSymbol v) →
    t.lexeme.toList = [c] ∧ t.kind = .unknown ∧ t.defect = some .unknownSymbol
  /-- Only what begins so gets these categories and defects. -/
  telling : Lexer.Verdict.Telling c (t.kind, t.defect)

section Munching

open Scan Lexer

variable {c : Char} {cs rest : List Char} {t : Token}

theorem munched_name (h : Takes name [] (c :: cs) (t.kind, t.defect) t.lexeme.toList rest) :
    LongestPrefix (fun v => ∀ x ∈ v, InName x) t.lexeme.toList (c :: cs) ∧ t.defect = none ∧
      t.kind = if t.lexeme ∈ reservedWords then .keyword else .identifier := by
  obtain ⟨hverdict, hw, -⟩ := h.unique (takes_name (c :: cs))
  obtain ⟨hkind, hdefect⟩ := Prod.mk.inj hverdict
  rw [← hw, String.ofList_toList] at hkind
  refine ⟨?_, hdefect, hkind⟩
  rw [hw]
  exact longest_takeWhile isIdentContinue_iff _

theorem munched_number (h : Takes number [] (c :: cs) (t.kind, t.defect) t.lexeme.toList rest) :
    LongestPrefix (fun v => ∀ x ∈ v, InNumber x) t.lexeme.toList (c :: cs) ∧
      (EndsNumber (c :: cs)[t.lexeme.length]? → t.kind = .number ∧ t.defect = none) ∧
      (¬EndsNumber (c :: cs)[t.lexeme.length]? →
        t.kind = .unknown ∧ t.defect = some .invalidNumberTerminator) := by
  obtain ⟨hverdict, hw, hrest⟩ := h.unique (takes_number (c :: cs))
  have hnext : (c :: cs)[t.lexeme.length]? = rest.head? := by
    rw [h.split, ← String.length_toList, List.getElem?_append_right (Nat.le_refl _), Nat.sub_self,
      List.head?_eq_getElem?]
  rw [← hrest] at hverdict
  rw [hnext, ← endsNumber_iff]
  refine ⟨?_, ?_, ?_⟩
  · rw [hw]
    exact longest_takeWhile isNumberChar_iff _
  · intro hend
    rw [numberVerdict, if_pos hend] at hverdict
    exact Prod.mk.inj hverdict
  · intro hend
    rw [numberVerdict, if_neg hend] at hverdict
    exact Prod.mk.inj hverdict

theorem munched_symbol (h : Takes (symbol c) [] (c :: cs) (t.kind, t.defect) t.lexeme.toList rest)
    (hsymbol : ∃ v, v <+: c :: cs ∧ IsSymbol v) :
    LongestPrefix IsSymbol t.lexeme.toList (c :: cs) ∧ Symbol.kind? t.lexeme = some t.kind ∧
      t.defect = none := by
  obtain ⟨hverdict, hw, -⟩ := h.unique (takes_symbol c cs)
  have hlongest := Symbol.longest_symbol hsymbol
  obtain ⟨kind, hkind⟩ := Option.isSome_iff_exists.mp hlongest.holds
  rw [symbolVerdict, hkind] at hverdict
  obtain ⟨rfl, hdefect⟩ := Prod.mk.inj hverdict
  rw [← hw, String.ofList_toList] at hkind
  rw [hw]
  exact ⟨hlongest, hkind, hdefect⟩

theorem munched_stray (h : Takes (symbol c) [] (c :: cs) (t.kind, t.defect) t.lexeme.toList rest)
    (hnone : ∀ v, v <+: c :: cs → ¬IsSymbol v) :
    t.lexeme.toList = [c] ∧ t.kind = .unknown ∧ t.defect = some .unknownSymbol := by
  obtain ⟨hverdict, hw, -⟩ := h.unique (takes_symbol c cs)
  have hkind : Symbol.kind? (String.ofList [c]) = none := by
    have := hnone [c] ⟨cs, rfl⟩
    simpa [IsSymbol] using this
  rw [Symbol.second_eq_nil hnone] at hverdict hw
  rw [symbolVerdict, hkind] at hverdict
  obtain ⟨hkind', hdefect⟩ := Prod.mk.inj hverdict
  exact ⟨hw, hkind', hdefect⟩

/-- What the scanner of lexemes takes is munched. -/
theorem munched_of_takes (h : Takes lexeme [] (c :: cs) (t.kind, t.defect) t.lexeme.toList rest) :
    Munched c cs t := by
  have hscan : Takes (lexemeOf c) [] (c :: cs) (t.kind, t.defect) t.lexeme.toList rest :=
    (Takes.bind_iff (.current [] (c :: cs))).mp h
  refine ⟨?_, ?_, ?_, ?_, hscan.answers (telling_lexemeOf c)⟩
  · intro hc
    exact munched_name (lexemeOf_of_name hc ▸ hscan)
  · intro hc
    exact munched_number (lexemeOf_of_digit hc ▸ hscan)
  · intro hc
    exact munched_symbol (lexemeOf_of_symbol hc ▸ hscan)
  · intro hc
    exact munched_stray (lexemeOf_of_symbol hc ▸ hscan)

end Munching

/-- **Maximal munch.** In every text, every token but the end of input is as long as its class
allows where it stands, and it has the category of what was taken: a name is reserved exactly if it
is one of the reserved words, a number is well formed exactly if it ends in front of what may follow
it, and a symbol is the longest one in the table, or else a stray character. -/
theorem tokenize_maximal_munch (s : String) :
    ∃ tokens, tokenize s = .ok tokens ∧ ∀ t ∈ tokens, t.isEndOfInput = false →
      ∃ c cs, dropBytes? s.toList t.span.start = some (c :: cs) ∧ Munched c cs t := by
  obtain ⟨tokens, htokens⟩ := exists_tokenize s
  refine ⟨tokens, htokens, ?_⟩
  intro t ht hend
  obtain ⟨before, cs, rest, hs, hstart, -, hlexeme⟩ := lexeme_of_tokenize htokens ht
  cases cs with
  | nil =>
    rcases Lexer.lexeme_cases hlexeme with ⟨-, hverdict, -⟩ | ⟨c, w, -, hhead, -⟩
    · obtain ⟨hkind, -⟩ := Prod.mk.inj hverdict
      simp [Token.isEndOfInput, hkind] at hend
    · cases hhead
  | cons c cs =>
    refine ⟨c, cs, ?_, munched_of_takes hlexeme⟩
    rw [hs, hstart, dropBytes?_append]

end LuaLex
