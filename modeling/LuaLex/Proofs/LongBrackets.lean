import LuaLex.Lexer.Lexeme
import LuaLex.Proofs.OnText

/-!
# Where long brackets close

A long bracket closes at the leftmost closing bracket of its level, although the scanner skips a run
of equals signs at once: no closing bracket begins inside of what it skips.

* `Leftmost c body cs`: the leftmost place at which `c` stands in `cs` is behind `body`.
* `LongBracket.closing_cases`: `closing` goes to the leftmost closing bracket, or to the end of a
  text in which there is none.
* `LongBracket.takes_opening`, `takes_opening_none`: which texts open a long bracket.
* `Lexer.Brackets`, `Lexer.brackets_of_takes`: what is taken that begins with an opening bracket, on
  every text.
-/

namespace LuaLex

/-! ## Leftmost places -/

/-- The leftmost place at which `c` stands in `cs` is behind `body`. -/
structure Leftmost (c body cs : List Char) : Prop where
  begins : body ++ c <+: cs
  leftmost : ∀ u, u ++ c <+: cs → body.length ≤ u.length

/-- The text `c` stands nowhere in `cs`. -/
def Absent (c cs : List Char) : Prop := ∀ u, ¬u ++ c <+: cs

/-- The text `c` does not begin to stand in the front `b` of `b ++ cs`. -/
def Skips (c b cs : List Char) : Prop := ∀ u, u ++ c <+: b ++ cs → b.length ≤ u.length

section Places

variable {c b body body' cs rest rest' : List Char}

/-- What stands behind a part that is skipped stands in the rest. -/
theorem Skips.exists_behind (hb : Skips c b cs) {u : List Char} (h : u ++ c <+: b ++ cs) :
    ∃ u', u = b ++ u' ∧ u' ++ c <+: cs := by
  have hprefix : b <+: u := by
    refine List.prefix_of_prefix_length_le (List.prefix_append b cs) ?_ (hb u h)
    exact (List.prefix_append u c).trans h
  obtain ⟨u', rfl⟩ := hprefix
  rw [List.append_assoc, List.prefix_append_right_inj] at h
  exact ⟨u', rfl, h⟩

theorem Leftmost.here (h : c <+: cs) : Leftmost c [] cs := ⟨h, fun _ _ => Nat.zero_le _⟩

theorem Leftmost.behind (h : Leftmost c body cs) (hb : Skips c b cs) :
    Leftmost c (b ++ body) (b ++ cs) where
  begins := by
    rw [List.append_assoc]
    exact (List.prefix_append_right_inj b).mpr h.begins
  leftmost u hu := by
    obtain ⟨u', rfl, hu'⟩ := hb.exists_behind hu
    rw [List.length_append, List.length_append]
    exact Nat.add_le_add_left (h.leftmost u' hu') _

theorem Absent.behind (h : Absent c cs) (hb : Skips c b cs) : Absent c (b ++ cs) := by
  intro u hu
  obtain ⟨u', -, hu'⟩ := hb.exists_behind hu
  exact h u' hu'

/-- There is one leftmost place. -/
theorem Leftmost.unique (h : Leftmost c body cs) (h' : Leftmost c body' cs) : body = body' := by
  have hlength := Nat.le_antisymm (h.leftmost _ h'.begins) (h'.leftmost _ h.begins)
  have hbody := (List.prefix_append body c).trans h.begins
  have hbody' := (List.prefix_append body' c).trans h'.begins
  exact (List.prefix_of_prefix_length_le hbody hbody' (Nat.le_of_eq hlength)).eq_of_length hlength

/-- What follows the leftmost place does not matter. -/
theorem Leftmost.of_append (h : Leftmost c body (body ++ (c ++ rest))) :
    Leftmost c body (body ++ (c ++ rest')) where
  begins := by
    rw [← List.append_assoc]
    exact List.prefix_append _ _
  leftmost u hu := by
    refine Nat.le_of_not_lt fun hlt => ?_
    have hlength : (u ++ c).length ≤ (body ++ c).length := by
      rw [List.length_append, List.length_append]
      exact Nat.add_le_add_right (Nat.le_of_lt hlt) _
    have hbegins : body ++ c <+: body ++ (c ++ rest') := by
      rw [← List.append_assoc]
      exact List.prefix_append _ _
    have hfront := (List.prefix_of_prefix_length_le hu hbegins hlength).trans h.begins
    exact Nat.not_le_of_lt hlt (h.leftmost u hfront)

end Places

namespace LongBracket

open Scan

/-! ## Closing -/

/-- The closing bracket of a level. -/
def closer (level : Nat) : List Char := ']' :: (List.replicate level '=' ++ [']'])

theorem not_sign {cs : List Char} (h : cs.head? ≠ some '=') :
    ∀ c, cs.head? = some c → (c == '=') = false := by
  intro c hc
  simpa [hc] using h

/-- Every text is a run of equals signs and a rest that begins with none. -/
theorem exists_signs (cs : List Char) :
    ∃ n rest, cs = List.replicate n '=' ++ rest ∧ rest.head? ≠ some '=' := by
  have hsigns : ∀ x ∈ cs.takeWhile (· == '='), x = '=' := fun x hx => by
    simpa using List.all_eq_true.mp List.all_takeWhile x hx
  refine ⟨(cs.takeWhile (· == '=')).length, cs.dropWhile (· == '='), ?_, fun h => ?_⟩
  · rw [← List.eq_replicate_of_mem hsigns, List.takeWhile_append_dropWhile]
  · have hhead := List.head?_dropWhile_not (· == '=') cs
    rw [h] at hhead
    simp at hhead

/-- There is one such run. -/
theorem signs_unique {m n : Nat} {cs cs' : List Char} (h : cs.head? ≠ some '=')
    (h' : cs'.head? ≠ some '=') (heq : List.replicate m '=' ++ cs = List.replicate n '=' ++ cs') :
    m = n ∧ cs = cs' := by
  have hrun : ∀ k, ∀ c ∈ List.replicate k '=', (c == '=') = true := by simp
  obtain ⟨htake, hdrop⟩ := takeWhile_run (hrun m) (not_sign h)
  obtain ⟨htake', hdrop'⟩ := takeWhile_run (hrun n) (not_sign h')
  rw [heq, htake'] at htake
  rw [heq, hdrop'] at hdrop
  exact ⟨by simpa using congrArg List.length htake.symm, hdrop.symm⟩

/-- Equals signs are counted and taken. -/
theorem takes_signs (n : Nat) (v : List Char) {cs : List Char} (h : cs.head? ≠ some '=') :
    Takes (eatWhile (· == '=')) v (List.replicate n '=' ++ cs) n (List.replicate n '=') cs := by
  have hrun : ∀ c ∈ List.replicate n '=', (c == '=') = true := by simp
  have htakes := takes_run hrun (not_sign h) v
  rwa [List.length_replicate] at htakes

/-- No closing bracket begins with another character. -/
theorem skips_other {x : Char} (hx : x ≠ ']') (level : Nat) (cs : List Char) :
    Skips (closer level) [x] cs := by
  intro u hu
  cases u with
  | nil =>
    obtain ⟨hbracket, -⟩ := List.cons_prefix_cons.mp hu
    exact absurd hbracket.symm hx
  | cons y u => simp

/-- No closing bracket begins with a bracket and equals signs that are not followed by a bracket, or
that are too many or too few. -/
theorem skips_signs {level n : Nat} {cs : List Char} (hsign : cs.head? ≠ some '=')
    (h : ¬(n = level ∧ cs.head? = some ']')) :
    Skips (closer level) (']' :: List.replicate n '=') cs := by
  intro u hu
  rw [List.cons_append] at hu
  refine Nat.le_of_not_lt fun hlt => ?_
  cases u with
  | nil =>
    obtain ⟨-, rest, hrest⟩ := List.cons_prefix_cons.mp hu
    have hbracket : (']' :: rest).head? ≠ some '=' := by simp
    rw [List.append_assoc] at hrest
    obtain ⟨rfl, rfl⟩ := signs_unique hbracket hsign hrest
    exact h ⟨rfl, rfl⟩
  | cons y u =>
    obtain ⟨-, rest, hrest⟩ := List.cons_prefix_cons.mp hu
    have hlt' : u.length < n := by simpa using hlt
    -- the bracket would stand where an equals sign is
    have hbracket : (List.replicate n '=' ++ cs)[u.length]? = some ']' := by
      rw [← hrest]
      simp [closer]
    rw [List.getElem?_append_left (by simpa using hlt'), List.getElem?_replicate, if_pos hlt']
      at hbracket
    cases hbracket

section Rounds

variable (level : Nat) (v cs : List Char)

theorem takes_closingRound_end : Takes (closingRound level ()) v [] (.stop false) [] [] :=
  (Takes.advance_nil v).bind (.pure _ _ _)

theorem takes_closingRound_other {x : Char} (hx : x ≠ ']') :
    Takes (closingRound level ()) v (x :: cs) (.again ()) [x] cs := by
  refine (Takes.advance_cons v x cs).bind_still ?_
  simp only
  rw [if_neg hx]
  exact .pure _ _ _

theorem takes_closingRound_close :
    Takes (closingRound level ()) v (closer level ++ cs) (.stop true) (closer level) cs := by
  have htext : closer level ++ cs = ']' :: (List.replicate level '=' ++ ']' :: cs) := by
    simp [closer]
  rw [htext]
  refine (Takes.advance_cons v ']' _).bind ?_
  simp only [if_true]
  refine (takes_signs level _ (by simp)).bind ?_
  rw [if_pos rfl]
  exact (Takes.eat_cons _ ']' cs).bind_still (.pure _ _ _)

theorem takes_closingRound_signs {n : Nat} {cs : List Char} (hsign : cs.head? ≠ some '=')
    (h : ¬(n = level ∧ cs.head? = some ']')) :
    Takes (closingRound level ()) v (']' :: List.replicate n '=' ++ cs) (.again ())
      (']' :: List.replicate n '=') cs := by
  refine (Takes.advance_cons v ']' _).bind ?_
  simp only [if_true]
  refine (takes_signs n _ hsign).bind_still ?_
  by_cases hlevel : n = level
  · rw [if_pos hlevel]
    exact (Takes.eat_of_ne _ fun hhead => h ⟨hlevel, hhead⟩).bind (.pure _ _ _)
  · rw [if_neg hlevel]
    exact .pure _ _ _

end Rounds

/-- What `closing` does: it goes to the leftmost closing bracket, or to the end where there is
none. -/
def Closes (level : Nat) (v cs : List Char) : Prop :=
  (∃ body rest, cs = body ++ (closer level ++ rest) ∧ Leftmost (closer level) body cs ∧
      Takes (closing level) v cs true (body ++ closer level) rest) ∨
    Absent (closer level) cs ∧ Takes (closing level) v cs false cs []

/-- A round that skips something is followed by the others. -/
theorem Closes.again {level : Nat} {v b cs : List Char} (hb : Skips (closer level) b cs)
    (hround : Takes (closingRound level ()) v (b ++ cs) (.again ()) b cs)
    (h : Closes level (v ++ b) cs) : Closes level v (b ++ cs) := by
  rcases h with ⟨body, rest, rfl, hleftmost, htakes⟩ | ⟨habsent, htakes⟩
  · refine Or.inl ⟨b ++ body, rest, by rw [List.append_assoc], hleftmost.behind hb, ?_⟩
    rw [List.append_assoc]
    exact hround.loop_again htakes
  · exact Or.inr ⟨habsent.behind hb, hround.loop_again htakes⟩

/-- **A long bracket closes at the leftmost closing bracket** of its level, or not at all. -/
theorem closing_cases (level : Nat) (v cs : List Char) : Closes level v cs := by
  induction hn : cs.length using Nat.strongRecOn generalizing v cs with
  | ind n ih =>
    cases cs with
    | nil =>
      refine Or.inr ⟨fun u hu => ?_, (takes_closingRound_end level v).loop_stop⟩
      simp [closer] at hu
    | cons x cs =>
      rw [List.length_cons] at hn
      by_cases hx : x = ']'
      · obtain ⟨m, cs, rfl, hsign⟩ := exists_signs cs
        rw [hx]
        by_cases h : m = level ∧ cs.head? = some ']'
        · obtain ⟨rest, rfl⟩ := List.head?_eq_some_iff.mp h.2
          have htext : ']' :: (List.replicate m '=' ++ ']' :: rest) = closer level ++ rest := by
            simp [closer, h.1]
          rw [htext]
          exact Or.inl ⟨[], rest, rfl, .here (List.prefix_append _ _),
            (takes_closingRound_close level v rest).loop_stop⟩
        · have hlt : cs.length < n := by
            rw [List.length_append] at hn
            omega
          exact Closes.again (skips_signs hsign h) (takes_closingRound_signs level v hsign h)
            (ih _ hlt _ cs rfl)
      · exact Closes.again (b := [x]) (skips_other hx level cs)
          (takes_closingRound_other level v cs hx) (ih cs.length (by omega) _ cs rfl)

theorem takes_closing {level : Nat} {body rest : List Char}
    (h : Leftmost (closer level) body (body ++ (closer level ++ rest))) (v : List Char) :
    Takes (closing level) v (body ++ (closer level ++ rest)) true (body ++ closer level) rest := by
  rcases closing_cases level v (body ++ (closer level ++ rest)) with
    ⟨body', rest', hsplit, hleftmost, htakes⟩ | ⟨habsent, -⟩
  · obtain rfl := h.unique hleftmost
    rw [List.append_cancel_left_eq, List.append_cancel_left_eq] at hsplit
    rwa [hsplit] at htakes ⊢
  · exact absurd h.begins (habsent body)

theorem takes_closing_absent {level : Nat} {cs : List Char} (h : Absent (closer level) cs)
    (v : List Char) : Takes (closing level) v cs false cs [] := by
  rcases closing_cases level v cs with ⟨body, rest, rfl, hleftmost, -⟩ | ⟨-, htakes⟩
  · exact absurd hleftmost.begins (h body)
  · exact htakes

/-! ## Opening -/

/-- The opening bracket of a level. -/
def opener (level : Nat) : List Char := '[' :: (List.replicate level '=' ++ ['['])

theorem opener_append (level : Nat) (cs : List Char) :
    opener level ++ cs = '[' :: (List.replicate level '=' ++ '[' :: cs) := by
  simp [opener]

theorem takes_opening (level : Nat) (v rest : List Char) :
    Takes opening v (List.replicate level '=' ++ '[' :: rest) (some level)
      (List.replicate level '=' ++ ['[']) rest :=
  (takes_signs level v (by simp)).bind ((Takes.eat_cons _ '[' rest).bind_still (.pure _ _ _))

theorem takes_opening_none (n : Nat) (v : List Char) {cs : List Char} (h : cs.head? ≠ some '=')
    (hbracket : cs.head? ≠ some '[') :
    Takes opening v (List.replicate n '=' ++ cs) none (List.replicate n '=') cs :=
  (takes_signs n v h).bind_still ((Takes.eat_of_ne _ hbracket).bind (.pure _ _ _))

end LongBracket

namespace Lexer

open Scan LongBracket

/-! ## What begins with a bracket -/

/-- What is taken of a text that begins with an opening bracket, how it is judged, and what is
left. -/
inductive Brackets : List Char → Verdict → List Char → List Char → Prop
  /-- A long string reaches to the leftmost closing bracket of its level. -/
  | string {level : Nat} {body rest : List Char} :
      Leftmost (closer level) body (body ++ (closer level ++ rest)) →
        Brackets (opener level ++ (body ++ (closer level ++ rest))) (.accepted .string)
          (opener level ++ (body ++ closer level)) rest
  /-- A long string that is not closed reaches to the end. -/
  | unclosed {level : Nat} {cs : List Char} : Absent (closer level) cs →
      Brackets (opener level ++ cs) (.malformed .unterminatedLongString) (opener level ++ cs) []
  /-- Equals signs that no second bracket follows open no long string. -/
  | invalid {level : Nat} {cs : List Char} : cs.head? ≠ some '=' → cs.head? ≠ some '[' →
      Brackets ('[' :: (List.replicate (level + 1) '=' ++ cs)) (.malformed .invalidLongBracket)
        ('[' :: List.replicate (level + 1) '=') cs
  | alone {cs : List Char} : cs.head? ≠ some '=' → cs.head? ≠ some '[' →
      Brackets ('[' :: cs) (.accepted .bracketOpen) ['['] cs

/-- A long bracket that is opened is a long string if it is closed. -/
theorem takes_bracket_opener {level : Nat} {cs w rest : List Char} {closed : Bool} (v : List Char)
    (h : ∀ v, Takes (closing level) v cs closed w rest) :
    Takes bracket v (opener level ++ cs)
      (if closed then .accepted .string else .malformed .unterminatedLongString)
      (opener level ++ w) rest := by
  have htext : opener level ++ cs = '[' :: (List.replicate level '=' ++ '[' :: cs) := by
    simp [opener]
  have htaken : opener level ++ w = '[' :: (List.replicate level '=' ++ ['['] ++ w) := by
    simp [opener]
  rw [htext, htaken]
  refine (Takes.advance_cons v '[' _).bind ((Takes.bind_iff (.current _ _)).mpr ?_)
  have hsecond : (List.replicate level '=' ++ '[' :: cs).head? = some '[' ∨
      (List.replicate level '=' ++ '[' :: cs).head? = some '=' := by
    cases level with
    | zero => exact Or.inl rfl
    | succ level => exact Or.inr rfl
  rw [if_pos hsecond]
  refine (takes_opening level _ cs).bind ((h _).bind_still ?_)
  cases closed with
  | true => exact .pure _ _ _
  | false => exact .pure _ _ _

/-- **What begins with a bracket** is taken so. -/
theorem Brackets.takes {cs w rest : List Char} {verdict : Verdict}
    (h : Brackets cs verdict w rest) (v : List Char) : Takes bracket v cs verdict w rest := by
  cases h with
  | string hleftmost => exact takes_bracket_opener v (takes_closing hleftmost)
  | unclosed habsent => exact takes_bracket_opener v (takes_closing_absent habsent)
  | @invalid level _ hsign hbracket =>
    refine (Takes.advance_cons v '[' _).bind ((Takes.bind_iff (.current _ _)).mpr ?_)
    rw [if_pos (.inr (by simp [List.replicate_succ]))]
    exact (takes_opening_none (level + 1) _ hsign hbracket).bind_still (.pure _ _ _)
  | alone hsign hbracket =>
    refine (Takes.advance_cons v '[' _).bind_still ((Takes.bind_iff (.current _ _)).mpr ?_)
    rw [if_neg (not_or.mpr ⟨hbracket, hsign⟩)]
    exact .pure _ _ _

theorem exists_brackets (cs : List Char) :
    ∃ verdict w rest, Brackets ('[' :: cs) verdict w rest := by
  obtain ⟨n, rest, rfl, hsign⟩ := exists_signs cs
  by_cases hbracket : rest.head? = some '['
  · obtain ⟨cs, rfl⟩ := List.head?_eq_some_iff.mp hbracket
    have htext : '[' :: (List.replicate n '=' ++ '[' :: cs) = opener n ++ cs := by simp [opener]
    rw [htext]
    rcases closing_cases n [] cs with ⟨body, rest, rfl, hleftmost, -⟩ | ⟨habsent, -⟩
    · exact ⟨_, _, _, .string hleftmost⟩
    · exact ⟨_, _, _, .unclosed habsent⟩
  · cases n with
    | zero => exact ⟨_, _, _, .alone hsign hbracket⟩
    | succ n => exact ⟨_, _, _, .invalid hsign hbracket⟩

theorem brackets_of_takes {v cs w rest : List Char} {verdict : Verdict}
    (h : Takes bracket v ('[' :: cs) verdict w rest) : Brackets ('[' :: cs) verdict w rest := by
  obtain ⟨verdict', w', rest', hbrackets⟩ := exists_brackets cs
  obtain ⟨rfl, rfl, rfl⟩ := h.unique (hbrackets.takes v)
  exact hbrackets

end Lexer

end LuaLex
