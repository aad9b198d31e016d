import Mathlib
import LuaLex.Proofs.DefectReport
import LuaLex.Proofs.ExactDecoding
import LuaLex.Proofs.Finality

/-!
# The three commands on one file

The commands take different ways through a file: listing takes one token after the other from a
reader, the report on defects lexes a reader at once, and the reconstruction decodes the whole file
first. They come to the same result: they count the same tokens, or refuse the file together.

* `Script.exists_failsAfter`: where a reader fails whose bytes are no text.
* `Command.Agrees`, `Command.agrees_of_text`: the commands on a file that is a text.
* `Command.Refuses`, `Command.refuses_of_failsAfter`: the commands on any other file.
* `commands_agree`: both together.
-/

namespace LuaLex

theorem Script.stream_ofBytes (bytes : List UInt8) :
    (Script.ofBytes bytes).stream = bytes.map .ok := List.append_nil _

/-- A reader fails behind the longest text that its bytes begin with. -/
theorem Script.exists_failsAfter {bytes : List UInt8} (h : ∀ s, bytes ≠ utf8Bytes s) :
    ∃ s, LongestText bytes s ∧
      (Script.ofBytes bytes).FailsAfter s (.invalidUtf8 s.utf8ByteSize) := by
  obtain ⟨s, more, hlongest, hfeed⟩ := Script.feed_of_bytes (Script.stream_ofBytes bytes) h
  exact ⟨s, hlongest, more, hfeed⟩

namespace Command

/-- The items of a text that are reported as defects. -/
def defectiveItems (tokens : List Token) : List TextItem :=
  (itemsOf tokens).filter TextItem.isDefective

/-- What the commands do with a file that is the text `s`. -/
structure Agrees (inputs : Inputs) (path s : String) (tokens : List Token) : Prop where
  tokens_eq : tokenize s = .ok tokens
  /-- The reconstruction writes the file and counts its tokens. -/
  reconstructs : reconstruction inputs path = ⟨s, .ok tokens.length⟩
  /-- Listing counts the tokens, in whichever form it lists them. -/
  lists : ∀ format showTrivia,
    (Command.tokens inputs path format showTrivia).result = .ok tokens.length
  /-- One diagnostic is written for each defective item, and then a line with the number of the
  tokens and of those items. The latter is the result, or a failure of validation if there are any
  and they are denied. -/
  checks : ∀ deny colored, ∃ diagnostics,
    List.Forall₂
      (Diagnoses (.ofText (displayName path) s) (if deny then .error else .warning) colored)
      (defectiveItems tokens) diagnostics ∧
    check inputs path deny colored =
      ⟨String.join (diagnostics.map fun d =>
          d.render (.ofText (displayName path) s) colored ++ "\n") ++
          (displayName path ++ ": " ++ toString tokens.length ++ " token(s), " ++
            toString (defectiveItems tokens).length ++ " defect(s)\n"),
        if deny = true ∧ 0 < (defectiveItems tokens).length then
          .error (.defectsDenied (defectiveItems tokens).length (displayName path))
        else .ok (defectiveItems tokens).length⟩

/-- What the commands do with a file that is refused behind `offset` bytes. -/
structure Refuses (inputs : Inputs) (path : String) (offset : Nat) : Prop where
  lists : ∀ format showTrivia, (Command.tokens inputs path format showTrivia).result =
    .error (.notLexed (.invalidUtf8 offset))
  checks : ∀ deny colored, check inputs path deny colored =
    ⟨"", .error (.notLexed (.invalidUtf8 offset))⟩
  /-- The reconstruction cannot read the file, which is a failure of input and output. -/
  reconstructs : reconstruction inputs path = ⟨"", .error .notText⟩

section Files

variable {inputs : Inputs} {path s : String} {tokens : List Token} {bytes : List UInt8}

theorem reconstruction_of_text (hopen : inputs.open path = .ok (utf8Bytes s))
    (htokens : tokenize s = .ok tokens) :
    reconstruction inputs path = ⟨s, .ok tokens.length⟩ := by
  have htext : String.fromUTF8? (utf8Bytes s).toByteArray = some s :=
    fromUTF8?_eq_some_iff.mpr rfl
  rw [reconstruction, hopen]
  simp only [htext, htokens, reconstruct_of_tokenize htokens, if_true]

theorem agrees_of_text (hopen : inputs.open path = .ok (utf8Bytes s))
    (htokens : tokenize s = .ok tokens) : Agrees inputs path s tokens where
  tokens_eq := htokens
  reconstructs := reconstruction_of_text hopen htokens
  lists format showTrivia := by rw [tokens_of_text hopen htokens]
  checks deny colored := by
    have hdiagnosed : List.Forall₂
        (Diagnoses (.ofText (displayName path) s) (if deny then .error else .warning) colored)
        (defectiveItems tokens)
        (diagnosticsOf (if deny then .error else .warning) (itemsOf tokens)) := by
      refine forall₂_diagnoses (fun item hitem => sound_of_tokenize htokens hitem) ?_
      intro item hitem defect hdefect
      have hsome : item.defect.isSome := by rw [hdefect]; rfl
      exact ⟨⟨defect, hdefect, rfl⟩, underlines_of_item _ htokens hitem hsome rfl colored⟩
    refine ⟨_, hdiagnosed, ?_⟩
    rw [check_eq_of_tokenize hopen htokens deny colored rfl, hdiagnosed.length_eq]
    simp only [ne_eq, List.length_pos_iff]

theorem refuses_of_failsAfter (hopen : inputs.open path = .ok bytes)
    (hbytes : ∀ s, bytes ≠ utf8Bytes s) {offset : Nat}
    (hfails : (Script.ofBytes bytes).FailsAfter s (.invalidUtf8 offset)) :
    Refuses inputs path offset := by
  obtain ⟨more, hfeed⟩ := hfails
  refine ⟨fun format showTrivia => ?_, fun deny colored => ?_, ?_⟩
  · obtain ⟨front, hdrain, -⟩ := exists_stands s (.invalidUtf8 offset) more
    rw [← hfeed] at hdrain
    rw [tokens_eq_listed hopen, listed_of_fault hdrain]
  · rw [check, hopen]
    simp only [tokenizeScript_of_fault hfeed]
  · have hnone : String.fromUTF8? bytes.toByteArray = none :=
      Option.eq_none_iff_forall_ne_some.mpr fun s hs => hbytes s (fromUTF8?_eq_some_iff.mp hs)
    rw [reconstruction, hopen]
    simp only [hnone]

end Files

end Command

/-- **The commands agree on every file.** If the file is a text, all of them take it for the same
number of tokens, the reconstruction writes it out again, and the report on its defects is complete
also where defects are denied. If not, all of them fail: listing and reporting where the longest
text ends that the file begins with, the reconstruction when it reads the file. -/
theorem commands_agree {inputs : Inputs} {path : String} {bytes : List UInt8}
    (hopen : inputs.open path = .ok bytes) :
    (∀ s, bytes = utf8Bytes s → ∃ tokens, Command.Agrees inputs path s tokens) ∧
      ((∀ s, bytes ≠ utf8Bytes s) →
        ∃ s, LongestText bytes s ∧ Command.Refuses inputs path s.utf8ByteSize) := by
  constructor
  · rintro s rfl
    obtain ⟨tokens, htokens⟩ := exists_tokenize s
    exact ⟨tokens, Command.agrees_of_text hopen htokens⟩
  · intro hbytes
    obtain ⟨s, hlongest, hfails⟩ := Script.exists_failsAfter hbytes
    exact ⟨s, hlongest, Command.refuses_of_failsAfter hopen hbytes hfails⟩

/-- Inputs that are the same file, whatever the path. -/
def Inputs.always (bytes : List UInt8) : Inputs := ⟨fun _ => .file bytes, bytes⟩

theorem Inputs.open_always (bytes : List UInt8) (path : String) :
    (Inputs.always bytes).open path = .ok bytes := by
  unfold Inputs.open
  split <;> rfl

/-- A stray symbol is counted by all commands, and a stray byte is refused by all of them. -/
theorem commands_agree_on_strays :
    let symbol := utf8Bytes "@"
    let byte := utf8Bytes "x=" ++ [0xff]
    (Inputs.always symbol).open "main.lua" = .ok symbol ∧
      (Inputs.always byte).open "main.lua" = .ok byte ∧
      (∃ tokens, Command.Agrees (.always symbol) "main.lua" "@" tokens ∧
        tokens.length = 2 ∧ (Command.defectiveItems tokens).length = 1) ∧
      (∀ s, byte ≠ utf8Bytes s) ∧ Command.Refuses (.always byte) "main.lua" 2 := by
  intro symbol byte
  have hsymbol := Inputs.open_always symbol "main.lua"
  have hbyte := Inputs.open_always byte "main.lua"
  have hstray : ∀ s, byte ≠ utf8Bytes s := by
    intro s hs
    have hnone : String.fromUTF8? byte.toByteArray = none := by cbv
    cases hnone.symm.trans (fromUTF8?_eq_some_iff.mpr hs)
  refine ⟨hsymbol, hbyte, ?_, hstray, ?_⟩
  · obtain ⟨tokens, hagrees⟩ := (commands_agree hsymbol).1 "@" rfl
    have htokens : tokenize "@" = .ok
        [⟨.unknown, "@", [], ⟨0, 1, 1, 1⟩, some .unknownSymbol⟩,
          ⟨.endOfInput, "", [], ⟨1, 1, 1, 2⟩, none⟩] := by
      cbv
    obtain rfl := Except.ok.inj (hagrees.tokens_eq.symm.trans htokens)
    exact ⟨_, hagrees, rfl, rfl⟩
  · obtain ⟨s, hlongest, hrefuses⟩ := (commands_agree hbyte).2 hstray
    have htwo : s.utf8ByteSize = 2 := by
      have hle : 2 ≤ s.utf8ByteSize := hlongest.longest "x=" (List.prefix_append _ _)
      have hlt : s.utf8ByteSize < 3 := by
        refine Nat.lt_of_le_of_ne hlongest.begins.length_le fun hthree => hstray s ?_
        exact (hlongest.begins.eq_of_length hthree).symm
      omega
    rwa [htwo] at hrefuses

end LuaLex
