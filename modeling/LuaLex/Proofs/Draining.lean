import Mathlib
import LuaLex.Proofs.ExactDecoding
import LuaLex.Proofs.ReaderLexing

/-!
# What a reader of any bytes hands out

A reader that does not fail delivers bytes, and its source hands out characters until the bytes are
used up or cannot be decoded. The characters are those of the longest text that the bytes begin
with, and a fault tells where it ends.

* `Source.handOut`: the characters of a source up to its end or its first fault, and that fault.
* `Source.drain_eq_handOut`: draining keeps them only if no fault ends them.
* `decoding_exact`: all of it is handed out exactly if it is a text, and otherwise as much as is
  one.
-/

namespace LuaLex

namespace Source

/-- The characters that are taken one after the other until the source ends or a fault is met, and
that fault. -/
def handOut (s : Source) : List Char × Option Fault :=
  match h : s.next with
  | .ok none _ => ([], none)
  | .ok (some c) t =>
    have := next_size_lt h
    let rest := t.handOut
    (c :: rest.1, rest.2)
  | .error e _ => ([], some e)
termination_by s.size

/-- A fault loses the characters that were drained in front of it. -/
theorem drain_eq_handOut (s : Source) :
    s.drain = match s.handOut with
      | (chars, none) => .ok chars
      | (_, some e) => .error e := by
  fun_induction handOut s with
  | case1 s t h =>
    rw [drain]
    split <;> simp_all
  | case2 s c t h _ rest ih =>
    have hdrain : s.drain = t.drain.map (c :: ·) := by
      rw [drain]
      split <;> simp_all
    rw [hdrain, ih]
    show Except.map _ (match rest with
      | (chars, none) => .ok chars
      | (_, some e) => .error e) = _
    rcases rest with ⟨chars, _ | e⟩ <;> rfl
  | case3 s e t h =>
    rw [drain]
    split <;> simp_all

/-- The characters in front are handed out first. -/
theorem handOut_chars (chars : List Char) (tail : Feed) :
    (reader [] (chars.map .ok ++ tail)).handOut =
      (chars ++ (reader [] tail).handOut.1, (reader [] tail).handOut.2) := by
  induction chars with
  | nil => rfl
  | cons c chars ih =>
    rw [handOut]
    show (c :: (reader [] (chars.map .ok ++ tail)).handOut.1,
      (reader [] (chars.map .ok ++ tail)).handOut.2) = _
    rw [ih]
    rfl

theorem handOut_end : (reader [] []).handOut = ([], none) := by
  rw [handOut]
  rfl

theorem handOut_fault (e : Fault) (more : Feed) :
    (reader [] (.error e :: more)).handOut = ([], some e) := by
  rw [handOut]
  rfl

end Source

section Readers

variable {script : Script} {bytes : List UInt8} {s : String}

theorem handOut_of_text (h : script.stream = (utf8Bytes s).map .ok) :
    (Source.ofScript script).handOut = (s.toList, none) := by
  have hout := Source.handOut_chars s.toList []
  rw [Source.handOut_end, List.append_nil, List.append_nil] at hout
  rwa [Source.ofScript, Script.feed_of_stream h]

theorem handOut_of_bytes (h : script.stream = bytes.map .ok) (hnone : ∀ s, bytes ≠ utf8Bytes s) :
    ∃ s, LongestText bytes s ∧
      (Source.ofScript script).handOut = (s.toList, some (.invalidUtf8 s.utf8ByteSize)) := by
  obtain ⟨s, more, hlongest, hfeed⟩ := Script.feed_of_bytes h hnone
  have hout := Source.handOut_chars s.toList (.error (.invalidUtf8 s.utf8ByteSize) :: more)
  rw [Source.handOut_fault, List.append_nil, ← hfeed] at hout
  exact ⟨s, hlongest, hout⟩

/-- **Decoding is exact.** A reader that delivers bytes and does not fail hands out a text and ends
exactly if the bytes are those of the text. If they are no text, it hands out the longest text that
they begin with, and then the fault that bytes are refused behind it. -/
theorem decoding_exact (hbytes : script.stream = bytes.map .ok) :
    (∀ s, (Source.ofScript script).handOut = (s.toList, none) ↔ bytes = utf8Bytes s) ∧
      ((∀ s, bytes ≠ utf8Bytes s) → ∃ s, LongestText bytes s ∧
        (Source.ofScript script).handOut = (s.toList, some (.invalidUtf8 s.utf8ByteSize))) := by
  refine ⟨fun s => ⟨fun hout => ?_, fun hs => handOut_of_text (hs ▸ hbytes)⟩,
    handOut_of_bytes hbytes⟩
  by_cases hnone : ∀ t, bytes ≠ utf8Bytes t
  · -- the end would have been found where there is a fault
    obtain ⟨t, -, ht⟩ := handOut_of_bytes hbytes hnone
    cases congrArg Prod.snd (hout.symm.trans ht)
  · obtain ⟨t, rfl⟩ := not_forall_not.mp hnone
    have ht := congrArg Prod.fst (hout.symm.trans (handOut_of_text hbytes))
    rw [String.toList_injective ht]

end Readers

/-- A character that is cut off is refused where it begins, wherever the bytes are split. -/
theorem decoding_exact_cut_off :
    let script : Script := [.chunk [0x78, 0xe2], .interrupted, .chunk [], .chunk [0x82]]
    let bytes : List UInt8 := [0x78, 0xe2, 0x82]
    script.stream = bytes.map .ok ∧ (∀ s, bytes ≠ utf8Bytes s) ∧ LongestText bytes "x" ∧
      (Source.ofScript script).handOut = (['x'], some (.invalidUtf8 1)) := by
  intro script bytes
  have hbytes : script.stream = bytes.map .ok := rfl
  have hnone : ∀ s, bytes ≠ utf8Bytes s := by
    intro s hs
    have hrefused : String.fromUTF8? bytes.toByteArray = none := by cbv
    cases hrefused.symm.trans (fromUTF8?_eq_some_iff.mpr hs)
  have hout : (Source.ofScript script).handOut = (['x'], some (.invalidUtf8 1)) := by cbv
  obtain ⟨s, hlongest, hs⟩ := (decoding_exact hbytes).2 hnone
  have hx : s.toList = "x".toList := congrArg Prod.fst (hs.symm.trans hout)
  exact ⟨hbytes, hnone, String.toList_injective hx ▸ hlongest, hout⟩

end LuaLex
