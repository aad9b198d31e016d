import LuaLex.Proofs.Place
import LuaLex.Utf8

/-!
# Decoding encoded text

A reader that delivers the bytes of a text hands out its characters, wherever the bytes are split
between two reads. A character is decoded from its own bytes alone, since its first byte tells how
many they are.

* `width_utf8EncodeChar`: the first byte of an encoded character tells its length.
* `utf8EncodeChar_cases`: ASCII bytes stand for ASCII characters only.
* `decode_encoded`: encoded characters are decoded, and decoding goes on behind them.
* `Script.feed_of_stream`: what a reader hands out that delivers a text.
-/

namespace LuaLex

theorem utf8Bytes_eq (s : String) : utf8Bytes s = s.toList.flatMap String.utf8EncodeChar := by
  have h : (String.ofList s.toList).toUTF8 = (s.toList.flatMap String.utf8EncodeChar).toByteArray :=
    String.toByteArray_ofList
  rw [String.ofList_toList] at h
  rw [utf8Bytes, h, List.toList_data_toByteArray]

namespace Utf8

theorem width_ofNat {n : Nat} (h : n < 256) :
    width (UInt8.ofNat n) =
      if n ≤ 0x7f then 1
      else if 0xc2 ≤ n ∧ n ≤ 0xdf then 2
      else if 0xe0 ≤ n ∧ n ≤ 0xef then 3
      else if 0xf0 ≤ n ∧ n ≤ 0xf4 then 4
      else 0 := by
  have hn : n % 256 = n := Nat.mod_eq_of_lt h
  simp [width, UInt8.le_iff_toNat_le, hn]

theorem val_toNat_lt (c : Char) : c.val.toNat < 0x110000 := by
  have := c.valid
  simp only [UInt32.isValidChar, Nat.isValidChar] at this
  omega

/-- **The first byte of an encoded character tells its length.** -/
theorem width_utf8EncodeChar (c : Char) :
    ∃ first others, String.utf8EncodeChar c = first :: others ∧
      width first = others.length + 1 := by
  have hmax := val_toNat_lt c
  unfold String.utf8EncodeChar
  generalize c.val.toNat = v at hmax
  simp only
  by_cases h₁ : v ≤ 0x7f
  · rw [if_pos h₁]
    refine ⟨_, _, rfl, ?_⟩
    rw [width_ofNat (by omega), if_pos h₁, List.length_nil]
  rw [if_neg h₁]
  by_cases h₂ : v ≤ 0x7ff
  · rw [if_pos h₂]
    refine ⟨_, _, rfl, ?_⟩
    rw [width_ofNat (by omega), if_neg (by omega), if_pos (by omega), List.length_singleton]
  rw [if_neg h₂]
  by_cases h₃ : v ≤ 0xffff
  · rw [if_pos h₃]
    refine ⟨_, _, rfl, ?_⟩
    rw [width_ofNat (by omega), if_neg (by omega), if_neg (by omega), if_pos (by omega)]
    rfl
  · rw [if_neg h₃]
    refine ⟨_, _, rfl, ?_⟩
    rw [width_ofNat (by omega), if_neg (by omega), if_neg (by omega), if_neg (by omega),
      if_pos (by omega)]
    rfl

/-! ## ASCII -/

theorem le_ofNat {n : Nat} (h : 0x80 ≤ n) (hlt : n < 256) : 0x80 ≤ UInt8.ofNat n :=
  (UInt8.ofNat_le_iff_le (by decide) hlt).mpr h

/-- **An ASCII character is encoded as one byte, and no other character has an ASCII byte.** -/
theorem utf8EncodeChar_cases (c : Char) :
    (c.val.toNat < 0x80 ∧ String.utf8EncodeChar c = [UInt8.ofNat c.val.toNat]) ∨
      (0x80 ≤ c.val.toNat ∧ ∀ byte ∈ String.utf8EncodeChar c, 0x80 ≤ byte) := by
  unfold String.utf8EncodeChar
  generalize c.val.toNat = v
  have hmore : ∀ n, 0x80 ≤ UInt8.ofNat (n % 64 + 0x80) := fun n => le_ofNat (by omega) (by omega)
  simp only
  by_cases h₁ : v ≤ 0x7f
  · exact Or.inl ⟨by omega, if_pos h₁⟩
  refine Or.inr ⟨by omega, ?_⟩
  rw [if_neg h₁]
  by_cases h₂ : v ≤ 0x7ff
  · rw [if_pos h₂, List.forall_mem_cons, List.forall_mem_singleton]
    exact ⟨le_ofNat (by omega) (by omega), hmore v⟩
  rw [if_neg h₂]
  by_cases h₃ : v ≤ 0xffff
  · rw [if_pos h₃, List.forall_mem_cons, List.forall_mem_cons, List.forall_mem_singleton]
    exact ⟨le_ofNat (by omega) (by omega), hmore _, hmore v⟩
  · rw [if_neg h₃, List.forall_mem_cons, List.forall_mem_cons, List.forall_mem_cons,
      List.forall_mem_singleton]
    exact ⟨le_ofNat (by omega) (by omega), hmore _, hmore _, hmore v⟩

section Ascii

variable {c d : Char}

theorem toNat_asciiByte (h : c.val.toNat < 0x80) :
    (UInt8.ofNat c.val.toNat).toNat = c.val.toNat :=
  UInt8.toNat_ofNat_of_lt' (Nat.lt_trans h (by decide))

/-- ASCII characters are told apart by their bytes. -/
theorem asciiByte_inj (hc : c.val.toNat < 0x80) (hd : d.val.toNat < 0x80) :
    UInt8.ofNat c.val.toNat = UInt8.ofNat d.val.toNat ↔ c = d := by
  refine ⟨fun h => ?_, fun h => by rw [h]⟩
  have hval := congrArg UInt8.toNat h
  rw [toNat_asciiByte hc, toNat_asciiByte hd] at hval
  exact Char.ext (UInt32.toNat_inj.mp hval)

/-- Encoded text begins with the byte of an ASCII character where it begins with the character. -/
theorem head?_encoded (hd : d.val.toNat < 0x80) (cs : List Char) :
    (cs.flatMap String.utf8EncodeChar).head? = some (UInt8.ofNat d.val.toNat) ↔
      cs.head? = some d := by
  cases cs with
  | nil => exact iff_of_false nofun nofun
  | cons c cs =>
    rw [List.flatMap_cons, List.head?_cons, Option.some_inj]
    rcases utf8EncodeChar_cases c with ⟨hc, hbytes⟩ | ⟨hc, hbytes⟩
    · rw [hbytes, List.singleton_append, List.head?_cons, Option.some_inj, asciiByte_inj hc hd]
    · obtain ⟨first, others, hfirst, -⟩ := width_utf8EncodeChar c
      have hhigh : 0x80 ≤ first := hbytes first (hfirst ▸ List.mem_cons_self)
      rw [hfirst, List.cons_append, List.head?_cons, Option.some_inj]
      refine iff_of_false ?_ ?_
      · rintro rfl
        have hle : 0x80 ≤ d.val.toNat := toNat_asciiByte hd ▸ UInt8.le_iff_toNat_le.mp hhigh
        omega
      · rintro rfl
        omega

end Ascii

/-! ## Decoding what is encoded -/

/-- The bytes of a sequence are taken as they come. -/
theorem takeBytes_ok (offset : Nat) (bytes : List UInt8) (stream : ByteStream) :
    takeBytes offset bytes.length (bytes.map .ok ++ stream) = (.ok bytes, stream) := by
  induction bytes with
  | nil => rfl
  | cons byte bytes ih =>
    simp only [List.length_cons, List.map_cons, List.cons_append, takeBytes, ih]

theorem char?_utf8EncodeChar (c : Char) : char? (String.utf8EncodeChar c) = some c := by
  have h := ByteArray.utf8DecodeChar?_utf8EncodeChar_append (b := .empty) (c := c)
  rwa [ByteArray.append_empty] at h

/-- An encoded character is decoded. -/
theorem decode_char (offset : Nat) (c : Char) (stream : ByteStream) :
    decode offset ((String.utf8EncodeChar c).map .ok ++ stream) =
      .ok c :: decode (offset + c.utf8Size) stream := by
  obtain ⟨first, others, hbytes, hwidth⟩ := width_utf8EncodeChar c
  have hafter : decodeAfter offset first (others.map .ok ++ stream) = (.ok c, stream) := by
    simp only [decodeAfter, hwidth, takeBytes_ok, ← hbytes, char?_utf8EncodeChar]
  rw [hbytes, List.map_cons, List.cons_append, decode_ok, hafter]

/-- **Encoded text is decoded**, and decoding goes on behind it. -/
theorem decode_encoded (offset : Nat) (cs : List Char) (stream : ByteStream) :
    decode offset ((cs.flatMap String.utf8EncodeChar).map .ok ++ stream) =
      cs.map .ok ++ decode (offset + byteLength cs) stream := by
  induction cs generalizing offset with
  | nil => rfl
  | cons c cs ih =>
    rw [List.flatMap_cons, List.map_append, List.append_assoc, decode_char, ih, byteLength_cons,
      Nat.add_assoc]
    rfl

end Utf8

namespace Script

/-- A reader that delivers the bytes of a text and does not fail hands out the text. -/
theorem feed_of_stream {script : Script} {s : String}
    (h : script.stream = (utf8Bytes s).map .ok) : script.feed = s.toList.map .ok := by
  rw [feed, h, utf8Bytes_eq, ← List.append_nil (List.map _ _), Utf8.decode_encoded, Utf8.decode_nil,
    List.append_nil]

end Script

end LuaLex
