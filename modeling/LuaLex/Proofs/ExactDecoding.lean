import LuaLex.Proofs.Utf8Text

/-!
# Decoding bytes that need not be text

Bytes whose reading does not fail are decoded as long as an encoded character is next. So what comes
out in front of the first fault is the longest text that the bytes begin with, and the fault tells
how long that is.

* `LongestText`: the longest text that bytes begin with.
* `Utf8.exists_encoded`: bytes are encoded characters and a rest in front of which none is.
* `Utf8.decode_stuck`: decoding refuses such a rest.
* `decode_bytes`: what is decoded of any bytes; `Script.feed_of_bytes`: what a reader of them hands
  out.
* `fromUTF8?_eq_some_iff`: which files are read as a text.
-/

namespace LuaLex

/-- The longest text that bytes begin with. -/
structure LongestText (bytes : List UInt8) (s : String) : Prop where
  begins : utf8Bytes s <+: bytes
  longest : ∀ t, utf8Bytes t <+: bytes → t.utf8ByteSize ≤ s.utf8ByteSize

namespace Utf8

/-- A character that is decoded from a sequence stands encoded at its beginning. -/
theorem prefix_of_char? {sequence : List UInt8} {c : Char} (h : char? sequence = some c) :
    String.utf8EncodeChar c <+: sequence := by
  obtain ⟨l, hl⟩ := ByteArray.exists_of_utf8DecodeChar?_eq_some h
  refine ⟨l.data.toList, ?_⟩
  have hdata := congrArg (fun b : ByteArray => b.data.toList) hl
  simpa using hdata.symm

/-- Bytes begin with one encoded character at most. -/
theorem utf8EncodeChar_unique {c d : Char} {bytes : List UInt8}
    (hc : String.utf8EncodeChar c <+: bytes) (hd : String.utf8EncodeChar d <+: bytes) : c = d := by
  have hdecoded : ∀ {x : Char}, String.utf8EncodeChar x <+: bytes → char? bytes = some x := by
    rintro x ⟨rest, rfl⟩
    have h := ByteArray.utf8DecodeChar?_utf8EncodeChar_append (b := rest.toByteArray) (c := x)
    rwa [← List.toByteArray_append] at h
  exact Option.some.inj ((hdecoded hc).symm.trans (hdecoded hd))

/-- **Bytes are encoded characters and a rest that begins with none.** -/
theorem exists_encoded (bytes : List UInt8) :
    ∃ (cs : List Char) (rest : List UInt8), bytes = cs.flatMap String.utf8EncodeChar ++ rest ∧
      ∀ c, ¬String.utf8EncodeChar c <+: rest := by
  induction hn : bytes.length using Nat.strongRecOn generalizing bytes with
  | ind n ih =>
    by_cases h : ∃ c, String.utf8EncodeChar c <+: bytes
    · obtain ⟨c, bytes, rfl⟩ := h
      have hlt : bytes.length < n := by
        have := c.utf8Size_pos
        rw [← hn, List.length_append, String.length_utf8EncodeChar]
        omega
      obtain ⟨cs, rest, rfl, hrest⟩ := ih _ hlt bytes rfl
      exact ⟨c :: cs, rest, by rw [List.flatMap_cons, List.append_assoc], hrest⟩
    · exact ⟨[], bytes, rfl, not_exists.mp h⟩

/-- Encoded characters in front of such a rest are all that the bytes begin with. -/
theorem prefix_of_encoded {cs ds : List Char} {rest : List UInt8}
    (hrest : ∀ c, ¬String.utf8EncodeChar c <+: rest)
    (h : ds.flatMap String.utf8EncodeChar <+: cs.flatMap String.utf8EncodeChar ++ rest) :
    ds <+: cs := by
  induction ds generalizing cs with
  | nil => exact List.nil_prefix
  | cons d ds ih =>
    rw [List.flatMap_cons] at h
    have hd := (List.prefix_append _ _).trans h
    cases cs with
    | nil => exact absurd hd (hrest d)
    | cons c cs =>
      rw [List.flatMap_cons, List.append_assoc] at h hd
      obtain rfl := utf8EncodeChar_unique (List.prefix_append _ _) hd
      exact (List.prefix_cons_inj c).mpr (ih ((List.prefix_append_right_inj _).mp h))

/-- The bytes of a sequence are taken, or they end too early. -/
theorem takeBytes_bytes (offset n : Nat) (bytes : List UInt8) :
    (∃ rest, takeBytes offset n (bytes.map .ok) = (.ok (bytes.take n), rest)) ∨
      ∃ rest, takeBytes offset n (bytes.map .ok) = (.error (.invalidUtf8 offset), rest) := by
  induction n generalizing bytes with
  | zero => exact Or.inl ⟨_, rfl⟩
  | succ n ih =>
    cases bytes with
    | nil => exact Or.inr ⟨_, rfl⟩
    | cons byte bytes =>
      rcases ih bytes with ⟨rest, h⟩ | ⟨rest, h⟩
      · exact Or.inl ⟨rest, by simp only [List.map_cons, takeBytes, h, List.take_succ_cons]⟩
      · exact Or.inr ⟨rest, by simp only [List.map_cons, takeBytes, h]⟩

/-- **Bytes that begin with no encoded character are refused.** -/
theorem decode_stuck (offset : Nat) {bytes : List UInt8} (hne : bytes ≠ [])
    (h : ∀ c, ¬String.utf8EncodeChar c <+: bytes) :
    ∃ more, decode offset (bytes.map .ok) = .error (.invalidUtf8 offset) :: more := by
  obtain ⟨first, bytes, rfl⟩ := List.exists_cons_of_ne_nil hne
  obtain ⟨rest, hafter⟩ : ∃ rest,
      decodeAfter offset first (bytes.map .ok) = (.error (.invalidUtf8 offset), rest) := by
    unfold decodeAfter
    cases width first with
    | zero => exact ⟨_, rfl⟩
    | succ n =>
      rcases takeBytes_bytes offset n bytes with ⟨rest, htake⟩ | ⟨rest, htake⟩
      · have hnone : char? (first :: bytes.take n) = none := by
          refine Option.eq_none_iff_forall_ne_some.mpr fun c hc => h c ?_
          exact (prefix_of_char? hc).trans
            ((List.prefix_cons_inj first).mpr (List.take_prefix n bytes))
        exact ⟨rest, by simp only [htake, hnone]⟩
      · exact ⟨rest, by simp only [htake]⟩
  exact ⟨_, by rw [List.map_cons, decode_ok, hafter]⟩

end Utf8

theorem length_utf8Bytes (s : String) : (utf8Bytes s).length = s.utf8ByteSize := rfl

open Utf8 in
/-- **Decoding is exact.** Bytes are those of a text, or the longest text that they begin with is
decoded before they are refused. -/
theorem decode_bytes (bytes : List UInt8) :
    (∃ s, bytes = utf8Bytes s) ∨
      (∀ s, bytes ≠ utf8Bytes s) ∧ ∃ s more, LongestText bytes s ∧
        decode 0 (bytes.map .ok) =
          s.toList.map .ok ++ .error (.invalidUtf8 s.utf8ByteSize) :: more := by
  obtain ⟨cs, rest, hbytes, hrest⟩ := exists_encoded bytes
  have hcs : cs.flatMap String.utf8EncodeChar = utf8Bytes (String.ofList cs) := by
    rw [utf8Bytes_eq, String.toList_ofList]
  by_cases hnil : rest = []
  · exact Or.inl ⟨String.ofList cs, by rw [hbytes, hnil, List.append_nil, hcs]⟩
  have hlongest : ∀ t, utf8Bytes t <+: bytes →
      t.utf8ByteSize ≤ (String.ofList cs).utf8ByteSize := by
    intro t ht
    rw [hbytes, utf8Bytes_eq] at ht
    obtain ⟨more, hmore⟩ := prefix_of_encoded hrest ht
    rw [← byteLength_toList, ← byteLength_toList, String.toList_ofList, ← hmore, byteLength_append]
    exact Nat.le_add_right _ _
  refine Or.inr ⟨fun s hs => ?_, String.ofList cs, ?_⟩
  · -- a text that is all of the bytes would be longer than the longest one
    have hle := hlongest s (hs ▸ List.prefix_refl _)
    have hlength := congrArg List.length (hs.symm.trans hbytes)
    rw [List.length_append, hcs, length_utf8Bytes, length_utf8Bytes] at hlength
    have := List.length_pos_iff.mpr hnil
    omega
  · obtain ⟨more, hmore⟩ := decode_stuck (0 + byteLength cs) hnil hrest
    refine ⟨more, ⟨⟨rest, by rw [hbytes, hcs]⟩, hlongest⟩, ?_⟩
    rw [hbytes, List.map_append, decode_encoded, hmore, Nat.zero_add, String.toList_ofList,
      ← byteLength_toList, String.toList_ofList]

/-- A reader of bytes that are no text hands out the longest text that they begin with, and then a
fault. -/
theorem Script.feed_of_bytes {script : Script} {bytes : List UInt8}
    (hbytes : script.stream = bytes.map .ok) (hnone : ∀ s, bytes ≠ utf8Bytes s) :
    ∃ s more, LongestText bytes s ∧
      script.feed = s.toList.map .ok ++ .error (.invalidUtf8 s.utf8ByteSize) :: more := by
  rcases decode_bytes bytes with ⟨s, hs⟩ | ⟨-, s, more, hlongest, hdecode⟩
  · exact absurd hs (hnone s)
  · exact ⟨s, more, hlongest, by rw [feed, hbytes, hdecode]⟩

/-! ## Whole files -/

theorem utf8Bytes_eq_iff {bytes : List UInt8} {s : String} :
    bytes = utf8Bytes s ↔ bytes.toByteArray = s.toByteArray := by
  constructor
  · rintro rfl
    exact ByteArray.ext (by rw [utf8Bytes, List.data_toByteArray]; rfl)
  · intro h
    rw [utf8Bytes, String.toUTF8_eq_toByteArray, ← h, List.toList_data_toByteArray]

/-- A file is read as a text exactly if its bytes are those of the text. -/
theorem fromUTF8?_eq_some_iff {bytes : List UInt8} {s : String} :
    String.fromUTF8? bytes.toByteArray = some s ↔ bytes = utf8Bytes s := by
  rw [utf8Bytes_eq_iff, String.fromUTF8?]
  constructor
  · intro h
    split at h
    · rw [← Option.some.inj h]
      rfl
    · cases h
  · intro h
    rw [h, dif_pos s.isValidUTF8]
    rfl

end LuaLex
