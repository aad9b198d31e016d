import LuaLex.Proofs.Utf8Text
import Mathlib.Tactic.SplitIfs

/-!
# The order of texts by their bytes

Texts are ordered by their characters, and their bytes are ordered in the same way. Of two
characters the smaller one has the shorter encoding, and then the first bytes decide, since they
tell the lengths; or both are encoded in equally many bytes, and these bytes hold the digits of the
characters to the base 64, the highest digit first.

* `utf8EncodeChar_append_lt`: the bytes of a smaller character are smaller, whatever follows.
* `utf8Bytes_lt_iff`: a text is below another exactly if its bytes are.
-/

namespace LuaLex

namespace Utf8

/-- A byte that announces a shorter sequence is below one that announces a longer sequence. -/
theorem lt_of_width_lt {x y : UInt8} (hx : 0 < width x) (h : width x < width y) : x < y := by
  have hwidthx := width_ofNat x.toNat_lt
  have hwidthy := width_ofNat y.toNat_lt
  rw [UInt8.ofNat_toNat] at hwidthx hwidthy
  rw [hwidthx] at hx h
  rw [hwidthy] at h
  rw [UInt8.lt_iff_toNat_lt]
  split_ifs at hx h <;> omega

section Characters

variable {c d : Char} {bs cs : List UInt8}

theorem utf8Size_eq (c : Char) :
    c.utf8Size =
      if c.val.toNat ≤ 0x7f then 1
      else if c.val.toNat ≤ 0x7ff then 2
      else if c.val.toNat ≤ 0xffff then 3
      else 4 := rfl

theorem utf8Size_le_of_lt (h : c < d) : c.utf8Size ≤ d.utf8Size := by
  have hval : c.val.toNat < d.val.toNat := h
  rw [utf8Size_eq, utf8Size_eq]
  split_ifs <;> omega

theorem ofNat_cons_lt {m n : Nat} (hn : n < 256) (hle : m ≤ n) (h : m = n → bs < cs) :
    UInt8.ofNat m :: bs < UInt8.ofNat n :: cs := by
  rw [List.cons_lt_cons_iff]
  rcases Nat.lt_or_eq_of_le hle with hlt | rfl
  · exact .inl ((UInt8.ofNat_lt_iff_lt (Nat.lt_trans hlt hn) hn).mpr hlt)
  · exact .inr ⟨rfl, h rfl⟩

/-- Encodings of one length are ordered by the digits that they hold. -/
theorem utf8EncodeChar_append_lt_of_utf8Size_eq (h : c < d) (hsize : c.utf8Size = d.utf8Size) :
    String.utf8EncodeChar c ++ bs < String.utf8EncodeChar d ++ cs := by
  have hval : c.val.toNat < d.val.toNat := h
  have hmax := val_toNat_lt d
  rw [utf8Size_eq, utf8Size_eq] at hsize
  unfold String.utf8EncodeChar
  generalize c.val.toNat = v at *
  generalize d.val.toNat = w at *
  have hsides : (v ≤ 0x7f ↔ w ≤ 0x7f) ∧ (v ≤ 0x7ff ↔ w ≤ 0x7ff) ∧ (v ≤ 0xffff ↔ w ≤ 0xffff) := by
    split_ifs at hsize <;> omega
  simp only [hsides]
  -- the digits are compared from the highest on, and they cannot all be the same
  split_ifs with hone htwo hthree
  · exact ofNat_cons_lt (by omega) (by omega) fun h₁ => absurd h₁ (by omega)
  · refine ofNat_cons_lt (by omega) (by omega) fun h₁ => ?_
    exact ofNat_cons_lt (by omega) (by omega) fun h₂ => absurd h₂ (by omega)
  · refine ofNat_cons_lt (by omega) (by omega) fun h₁ => ?_
    refine ofNat_cons_lt (by omega) (by omega) fun h₂ => ?_
    exact ofNat_cons_lt (by omega) (by omega) fun h₃ => absurd h₃ (by omega)
  · refine ofNat_cons_lt (by omega) (by omega) fun h₁ => ?_
    refine ofNat_cons_lt (by omega) (by omega) fun h₂ => ?_
    refine ofNat_cons_lt (by omega) (by omega) fun h₃ => ?_
    exact ofNat_cons_lt (by omega) (by omega) fun h₄ => absurd h₄ (by omega)

/-- **The bytes of a smaller character are smaller**, whatever follows them. -/
theorem utf8EncodeChar_append_lt (h : c < d) :
    String.utf8EncodeChar c ++ bs < String.utf8EncodeChar d ++ cs := by
  rcases Nat.lt_or_eq_of_le (utf8Size_le_of_lt h) with hsize | hsize
  · obtain ⟨x, xs, hx, hwidthx⟩ := width_utf8EncodeChar c
    obtain ⟨y, ys, hy, hwidthy⟩ := width_utf8EncodeChar d
    rw [← String.length_utf8EncodeChar, ← String.length_utf8EncodeChar, hx, hy, List.length_cons,
      List.length_cons, ← hwidthx, ← hwidthy] at hsize
    rw [hx, hy, List.cons_append, List.cons_append, List.cons_lt_cons_iff]
    exact .inl (lt_of_width_lt (hwidthx ▸ Nat.succ_pos _) hsize)
  · exact utf8EncodeChar_append_lt_of_utf8Size_eq h hsize

end Characters

theorem flatMap_utf8EncodeChar_lt {cs ds : List Char} (h : cs < ds) :
    cs.flatMap String.utf8EncodeChar < ds.flatMap String.utf8EncodeChar := by
  induction cs generalizing ds with
  | nil =>
    cases ds with
    | nil => exact absurd h (List.lt_irrefl _)
    | cons d ds =>
      obtain ⟨first, others, hd, -⟩ := width_utf8EncodeChar d
      rw [List.flatMap_cons, hd]
      exact List.nil_lt_cons _ _
  | cons c cs ih =>
    cases ds with
    | nil => exact absurd h (List.not_lt_nil _)
    | cons d ds =>
      rw [List.flatMap_cons, List.flatMap_cons]
      rcases List.cons_lt_cons_iff.mp h with hlt | ⟨rfl, hlt⟩
      · exact utf8EncodeChar_append_lt hlt
      · exact List.append_left_lt (ih hlt)

end Utf8

variable {v w : String}

theorem utf8Bytes_lt (h : v < w) : utf8Bytes v < utf8Bytes w := by
  rw [utf8Bytes_eq, utf8Bytes_eq]
  exact Utf8.flatMap_utf8EncodeChar_lt (String.lt_iff.mp h)

/-- **The order of texts is the order of their bytes.** -/
theorem utf8Bytes_lt_iff : utf8Bytes v < utf8Bytes w ↔ v < w := by
  refine ⟨fun h => ?_, utf8Bytes_lt⟩
  rcases Std.lt_trichotomy v w with hlt | rfl | hgt
  · exact hlt
  · exact absurd h (List.lt_irrefl _)
  · exact absurd h (List.lt_asymm (utf8Bytes_lt hgt))

/-- Texts with the same bytes are the same. -/
theorem utf8Bytes_inj : utf8Bytes v = utf8Bytes w ↔ v = w := by
  refine ⟨fun h => ?_, congrArg utf8Bytes⟩
  exact String.toByteArray_inj.mp (ByteArray.ext (Array.toList_inj.mp h))

end LuaLex
