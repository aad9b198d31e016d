import LuaLex.Source

/-!
# Decoding UTF-8 from a reader

A reader is described by its `Script`: what each read delivers, in order, until the input ends.
Chunk borders and interrupted reads do not show in the bytes that come out; failures do. Decoding
goes sequence by sequence. The first byte announces how many follow, all of them are taken, and then
the sequence is judged as a whole; the bytes of a refused or cut-off sequence are lost, and decoding
goes on behind them.

* `Script.feed` is the result: the decoded characters with the faults between them. It is what a
  `Source` hands out.
-/

namespace LuaLex

/-- The bytes of a text. -/
def utf8Bytes (s : String) : List UInt8 := s.toUTF8.data.toList

/-- What one read of a reader does. -/
inductive ReadEvent where
  /-- The read delivers these bytes; none at all is not yet the end of input. -/
  | chunk (bytes : List UInt8)
  /-- The read fails; later reads go on. -/
  | failure (reason : String)
  /-- The read was interrupted and is tried again. -/
  | interrupted

/-- All reads of a reader in order; after the last one the input has ended. -/
abbrev Script := List ReadEvent

/-- Bytes as they arrive one by one, with the reads that failed in between. -/
abbrev ByteStream := List (Except String UInt8)

/-- The bytes and failures of a script: chunks are joined and interrupted reads vanish. -/
def Script.stream : Script → ByteStream
  | [] => []
  | .chunk bytes :: rest => bytes.map .ok ++ Script.stream rest
  | .failure reason :: rest => .error reason :: Script.stream rest
  | .interrupted :: rest => Script.stream rest

/-- A reader that delivers these bytes and never fails. -/
def Script.ofBytes (bytes : List UInt8) : Script := [.chunk bytes]

namespace Utf8

/-- How long a sequence is, by its first byte; zero for a byte that begins no sequence. -/
def width (first : UInt8) : Nat :=
  if first ≤ 0x7f then 1
  else if 0xc2 ≤ first && first ≤ 0xdf then 2
  else if 0xe0 ≤ first && first ≤ 0xef then 3
  else if 0xf0 ≤ first && first ≤ 0xf4 then 4
  else 0

/-- The character that a sequence of bytes encodes, if it is well formed. -/
def char? (sequence : List UInt8) : Option Char :=
  sequence.toByteArray.utf8DecodeChar? 0

/-- Takes the next `n` bytes of a sequence that begins behind `offset` decoded bytes. -/
def takeBytes (offset : Nat) : Nat → ByteStream → Except Fault (List UInt8) × ByteStream
  | 0, stream => (.ok [], stream)
  | _ + 1, [] => (.error (.invalidUtf8 offset), [])
  | _ + 1, .error reason :: stream => (.error (.unreadable reason), stream)
  | n + 1, .ok byte :: stream =>
    match takeBytes offset n stream with
    | (.ok bytes, rest) => (.ok (byte :: bytes), rest)
    | (.error e, rest) => (.error e, rest)

theorem takeBytes_length_le (offset n : Nat) (stream : ByteStream) :
    (takeBytes offset n stream).2.length ≤ stream.length := by
  fun_induction takeBytes offset n stream <;> simp_all <;> omega

/-- Decodes the sequence that begins with `first`, which follows `offset` decoded bytes. -/
def decodeAfter (offset : Nat) (first : UInt8) (stream : ByteStream) :
    Except Fault Char × ByteStream :=
  match width first with
  | 0 => (.error (.invalidUtf8 offset), stream)
  | n + 1 =>
    match takeBytes offset n stream with
    | (.error e, rest) => (.error e, rest)
    | (.ok bytes, rest) =>
      match char? (first :: bytes) with
      | some c => (.ok c, rest)
      | none => (.error (.invalidUtf8 offset), rest)

theorem decodeAfter_length_le (offset : Nat) (first : UInt8) (stream : ByteStream) :
    (decodeAfter offset first stream).2.length ≤ stream.length := by
  unfold decodeAfter
  split
  · exact Nat.le_refl _
  · rename_i n _
    have h := takeBytes_length_le offset n stream
    split
    · simp_all
    · split <;> simp_all

/-- Decodes a stream of which `offset` bytes have been decoded before, and adds the items to those
in `done`. A fault does not move the offset of the faults after it. -/
def decodeOnto (done : Array (Except Fault Char)) (offset : Nat) (stream : ByteStream) :
    Array (Except Fault Char) :=
  match stream with
  | [] => done
  | .error reason :: rest => decodeOnto (done.push (.error (.unreadable reason))) offset rest
  | .ok first :: rest =>
    match h : decodeAfter offset first rest with
    | (.ok c, rest') =>
      have : rest'.length ≤ rest.length := by
        simpa [h] using decodeAfter_length_le offset first rest
      decodeOnto (done.push (.ok c)) (offset + c.utf8Size) rest'
    | (.error e, rest') =>
      have : rest'.length ≤ rest.length := by
        simpa [h] using decodeAfter_length_le offset first rest
      decodeOnto (done.push (.error e)) offset rest'
termination_by stream.length

/-- The items of a stream of which `offset` bytes have been decoded before. -/
def decode (offset : Nat) (stream : ByteStream) : Feed :=
  (decodeOnto #[] offset stream).toList

theorem decodeOnto_append (base done : Array (Except Fault Char)) (offset : Nat)
    (stream : ByteStream) :
    decodeOnto (base ++ done) offset stream = base ++ decodeOnto done offset stream := by
  fun_induction decodeOnto done offset stream with
  | case1 => simp [decodeOnto]
  | case2 done offset reason rest ih => rw [decodeOnto, ← ih, ← Array.push_append]
  | case3 done offset first rest c rest' h _ ih =>
    rw [decodeOnto, ← ih, ← Array.push_append]
    split <;> simp_all
  | case4 done offset first rest e rest' h _ ih =>
    rw [decodeOnto, ← ih, ← Array.push_append]
    split <;> simp_all

theorem toList_decodeOnto (done : Array (Except Fault Char)) (offset : Nat) (stream : ByteStream) :
    (decodeOnto done offset stream).toList = done.toList ++ decode offset stream := by
  simpa [decode] using congrArg Array.toList (decodeOnto_append done #[] offset stream)

theorem decode_nil (offset : Nat) : decode offset [] = [] := by
  simp [decode, decodeOnto]

theorem decode_error (offset : Nat) (reason : String) (rest : ByteStream) :
    decode offset (.error reason :: rest) = .error (.unreadable reason) :: decode offset rest := by
  rw [decode, decodeOnto, toList_decodeOnto]
  simp

/-- Decoding goes sequence by sequence. -/
theorem decode_ok (offset : Nat) (first : UInt8) (rest : ByteStream) :
    decode offset (.ok first :: rest) =
      match decodeAfter offset first rest with
      | (.ok c, rest') => .ok c :: decode (offset + c.utf8Size) rest'
      | (.error e, rest') => .error e :: decode offset rest' := by
  rw [decode, decodeOnto]
  split <;> rename_i h <;> simp [h, toList_decodeOnto]

end Utf8

/-- What decoding a reader from beginning to end yields. -/
def Script.feed (script : Script) : Feed := Utf8.decode 0 script.stream

/-- A source that reads from a reader. -/
def Source.ofScript (script : Script) : Source := .ofFeed script.feed

end LuaLex
