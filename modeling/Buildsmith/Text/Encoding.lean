import Buildsmith.Text.Basic
import Buildsmith.Text.Literal

/-!
# Text encodings

Bytes are decoded in chunks of `chunkSize`, as they are read from a file.  A fault is reported with
the bytes that were being decoded, so that earlier chunks have already delivered their text.

The position and the reason of a fault in UTF-8 follow the maximal valid part of the sequence that
breaks off.
-/

namespace Buildsmith.Text

open String Char

/-- The character encodings that a file may have. -/
inductive Encoding where
  | utf8
  | latin1
  | ascii
  deriving DecidableEq, Repr

def Encoding.name : Encoding → String
  | .utf8 => "utf-8"
  | .latin1 => "latin-1"
  | .ascii => "ascii"

def Encoding.ofName? (s : String) : Option Encoding :=
  let key := ofList ((s.toList.map Char.toLower).filter fun c => c ≠ '-' && c ≠ '_')
  if key = "utf8" then some .utf8
  else if key = "latin1" || key = "iso88591" || key = "l1" || key = "8859" then some .latin1
  else if key = "ascii" || key = "usascii" then some .ascii
  else none

/-- Why a sequence of bytes is no text. -/
inductive DecodeReason where
  | invalidStart
  | invalidContinuation
  | unexpectedEnd
  | outsideAscii
  deriving DecidableEq, Repr

def DecodeReason.message : DecodeReason → String
  | .invalidStart => "invalid start byte"
  | .invalidContinuation => "invalid continuation byte"
  | .unexpectedEnd => "unexpected end of data"
  | .outsideAscii => "ordinal not in range(128)"

/-- A decoding fault: the bytes at hand and the range in them that is at fault. -/
structure DecodeFault where
  encoding : Encoding
  bytes : List UInt8
  start : Nat
  stop : Nat
  reason : DecodeReason
  deriving Repr

def DecodeFault.context (f : DecodeFault) : List UInt8 :=
  (f.bytes.take (f.stop + 40)).drop (f.start - 40)

def DecodeFault.culprit (f : DecodeFault) : List UInt8 :=
  (f.bytes.take f.stop).drop f.start

/-- What the bytes at a position begin with. -/
inductive Utf8Head where
  | char (c : Char) (width : Nat)
  | fault (reason : DecodeReason) (width : Nat)
  | incomplete

def isContinuation (b : UInt8) : Bool :=
  0x80 ≤ b && b < 0xC0

def payload (b : UInt8) : Nat :=
  b.toNat % 64

def mayFollow (lead b : UInt8) : Bool :=
  isContinuation b &&
    !(lead == 0xE0 && b < 0xA0) && !(lead == 0xED && b ≥ 0xA0) &&
    !(lead == 0xF0 && b < 0x90) && !(lead == 0xF4 && b ≥ 0x90)

def utf8Head : List UInt8 → Utf8Head
  | [] => .incomplete
  | a :: rest =>
    if a < 0x80 then .char (ofNat a.toNat) 1
    else if a < 0xC2 then .fault .invalidStart 1
    else if a < 0xE0 then
      match rest with
      | [] => .incomplete
      | b :: _ =>
        if isContinuation b then .char (ofNat (a.toNat % 32 * 64 + payload b)) 2
        else .fault .invalidContinuation 1
    else if a < 0xF0 then
      match rest with
      | [] => .incomplete
      | [b] => if mayFollow a b then .incomplete else .fault .invalidContinuation 1
      | b :: c :: _ =>
        if !mayFollow a b then .fault .invalidContinuation 1
        else if !isContinuation c then .fault .invalidContinuation 2
        else .char (ofNat ((a.toNat % 16 * 64 + payload b) * 64 + payload c)) 3
    else if a < 0xF5 then
      match rest with
      | [] => .incomplete
      | [b] => if mayFollow a b then .incomplete else .fault .invalidContinuation 1
      | [b, c] =>
        if !mayFollow a b then .fault .invalidContinuation 1
        else if !isContinuation c then .fault .invalidContinuation 2
        else .incomplete
      | b :: c :: d :: _ =>
        if !mayFollow a b then .fault .invalidContinuation 1
        else if !isContinuation c then .fault .invalidContinuation 2
        else if !isContinuation d then .fault .invalidContinuation 3
        else
          .char (ofNat
            (((a.toNat % 8 * 64 + payload b) * 64 + payload c) * 64 + payload d)) 4
    else .fault .invalidStart 1

/-- The characters of a run of bytes and the incomplete sequence at its end, or the fault. -/
abbrev Utf8Run := Except (Nat × Nat × DecodeReason) (List Char × List UInt8)

/-- Decodes from position `pos` on; `skip` counts the bytes of a sequence already read. -/
def utf8RunFrom : Nat → Nat → List Char → List UInt8 → Utf8Run
  | _, _, acc, [] => .ok (acc.reverse, [])
  | pos, skip + 1, acc, _ :: bs => utf8RunFrom (pos + 1) skip acc bs
  | pos, 0, acc, b :: bs =>
    match utf8Head (b :: bs) with
    | .char c width => utf8RunFrom (pos + 1) (width - 1) (c :: acc) bs
    | .fault reason width => .error (pos, pos + width, reason)
    | .incomplete => .ok (acc.reverse, b :: bs)

def nonAscii? (bytes : List UInt8) : Option Nat :=
  bytes.findIdx? (· ≥ 0x80)

def decode (encoding : Encoding) (bytes : ByteArray) : Except DecodeFault String :=
  match encoding with
  | .latin1 => .ok (ofList (bytes.toList.map fun b => ofNat b.toNat))
  | .ascii =>
    match nonAscii? bytes.toList with
    | some i => .error ⟨.ascii, bytes.toList, i, i + 1, .outsideAscii⟩
    | none => .ok (ofList (bytes.toList.map fun b => ofNat b.toNat))
  | .utf8 =>
    match fromUTF8? bytes with
    | some s => .ok s
    | none =>
      match utf8RunFrom 0 0 [] bytes.toList with
      | .ok (_, pending) =>
        .error ⟨.utf8, bytes.toList, bytes.size - pending.length, bytes.size, .unexpectedEnd⟩
      | .error (start, stop, reason) => .error ⟨.utf8, bytes.toList, start, stop, reason⟩

def encode? (encoding : Encoding) (s : String) : Option ByteArray :=
  let narrow (bound : Nat) : Option ByteArray :=
    if s.toList.all fun c => c.toNat < bound then
      some (ByteArray.mk (s.toList.map fun c => UInt8.ofNat c.toNat).toArray)
    else none
  match encoding with
  | .utf8 => some s.toUTF8
  | .latin1 => narrow 256
  | .ascii => narrow 128

def chunkSize : Nat := 8192

/-- The text of a file up to the first fault, and that fault. -/
structure DecodedFile where
  text : String
  fault : Option DecodeFault := none

def chunksOf : Nat → List UInt8 → List (List UInt8)
  | 0, _ => []
  | n + 1, bs => if bs.isEmpty then [] else bs.take chunkSize :: chunksOf n (bs.drop chunkSize)

/-- Decodes UTF-8 chunk by chunk, with the bytes left over and the text so far. -/
def decodeChunks : List UInt8 → List Char → List (List UInt8) → DecodedFile
  | pending, acc, [] =>
    if pending.isEmpty then ⟨ofList acc, none⟩
    else ⟨ofList acc, some ⟨.utf8, pending, 0, pending.length, .unexpectedEnd⟩⟩
  | pending, acc, chunk :: chunks =>
    match utf8RunFrom 0 0 [] (pending ++ chunk) with
    | .ok (cs, left) => decodeChunks left (acc ++ cs) chunks
    | .error (start, stop, reason) =>
      ⟨ofList acc, some ⟨.utf8, pending ++ chunk, start, stop, reason⟩⟩

def decodeFile (encoding : Encoding) (bytes : ByteArray) : DecodedFile :=
  match decode encoding bytes with
  | .ok s => ⟨s, none⟩
  | .error fault =>
    match encoding with
    | .utf8 => decodeChunks [] [] (chunksOf (bytes.size + 1) bytes.toList)
    | _ =>
      let before := fault.start / chunkSize * chunkSize
      let inChunk : DecodeFault :=
        ⟨fault.encoding, (bytes.toList.drop before).take chunkSize,
          fault.start - before, fault.stop - before, fault.reason⟩
      ⟨ofList ((bytes.toList.take before).map fun b => ofNat b.toNat), some inChunk⟩

/-- The characters of some bytes and the bytes that are kept for later, or nothing at a fault. -/
def decodePart? (encoding : Encoding) (bytes : List UInt8) : Option (List Char × List UInt8) :=
  match encoding with
  | .utf8 => (utf8RunFrom 0 0 [] bytes).toOption
  | _ =>
    if encoding = .ascii && (nonAscii? bytes).isSome then none
    else some (bytes.map fun b => ofNat b.toNat, [])

/-- Whether a fault is met before `wanted` characters are read.  At least a chunk is read at a time,
and as many bytes as the characters take, judging by the part before; `held` tells whether that part
ended in a carriage return. -/
def meetsFaultFrom (encoding : Encoding) :
    Nat → Nat → Nat × Nat → Bool → List UInt8 → List UInt8 → Bool
  | 0, _, _, _, _, _ => false
  | fuel + 1, wanted, (taken, given), held, pending, bs =>
    if wanted = 0 then false
    else
      let size := max chunkSize (max wanted (taken * wanted / given))
      match decodePart? encoding (pending ++ bs.take size) with
      | none => true
      | some (cs, left) =>
        if bs.isEmpty then !left.isEmpty
        else
          let cs := if held && !cs.isEmpty then '\r' :: cs else cs
          let ends := cs.getLast? == some '\r'
          let got := (unifyNewlines (if ends then cs.dropLast else cs)).length
          meetsFaultFrom encoding fuel (wanted - got) ((bs.take size).length, got)
            (ends || (held && cs.isEmpty)) left (bs.drop size)

def meetsFault (encoding : Encoding) (wanted : Nat) (bytes : ByteArray) : Bool :=
  meetsFaultFrom encoding (bytes.size + 2) wanted (0, 0) false [] bytes.toList

def DecodedFile.unified (f : DecodedFile) : String :=
  ofList (unifyNewlines f.text.toList)

def DecodedFile.lines (f : DecodedFile) : List String :=
  match f.fault with
  | none => physicalLines f.unified
  | some _ =>
    let settled := if f.text.toList.getLast? == some '\r' then f.text.toList.dropLast else f.text.toList
    (physicalLines (ofList (unifyNewlines settled))).filter fun l =>
      l.toList.getLast? == some '\n'

end Buildsmith.Text
