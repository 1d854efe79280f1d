/-!
# UTF-8

Decoding bytes to characters. A byte sequence that is not UTF-8 is refused with the position of
the first fault and the length of the longest valid beginning of a character found there.
-/

namespace Wiring.Text

/-- Why bytes are not UTF-8: where the valid part ends, and how many bytes the fault spans, or
`none` when the input stops inside a character. -/
structure Utf8Fault where
  validUpTo : Nat
  length? : Option Nat
deriving DecidableEq, Repr

namespace Utf8Fault

/-- The text of a fault. -/
def message (fault : Utf8Fault) : String :=
  match fault.length? with
  | some n => s!"invalid utf-8 sequence of {n} bytes from index {fault.validUpTo}"
  | none => s!"incomplete utf-8 byte sequence from index {fault.validUpTo}"

end Utf8Fault

/-- The values allowed for the second byte after a lead byte, and the number of bytes that follow
the lead byte. -/
def utf8Lead (b : UInt8) : Option (Nat × UInt8 × UInt8) :=
  if 0xC2 ≤ b && b ≤ 0xDF then some (1, 0x80, 0xBF)
  else if b == 0xE0 then some (2, 0xA0, 0xBF)
  else if b == 0xED then some (2, 0x80, 0x9F)
  else if 0xE1 ≤ b && b ≤ 0xEF then some (2, 0x80, 0xBF)
  else if b == 0xF0 then some (3, 0x90, 0xBF)
  else if 0xF1 ≤ b && b ≤ 0xF3 then some (3, 0x80, 0xBF)
  else if b == 0xF4 then some (3, 0x80, 0x8F)
  else none

/-- A character of which the lead byte has been read: its position, the number of its bytes read
so far, the number still to come, the bounds of the next one, and the bits gathered. -/
structure Utf8Partial where
  start : Nat
  seen : Nat
  missing : Nat
  low : UInt8
  high : UInt8
  bits : Nat
deriving DecidableEq, Repr

/-- Decode bytes; `index` is the position of the first of them, and `begun` the character that they
continue. -/
def decodeUtf8From (index : Nat) (begun : Option Utf8Partial) :
    List UInt8 → Except Utf8Fault (List Char)
  | [] =>
    match begun with
    | none => .ok []
    | some p => .error ⟨p.start, none⟩
  | b :: rest =>
    match begun with
    | none =>
      if b < 0x80 then (decodeUtf8From (index + 1) none rest).map (Char.ofNat b.toNat :: ·)
      else
        match utf8Lead b with
        | none => .error ⟨index, some 1⟩
        | some (following, low, high) =>
          decodeUtf8From (index + 1)
            (some ⟨index, 1, following, low, high, b.toNat % Nat.pow 2 (6 - following)⟩) rest
    | some p =>
      if b < p.low || p.high < b then .error ⟨p.start, some p.seen⟩
      else
        let bits := p.bits * 64 + b.toNat % 64
        if p.missing ≤ 1 then (decodeUtf8From (index + 1) none rest).map (Char.ofNat bits :: ·)
        else
          decodeUtf8From (index + 1) (some ⟨p.start, p.seen + 1, p.missing - 1, 0x80, 0xBF, bits⟩)
            rest

/-- Decode bytes as UTF-8. -/
def decodeUtf8 (bytes : List UInt8) : Except Utf8Fault String :=
  (decodeUtf8From 0 none bytes).map String.ofList

/-- Decode bytes as ISO 8859-1: each byte is the character of that number. -/
def decodeLatin1 (bytes : List UInt8) : String :=
  String.ofList (bytes.map fun b => Char.ofNat b.toNat)

end Wiring.Text
