import TunerBroker.Text.Numeral

/-! Byte strings as hexadecimal text: two lower-case digits a byte. -/

namespace TunerBroker.Text

/-- A payload chunk, byte by byte. -/
abbrev Bytes := List UInt8

/-- The two digits of each byte in turn. -/
def hexOfBytes (bytes : Bytes) : String :=
  String.ofList (bytes.flatMap fun b => padded 16 2 b.toNat)

/-- Reads pairs of digits; an odd digit or any other character refuses the text. -/
def bytesOfDigits? : List Char → Option Bytes
  | [] => some []
  | [_] => none
  | hi :: lo :: rest => do
    let h ← digitValue? 16 hi
    let l ← digitValue? 16 lo
    let bytes ← bytesOfDigits? rest
    return UInt8.ofNat (16 * h + l) :: bytes

def bytesOfHex? (text : String) : Option Bytes :=
  bytesOfDigits? text.toList

/-- The two bytes of a number below 65536, the high one first. -/
def bigEndian16 (n : Nat) : Bytes :=
  [UInt8.ofNat (n / 256), UInt8.ofNat n]

end TunerBroker.Text
