import TunerBroker.Address
import TunerBroker.Text.Numeral

/-! The text of an address: dotted decimal, or lower-case groups with the longest run of zeros left
out. -/

namespace TunerBroker

open Text

/-- Texts with a separator between neighbours. -/
def joinWith (sep : Char) : List (List Char) → List Char
  | [] => []
  | [t] => t
  | t :: ts => t ++ sep :: joinWith sep ts

namespace Ipv4

def octets (x : Ipv4) : List UInt8 := [x.a, x.b, x.c, x.d]

/-- The four octets in decimal, with points between them. -/
def text (x : Ipv4) : List Char :=
  joinWith '.' (x.octets.map fun o => numeral 10 3 o.toNat)

end Ipv4

namespace Ipv6

/-- At each place, the length of the run of zero groups that starts there. -/
def zeroRuns : List UInt16 → List Nat
  | [] => []
  | g :: gs =>
    let runs := zeroRuns gs
    (if g = 0 then runs.headD 0 + 1 else 0) :: runs

/-- The groups in hexadecimal, with colons between them. -/
def joinGroups (gs : List UInt16) : List Char :=
  joinWith ':' (gs.map fun g => numeral 16 4 g.toNat)

/-- Groups with their longest run of at least two zeros, the first of equals, written `::`. -/
def compress (gs : List UInt16) : List Char :=
  let runs := zeroRuns gs
  let len := runs.foldl max 0
  if 2 ≤ len then
    let start := runs.findIdx (· = len)
    joinGroups (gs.take start) ++ [':', ':'] ++ joinGroups (gs.drop (start + len))
  else joinGroups gs

def text (x : Ipv6) : List Char := compress x.groups.toList

end Ipv6

namespace IpAddress

def chars : IpAddress → List Char
  | .v4 x => x.text
  | .v6 x => x.text

def text (x : IpAddress) : String := String.ofList x.chars

end IpAddress

end TunerBroker
