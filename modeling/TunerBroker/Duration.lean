import TunerBroker.Text.Numeral

/-! Lengths of time in nanoseconds, and their text in the largest unit that gives a whole part. -/

namespace TunerBroker

structure Duration where
  nanos : Nat
  deriving DecidableEq

namespace Duration

def ofMicros (n : Nat) : Duration := ⟨n * 1000⟩

def ofSeconds (n : Nat) : Duration := ⟨n * 1000000000⟩

/-- Whole milliseconds, a started one counting in full. -/
def ceilMillis (d : Duration) : Nat :=
  (d.nanos + 999999) / 1000000

/-- The decimals of a fraction with `places` digits: a point, then all up to the last that is not
zero. -/
def fraction (places n : Nat) : String :=
  let ds := (Text.padded 10 places n).reverse.dropWhile (· = '0')
  if ds.isEmpty then "" else "." ++ String.ofList ds.reverse

/-- A count of units of `10 ^ places` nanoseconds. -/
def inUnit (places : Nat) (symbol : String) (n : Nat) : String :=
  toString (n / Nat.pow 10 places) ++ fraction places (n % Nat.pow 10 places) ++ symbol

/-- Seconds, else milliseconds, microseconds or nanoseconds: the first whose whole part is not
zero. -/
def text (d : Duration) : String :=
  if Nat.pow 10 9 ≤ d.nanos then inUnit 9 "s" d.nanos
  else if Nat.pow 10 6 ≤ d.nanos then inUnit 6 "ms" d.nanos
  else if Nat.pow 10 3 ≤ d.nanos then inUnit 3 "µs" d.nanos
  else inUnit 0 "ns" d.nanos

end Duration

end TunerBroker
