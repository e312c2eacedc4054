/-! Numerals in any base up to sixteen: fixed-width digits, the shortest numeral with at least one
digit, and reading a digit back. -/

namespace TunerBroker.Text

/-- The lower-case digit for a value below sixteen. -/
def digitChar (n : Nat) : Char :=
  if n < 10 then Char.ofNat ('0'.toNat + n) else Char.ofNat ('a'.toNat + (n - 10))

/-- The value of a digit in `base`; letters of either case count on from ten. -/
def digitValue? (base : Nat) (c : Char) : Option Nat :=
  let v :=
    if '0' ≤ c ∧ c ≤ '9' then c.toNat - '0'.toNat
    else if 'a' ≤ c ∧ c ≤ 'f' then c.toNat - 'a'.toNat + 10
    else if 'A' ≤ c ∧ c ≤ 'F' then c.toNat - 'A'.toNat + 10
    else base
  if v < base then some v else none

/-- The last `width` digits of `n`, most significant first. -/
def digits (base : Nat) : Nat → Nat → List Nat
  | 0, _ => []
  | width + 1, n => digits base width (n / base) ++ [n % base]

/-- Drops leading zeros and keeps the last digit. -/
def trimZeros : List Nat → List Nat
  | 0 :: d :: ds => trimZeros (d :: ds)
  | ds => ds

def padded (base width n : Nat) : List Char :=
  (digits base width n).map digitChar

def numeral (base width n : Nat) : List Char :=
  (trimZeros (digits base width n)).map digitChar

/-- Reads digits onto the value so far, without a bound. -/
def ofDigits (base : Nat) (ds : List Nat) : Nat :=
  ds.foldl (fun n d => n * base + d) 0

/-- The longest run of digits at the front, and what follows it. -/
def takeDigits (base : Nat) : List Char → List Nat × List Char
  | [] => ([], [])
  | c :: cs =>
    match digitValue? base c with
    | some d => let (ds, rest) := takeDigits base cs; (d :: ds, rest)
    | none => ([], c :: cs)

end TunerBroker.Text
