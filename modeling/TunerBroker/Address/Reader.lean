import TunerBroker.Address
import TunerBroker.Text.Numeral

/-! Reading a socket address: `a.b.c.d:port`, or `[groups]:port` with an optional scope. Each reader
takes what it needs off the front of the text and returns the rest. -/

namespace TunerBroker

open Text

/-- A reader of one item off the front of a text. -/
abbrev Reading (α : Type) := List Char → Option (α × List Char)

namespace Reading

def char (c : Char) : Reading Unit
  | x :: rest => if x = c then some ((), rest) else none
  | [] => none

/-- A numeral of one to `width` digits; leading zeros only if allowed. -/
def short (base width : Nat) (zeros : Bool) : Reading Nat := fun cs =>
  let (ds, rest) := takeDigits base cs
  if ds.isEmpty ∨ width < ds.length then none
  else if !zeros ∧ ds.head? = some 0 ∧ 1 < ds.length then none
  else some (ofDigits base ds, rest)

/-- A decimal numeral of any length whose value is below `bound`. -/
def below (bound : Nat) : Reading Nat := fun cs =>
  let (ds, rest) := takeDigits 10 cs
  let n := ofDigits 10 ds
  if ds.isEmpty ∨ bound ≤ n then none else some (n, rest)

/-- A decimal octet without leading zeros. -/
def octet : Reading UInt8 := fun cs => do
  let (n, rest) ← short 10 3 false cs
  if n < 256 then some (UInt8.ofNat n, rest) else none

def ipv4 : Reading Ipv4 := fun cs => do
  let (a, cs) ← octet cs
  let (_, cs) ← char '.' cs
  let (b, cs) ← octet cs
  let (_, cs) ← char '.' cs
  let (c, cs) ← octet cs
  let (_, cs) ← char '.' cs
  let (d, cs) ← octet cs
  return (⟨a, b, c, d⟩, cs)

/-- One group of one to four hexadecimal digits. -/
def group : Reading UInt16 := fun cs => do
  let (n, rest) ← short 16 4 true cs
  return (UInt16.ofNat n, rest)

/-- The item, after a colon unless it is the first. -/
def separated {α : Type} (first : Bool) (item : Reading α) : Reading α := fun cs =>
  if first then item cs
  else do
    let (_, cs) ← char ':' cs
    item cs

/-- At most `limit` groups from the front, and whether they end in a dotted IPv4 address, which
takes two of them and is tried first. -/
def groups (limit : Nat) (first : Bool) (cs : List Char) : List UInt16 × Bool × List Char :=
  match limit with
  | 0 => ([], false, cs)
  | limit + 1 =>
    match (if 1 ≤ limit then separated first ipv4 cs else none) with
    | some (x, rest) => ([x.groups.1, x.groups.2], true, rest)
    | none =>
      match separated first group cs with
      | some (g, rest) =>
        let (gs, dotted, rest) := groups limit false rest
        (g :: gs, dotted, rest)
      | none => ([], false, cs)

/-- The eight groups, where `::` stands for at least one group of zeros. -/
def ipv6 : Reading Ipv6 := fun cs =>
  let (head, dotted, rest) := groups 8 true cs
  if h : head.length = 8 then some (⟨⟨head.toArray, by simpa using h⟩⟩, rest)
  else if dotted then none
  else do
    let (_, rest) ← char ':' rest
    let (_, rest) ← char ':' rest
    let (tail, _, rest) := groups (7 - head.length) true rest
    let all := head ++ List.replicate (8 - head.length - tail.length) 0 ++ tail
    if h : all.length = 8 then some (⟨⟨all.toArray, by simpa using h⟩⟩, rest) else none

def port : Reading Nat := fun cs => do
  let (_, cs) ← char ':' cs
  below 65536 cs

/-- A percent sign and a decimal scope, or nothing. -/
def scope (cs : List Char) : List Char :=
  match (do let (_, cs) ← char '%' cs; below 4294967296 cs) with
  | some (_, rest) => rest
  | none => cs

def socketV4 : Reading IpAddress := fun cs => do
  let (x, cs) ← ipv4 cs
  let (_, cs) ← port cs
  return (.v4 x, cs)

/-- A bracketed IPv6 address, its scope dropped, and a port. -/
def socketV6 : Reading IpAddress := fun cs => do
  let (_, cs) ← char '[' cs
  let (x, cs) ← ipv6 cs
  let (_, cs) ← char ']' (scope cs)
  let (_, cs) ← port cs
  return (.v6 x, cs)

/-- The value of a reader that leaves nothing over. -/
def whole {α : Type} (r : Reading α) (cs : List Char) : Option α :=
  match r cs with
  | some (x, []) => some x
  | _ => none

end Reading

/-- The address part of a socket address. -/
def IpAddress.ofSocket? (text : String) : Option IpAddress :=
  match Reading.whole Reading.socketV4 text.toList with
  | some x => some x
  | none => Reading.whole Reading.socketV6 text.toList

end TunerBroker
