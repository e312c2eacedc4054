import TunerBroker.Text.Numeral

/-! User identifiers: 128 bits, written as five hyphenated groups of hexadecimal digits. -/

namespace TunerBroker

structure UserId where
  bits : BitVec 128
  deriving DecidableEq

namespace UserId

def nil : UserId := ⟨0⟩

def isNil (u : UserId) : Bool := u = nil

/-- Sizes of the groups, in digits. -/
def groupSizes : List Nat := [8, 4, 4, 4, 12]

/-- Cuts off groups of the given sizes and puts hyphens between them. -/
def hyphenate : List Nat → List Char → List Char
  | [], _ => []
  | [n], cs => cs.take n
  | n :: ns, cs => cs.take n ++ '-' :: hyphenate ns (cs.drop n)

/-- Undoes `hyphenate`; a hyphen out of place or a length that is off refuses the text. -/
def unhyphenate? : List Nat → List Char → Option (List Char)
  | [], cs => if cs.isEmpty then some [] else none
  | [n], cs => if cs.length = n then some cs else none
  | n :: ns, cs =>
    if (cs.take n).length = n ∧ cs[n]? = some '-' then
      (unhyphenate? ns (cs.drop (n + 1))).map (cs.take n ++ ·)
    else none

def text (u : UserId) : String :=
  String.ofList (hyphenate groupSizes (Text.padded 16 32 u.bits.toNat))

/-- Reads the hyphenated form in either case. -/
def ofText? (text : String) : Option UserId := do
  let cs ← unhyphenate? groupSizes text.toList
  let ds ← cs.mapM (Text.digitValue? 16)
  return ⟨BitVec.ofNat 128 (Text.ofDigits 16 ds)⟩

end UserId

end TunerBroker
