import TunerBroker.Text.Numeral

/-! Masking. Tasks are numbered by chance, so a report does not tell the number of a task that has
failed: the first such number in a text is shown as `N`. -/

namespace TunerBroker.Text

/-- The words that the number of a failed task comes after. -/
def failedTask : List Char := "pump task failed: task ".toList

/-- What follows the number at the front of a text that tells of a failed task. The number ends at a
space, which is part of what follows. -/
def afterTaskNumber? (cs : List Char) : Option (List Char) :=
  if failedTask.isPrefixOf cs then
    match takeDigits 10 (cs.drop failedTask.length) with
    | (_ :: _, ' ' :: rest) => some (' ' :: rest)
    | _ => none
  else none

/-- Shows the first number of a failed task as `N`. -/
def mask : List Char → List Char
  | [] => []
  | c :: cs =>
    match afterTaskNumber? (c :: cs) with
    | some rest => failedTask ++ 'N' :: rest
    | none => c :: mask cs

def masked (text : String) : String := String.ofList (mask text.toList)

end TunerBroker.Text
