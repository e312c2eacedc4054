import TunerBroker.Text.Numeral
import TunerBroker.Text.Visible

/-! Quoted text: the form of a string inside a diagnostic. A backslash or double quote is escaped, a
character that cannot stand for itself is written by its code point. -/

namespace TunerBroker.Text

/-- An escape by code point: `\u`, then the shortest hexadecimal numeral in braces. -/
def codePoint (c : Char) : List Char :=
  ['\\', 'u', '\x7b'] ++ numeral 16 6 c.toNat ++ ['\x7d']

/-- One character inside quotes. A single quote stands for itself. -/
def quotedChar (c : Char) : List Char :=
  if c = '\x00' then ['\\', '0']
  else if c = '\t' then ['\\', 't']
  else if c = '\r' then ['\\', 'r']
  else if c = '\n' then ['\\', 'n']
  else if c = '\\' ∨ c = '"' then ['\\', c]
  else if isExtending c ∨ ¬isPrintable c then codePoint c
  else [c]

/-- The text between double quotes, each character escaped where it has to be. -/
def quoted (text : String) : String :=
  String.ofList (('"' :: text.toList.flatMap quotedChar) ++ ['"'])

end TunerBroker.Text
