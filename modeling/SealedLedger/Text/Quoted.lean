import SealedLedger.Text.Hex
import SealedLedger.Text.Printable

/-!
# Text quoted in messages

Messages show the text they speak of in quotes, on one line, with every character visible: the
quote in use and the backslash are escaped, four controls have a letter, and any other character
that does not print on its own is written by its code point.

## Main definitions

* `Quoted.string` — a text in double quotes.
* `Quoted.char` — a character in single quotes.
-/

namespace SealedLedger

namespace Quoted

/-- A character as it stands between quotes of the given kind. -/
def escape (quote : Char) (c : Char) : List Char :=
  if c = quote ∨ c = '\\' then ['\\', c]
  else if c = '\n' then ['\\', 'n']
  else if c = '\r' then ['\\', 'r']
  else if c = '\t' then ['\\', 't']
  else if c = '\x00' then ['\\', '0']
  else if Printable.isPrintable c && !Printable.isExtending c then [c]
  else ['\\', 'u', '\x7b'] ++ Hex.ofNat c.toNat ++ ['\x7d']

/-- A text between double quotes. -/
def string (s : String) : String :=
  String.ofList ('"' :: s.toList.flatMap (escape '"') ++ ['"'])

/-- A character between single quotes. -/
def char (c : Char) : String :=
  String.ofList ('\'' :: escape '\'' c ++ ['\''])

end Quoted

end SealedLedger
