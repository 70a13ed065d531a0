/-
DepSchema.Text.Quoted — string literals as they are shown.

A literal stands between double quotes. Inside, the quote, the backslash, tab, line feed, carriage
return and the null character have an escape of two characters; a character that puts no mark on
the page, or that would join the one before it, is written by its code point in hexadecimal
between braces; all others stand for themselves, the single quote included.
-/
import DepSchema.Text.Invisible
import DepSchema.Text.Extending

namespace DepSchema.Text

/-- The letter behind the backslash, for the characters that have one. -/
def escapeLetter? (c : Char) : Option Char :=
  if c = '"' then some '"'
  else if c = '\\' then some '\\'
  else if c = '\t' then some 't'
  else if c = '\n' then some 'n'
  else if c = '\r' then some 'r'
  else if c = '\x00' then some '0'
  else none

/-- Whether a character stands for itself. The printable characters below 127 all do. -/
def standsForItself (c : Char) : Bool :=
  if c.toNat < 0x7F then 0x20 ≤ c.toNat else !extending.contains c && !invisible.contains c

/-- The code point of a character, as it is written when the character itself is not. -/
def codePoint (c : Char) : List Char :=
  ['\\', 'u', '\x7b'] ++ Nat.toDigits 16 c.toNat ++ ['\x7d']

/-- One character inside a literal. -/
def quoteChar (c : Char) : List Char :=
  match escapeLetter? c with
  | some letter => ['\\', letter]
  | none => if standsForItself c then [c] else codePoint c

/-- The literal for a text. -/
def quote (s : String) : String :=
  String.ofList ('"' :: s.toList.flatMap quoteChar ++ ['"'])

end DepSchema.Text
