import Headfirst.Text.Basic

namespace Headfirst.Text

/-! Integers as they are typed: a sign, and decimal digits of any script (general category Nd of
Unicode 14). -/

/-- The zero of each script beyond ASCII.  The digits one to nine follow it in order. -/
def scriptZeros : List Nat :=
  [0x660, 0x6F0, 0x7C0, 0x966, 0x9E6, 0xA66, 0xAE6, 0xB66, 0xBE6, 0xC66, 0xCE6, 0xD66, 0xDE6,
    0xE50, 0xED0, 0xF20, 0x1040, 0x1090, 0x17E0, 0x1810, 0x1946, 0x19D0, 0x1A80, 0x1A90, 0x1B50,
    0x1BB0, 0x1C40, 0x1C50, 0xA620, 0xA8D0, 0xA900, 0xA9D0, 0xA9F0, 0xAA50, 0xABF0, 0xFF10,
    0x104A0, 0x10D30, 0x11066, 0x110F0, 0x11136, 0x111D0, 0x112F0, 0x11450, 0x114D0, 0x11650,
    0x116C0, 0x11730, 0x118E0, 0x11950, 0x11C50, 0x11D50, 0x11DA0, 0x16A60, 0x16AC0, 0x16B50,
    0x1D7CE, 0x1D7D8, 0x1D7E2, 0x1D7EC, 0x1D7F6, 0x1E140, 0x1E2F0, 0x1E950, 0x1FBF0]

def decimalValue? (char : Char) : Option Nat :=
  if char.toNat < 0x80 then
    if char.isDigit then some (char.toNat - 0x30) else none
  else
    (scriptZeros.find? fun first => first ≤ char.toNat && char.toNat < first + 10).map
      (char.toNat - ·)

def maxDigits : Nat := 4300

/-- The values of digits that may be grouped by single underscores, most significant
first. -/
def digitValues? : List Char → Option (List Nat)
  | [] => none
  | [char] => (decimalValue? char).map ([·])
  | char :: '_' :: rest => do
      let value ← decimalValue? char
      let values ← digitValues? rest
      return value :: values
  | char :: rest => do
      let value ← decimalValue? char
      let values ← digitValues? rest
      return value :: values

def natural? (text : List Char) : Option Nat := do
  let values ← digitValues? text
  if values.length ≤ maxDigits then
    return values.foldl (fun number digit => 10 * number + digit) 0
  else none

def integer? (text : String) : Option Int :=
  match trim isBlank text.toList with
  | '-' :: digits => (natural? digits).map fun number => -number
  | '+' :: digits => (natural? digits).map (Int.ofNat ·)
  | digits => (natural? digits).map (Int.ofNat ·)

def isDecimalDigit (char : Char) : Bool :=
  (decimalValue? char).isSome

/-- Whether a text is written like a negative number, with or without a fraction.  A
line feed may follow. -/
def looksNegative (text : String) : Bool :=
  match text.toList with
  | '-' :: rest =>
      let body := if rest.getLast? = some '\n' then rest.dropLast else rest
      match body.dropWhile isDecimalDigit with
      | [] => !body.isEmpty
      | '.' :: fraction => !fraction.isEmpty && fraction.all isDecimalDigit
      | _ => false
  | _ => false

end Headfirst.Text
