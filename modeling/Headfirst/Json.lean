import Headfirst.Text.Basic

namespace Headfirst

/-- A JSON document whose objects keep the order of their fields. -/
inductive Json where
  | null
  | bool (value : Bool)
  | int (value : Int)
  | str (text : String)
  | arr (items : List Json)
  | obj (fields : List (String × Json))

namespace Json

/-- A character as a UTF-16 unit, or as two of them beyond the basic plane. -/
def escapedUnits (code : Nat) : List Char :=
  if code < 0x10000 then '\\' :: 'u' :: Text.hex 4 code
  else
    let high := 0xD800 + (code - 0x10000) / 0x400
    let low := 0xDC00 + (code - 0x10000) % 0x400
    '\\' :: 'u' :: Text.hex 4 high ++ '\\' :: 'u' :: Text.hex 4 low

/-- One character of a string.  Everything outside printable ASCII is escaped. -/
def escapedChar (char : Char) : List Char :=
  match char with
  | '"' => ['\\', '"']
  | '\\' => ['\\', '\\']
  | '\n' => ['\\', 'n']
  | '\r' => ['\\', 'r']
  | '\t' => ['\\', 't']
  | '\x08' => ['\\', 'b']
  | '\x0c' => ['\\', 'f']
  | char =>
      if 0x20 ≤ char.toNat ∧ char.toNat < 0x7F then [char] else escapedUnits char.toNat

def quoted (text : String) : String :=
  String.ofList ('"' :: text.toList.flatMap escapedChar ++ ['"'])

/-- Items between brackets, each on a line of its own.  No items, no lines. -/
def enclosed (opening closing : String) (indent : Nat) (items : List String) : String :=
  if items.isEmpty then opening ++ closing
  else
    let line := "\n".pushn ' ' indent
    opening ++ line ++ "  " ++ (("," ++ line ++ "  ").intercalate items) ++ line ++ closing

mutual

def pretty (indent : Nat) : Json → String
  | null => "null"
  | bool value => if value then "true" else "false"
  | int value => toString value
  | str text => quoted text
  | arr items => enclosed "[" "]" indent (prettyItems (indent + 2) items)
  | obj fields => enclosed "\x7b" "\x7d" indent (prettyFields (indent + 2) fields)

def prettyItems (indent : Nat) : List Json → List String
  | [] => []
  | item :: items => item.pretty indent :: prettyItems indent items

def prettyFields (indent : Nat) : List (String × Json) → List String
  | [] => []
  | (name, value) :: fields =>
      (quoted name ++ ": " ++ value.pretty indent) :: prettyFields indent fields

end

end Json

end Headfirst
