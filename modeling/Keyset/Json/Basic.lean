import Keyset.Text.Lexical

/-!
# Json documents that are written

The values of the format, with integers as the only numbers, and their compact text: no blanks, members in order,
and an escape only for the quote, the backslash and control characters.
-/

namespace Keyset

/-- A value of the format, as far as it is written. -/
inductive Json where
  | null
  | bool (value : Bool)
  | number (value : Int)
  | text (value : String)
  | array (items : List Json)
  | object (members : List (String × Json))

namespace Json

/-- A hexadecimal digit in small letters. -/
def hexDigit (n : Nat) : Char :=
  Nat.digitChar n

/-- A character inside quotes. -/
def escape (c : Char) : List Char :=
  if c = '"' then ['\\', '"']
  else if c = '\\' then ['\\', '\\']
  else if c = '\x08' then ['\\', 'b']
  else if c = '\x0c' then ['\\', 'f']
  else if c = '\n' then ['\\', 'n']
  else if c = '\r' then ['\\', 'r']
  else if c = '\t' then ['\\', 't']
  else if c.toNat < 0x20 then ['\\', 'u', '0', '0', hexDigit (c.toNat / 16), hexDigit (c.toNat % 16)]
  else [c]

/-- A text in quotes. -/
def quote (text : String) : List Char :=
  '"' :: text.toList.flatMap escape ++ ['"']

mutual

/-- The compact text of a value. -/
def chars : Json → List Char
  | .null => ['n', 'u', 'l', 'l']
  | .bool true => ['t', 'r', 'u', 'e']
  | .bool false => ['f', 'a', 'l', 's', 'e']
  | .number n => Decimal.ofInt n
  | .text s => quote s
  | .array items => '[' :: [','].intercalate (itemChars items) ++ [']']
  | .object members => '\x7b' :: [','].intercalate (memberChars members) ++ ['\x7d']

/-- The texts of the items of an array. -/
def itemChars : List Json → List (List Char)
  | [] => []
  | item :: items => item.chars :: itemChars items

/-- The texts of the members of an object. -/
def memberChars : List (String × Json) → List (List Char)
  | [] => []
  | (key, value) :: members => (quote key ++ ':' :: value.chars) :: memberChars members

end

theorem itemChars_eq_map (items : List Json) : itemChars items = items.map chars := by
  induction items with
  | nil => rfl
  | cons item items ih => rw [itemChars, ih, List.map_cons]

/-- The texts of the members, one by one. -/
theorem memberChars_eq_map (members : List (String × Json)) :
    memberChars members = members.map fun member => quote member.1 ++ ':' :: member.2.chars := by
  induction members with
  | nil => rfl
  | cons member members ih => rw [memberChars, ih, List.map_cons]

/-- The compact text of a value. -/
def render (value : Json) : String :=
  String.ofList value.chars

/-- A value that may be missing is written as null. -/
def optional (write : α → Json) : Option α → Json
  | none => .null
  | some value => write value

end Json

end Keyset
