/-!
# JSON text

The part of JSON that object files use: strings, integers, truth values, lists and objects. Text is
written in one of two layouts: compact, or with a line for every element and two blanks for every
level.
-/

namespace Smalltalk

/-- A JSON value. -/
inductive JsonValue where
  /-- A string. -/
  | string (value : String)
  /-- An integer. -/
  | integer (value : Int)
  /-- A truth value. -/
  | boolean (value : Bool)
  /-- A list. -/
  | list (items : List JsonValue)
  /-- An object, with its members in order. -/
  | object (members : List (String × JsonValue))
  deriving Inhabited

namespace JsonValue

/-- A character inside a string. Quotes, backslashes and control characters are escaped. -/
def escape (c : Char) : List Char :=
  if c = '"' then ['\\', '"']
  else if c = '\\' then ['\\', '\\']
  else if c.toNat = 0x08 then ['\\', 'b']
  else if c = '\t' then ['\\', 't']
  else if c = '\n' then ['\\', 'n']
  else if c.toNat = 0x0C then ['\\', 'f']
  else if c = '\r' then ['\\', 'r']
  else if c.toNat < 0x20 then
    ['\\', 'u', '0', '0', Nat.digitChar (c.toNat / 16), Nat.digitChar (c.toNat % 16)]
  else [c]

/-- A string between quotes. -/
def quoted (s : String) : List Char :=
  '"' :: s.toList.flatMap escape ++ ['"']

/-- A value without parts. -/
def boolText (b : Bool) : List Char := (if b then "true" else "false").toList

mutual

/-- The compact text of a value. -/
def compact : JsonValue → List Char
  | string s => quoted s
  | integer n => (toString n).toList
  | boolean b => boolText b
  | list [] => ['[', ']']
  | list (v :: vs) => '[' :: compact v ++ compactItems vs ++ [']']
  | object [] => ['\x7b', '\x7d']
  | object ((k, v) :: ms) => '\x7b' :: quoted k ++ ':' :: compact v ++ compactMembers ms ++ ['\x7d']

/-- The elements after the first. -/
def compactItems : List JsonValue → List Char
  | [] => []
  | v :: vs => ',' :: compact v ++ compactItems vs

/-- The members after the first. -/
def compactMembers : List (String × JsonValue) → List Char
  | [] => []
  | (k, v) :: ms => ',' :: quoted k ++ ':' :: compact v ++ compactMembers ms

end

/-- A new line, so many levels to the right. -/
def newline (depth : Nat) : List Char := '\n' :: List.replicate (2 * depth) ' '

mutual

/-- The text of a value in lines, so many levels to the right. -/
def pretty (depth : Nat) : JsonValue → List Char
  | string s => quoted s
  | integer n => (toString n).toList
  | boolean b => boolText b
  | list [] => ['[', ']']
  | list (v :: vs) =>
    '[' :: newline (depth + 1) ++ pretty (depth + 1) v ++ prettyItems (depth + 1) vs
      ++ newline depth ++ [']']
  | object [] => ['\x7b', '\x7d']
  | object ((k, v) :: ms) =>
    '\x7b' :: newline (depth + 1) ++ quoted k ++ ':' :: ' ' :: pretty (depth + 1) v
      ++ prettyMembers (depth + 1) ms ++ newline depth ++ ['\x7d']

/-- The elements after the first. -/
def prettyItems (depth : Nat) : List JsonValue → List Char
  | [] => []
  | v :: vs => ',' :: newline depth ++ pretty depth v ++ prettyItems depth vs

/-- The members after the first. -/
def prettyMembers (depth : Nat) : List (String × JsonValue) → List Char
  | [] => []
  | (k, v) :: ms =>
    ',' :: newline depth ++ quoted k ++ ':' :: ' ' :: pretty depth v ++ prettyMembers depth ms

end

end JsonValue

end Smalltalk
