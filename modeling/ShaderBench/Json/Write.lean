/-
JSON values and their text, on one line or indented by two spaces.
-/
namespace ShaderBench

/-- A number is kept as its text. -/
inductive Json where
  | null
  | bool (b : Bool)
  | number (text : List Char)
  | string (s : List Char)
  | array (items : List Json)
  | object (members : List (String × Json))

namespace Json

def hexDigit (n : Nat) : Char := if n < 10 then Char.ofNat (48 + n) else Char.ofNat (87 + n)

/-- A character as it stands between quotes. Quotes, backslashes and control characters are
    escaped, all others stand for themselves. -/
def escape (c : Char) : List Char :=
  if c = '"' then ['\\', '"']
  else if c = '\\' then ['\\', '\\']
  else if c = '\n' then ['\\', 'n']
  else if c = '\r' then ['\\', 'r']
  else if c = '\t' then ['\\', 't']
  else if c = '\x08' then ['\\', 'b']
  else if c = '\x0c' then ['\\', 'f']
  else if c.toNat < 0x20 then
    ['\\', 'u', '0', '0', hexDigit (c.toNat / 16), hexDigit (c.toNat % 16)]
  else [c]

def quote (s : List Char) : List Char := '"' :: (s.flatMap escape ++ ['"'])

def separated (separator : List Char) : List (List Char) → List Char
  | [] => []
  | [x] => x
  | x :: xs => x ++ separator ++ separated separator xs

def atom : Json → List Char
  | .null => "null".toList
  | .bool true => "true".toList
  | .bool false => "false".toList
  | .number text => text
  | .string s => quote s
  | .array _ | .object _ => []

mutual
def compact : Json → List Char
  | .array items => '[' :: (separated [','] (compactItems items) ++ [']'])
  | .object members => '{' :: (separated [','] (compactMembers members) ++ ['}'])
  | .null => atom .null
  | .bool b => atom (.bool b)
  | .number text => atom (.number text)
  | .string s => atom (.string s)

def compactItems : List Json → List (List Char)
  | [] => []
  | item :: items => compact item :: compactItems items

def compactMembers : List (String × Json) → List (List Char)
  | [] => []
  | (name, value) :: members =>
    (quote name.toList ++ ':' :: compact value) :: compactMembers members
end

def lineBreak (indent : Nat) : List Char := '\n' :: List.replicate indent ' '

def block (opening closing : Char) (indent : Nat) (items : List (List Char)) : List Char :=
  if items.isEmpty then [opening, closing]
  else opening :: (lineBreak (indent + 2) ++ separated (',' :: lineBreak (indent + 2)) items ++
    lineBreak indent ++ [closing])

mutual
def indented (indent : Nat) : Json → List Char
  | .array items => block '[' ']' indent (indentedItems (indent + 2) items)
  | .object members => block '{' '}' indent (indentedMembers (indent + 2) members)
  | .null => atom .null
  | .bool b => atom (.bool b)
  | .number text => atom (.number text)
  | .string s => atom (.string s)

def indentedItems (indent : Nat) : List Json → List (List Char)
  | [] => []
  | item :: items => indented indent item :: indentedItems indent items

def indentedMembers (indent : Nat) : List (String × Json) → List (List Char)
  | [] => []
  | (name, value) :: members =>
    (quote name.toList ++ ':' :: ' ' :: indented indent value) :: indentedMembers indent members
end

end Json
end ShaderBench
