import AssetCompiler.Json.Number
import AssetCompiler.Text.Blank

/-! # Writing JSON

There are two layouts: compact, without any blanks, and indented by two spaces a level, where
every part stands on a line of its own. Both escape quotes, backslashes and control
characters and nothing else.
-/
namespace AssetCompiler.Json

open Text (unite)

def hexChar (n : Nat) : Char :=
  if n < 10 then Char.ofNat (48 + n) else Char.ofNat (87 + n)

def escapeChar (c : Char) : List Char :=
  if c = '"' then ['\\', '"']
  else if c = '\\' then ['\\', '\\']
  else if c = '\n' then ['\\', 'n']
  else if c = '\r' then ['\\', 'r']
  else if c = '\t' then ['\\', 't']
  else if c = '\x08' then ['\\', 'b']
  else if c = '\x0c' then ['\\', 'f']
  else if c.toNat < 0x20 then ['\\', 'u', '0', '0', hexChar (c.toNat / 16), hexChar (c.toNat % 16)]
  else [c]

def quote (s : String) : List Char :=
  '"' :: s.toList.flatMap escapeChar ++ ['"']

def scalarText : Json → List Char
  | null => "null".toList
  | bool b => if b then "true".toList else "false".toList
  | integer i => (toString i).toList
  | float f => (floatText f).toList
  | string s => quote s
  | array _ => []
  | object _ => []

mutual
def compactChars : Json → List Char
  | .array items => '[' :: unite [','] (compactItems items) ++ [']']
  | .object fields => '\x7b' :: unite [','] (compactFields fields) ++ ['\x7d']
  | v => scalarText v

def compactItems : List Json → List (List Char)
  | [] => []
  | v :: vs => compactChars v :: compactItems vs

def compactFields : List (String × Json) → List (List Char)
  | [] => []
  | (k, v) :: rest => (quote k ++ ':' :: compactChars v) :: compactFields rest
end

def compact (v : Json) : String := String.ofList (compactChars v)

def newline (level : Nat) : List Char := '\n' :: List.replicate (2 * level) ' '

/-- Parts in brackets, each on its own line; without parts the brackets stand together. -/
def block (level : Nat) (left right : Char) (parts : List (List Char)) : List Char :=
  if parts = [] then [left, right]
  else left :: newline (level + 1) ++ unite (',' :: newline (level + 1)) parts ++
    newline level ++ [right]

mutual
def indentedChars (level : Nat) : Json → List Char
  | .array items => block level '[' ']' (indentedItems (level + 1) items)
  | .object fields => block level '\x7b' '\x7d' (indentedFields (level + 1) fields)
  | v => scalarText v

def indentedItems (level : Nat) : List Json → List (List Char)
  | [] => []
  | v :: vs => indentedChars level v :: indentedItems level vs

def indentedFields (level : Nat) : List (String × Json) → List (List Char)
  | [] => []
  | (k, v) :: rest => (quote k ++ ':' :: ' ' :: indentedChars level v) :: indentedFields level rest
end

/-- The text with one part on a line. -/
def indented (v : Json) : String := String.ofList (indentedChars 0 v)

end AssetCompiler.Json
