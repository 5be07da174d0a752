import AssetCompiler.Toml.Document
import AssetCompiler.Toml.Scalar
import AssetCompiler.Toml.Text

/-! # Reading TOML

A document is a list of lines, each with a key and its value, a table header or nothing. The
reader bounds the number of its steps by the length of the text, which each step shortens.
-/
namespace AssetCompiler.Toml

open Text (strip?)

/-- Arrays, inline tables and dotted keys stay below this depth. -/
def depthLimit : Nat := 80

def skipSpace (cs : List Char) : List Char := cs.dropWhile isSpace

def skipComment (cs : List Char) : List Char :=
  match cs with
  | '#' :: rest => rest.dropWhile fun c => isPlain c
  | _ => cs

def isBareKeyChar (c : Char) : Bool := c.isAlphanum || c == '_' || c == '-'

def simpleKey? (cs : List Char) : Option (String × List Char) :=
  match cs with
  | '"' :: _ | '\'' :: _ => (lineString? cs).map fun (s, rest) => (String.ofList s, rest)
  | _ =>
    let key := cs.takeWhile isBareKeyChar
    if key = [] then none else some (String.ofList key, cs.dropWhile isBareKeyChar)

/-- Keys with dots between them, blanks around each left out. -/
def keyPath : Nat → List Char → Option (List String × List Char)
  | 0, _ => none
  | n + 1, cs => do
    let (key, cs) ← simpleKey? (skipSpace cs)
    match skipSpace cs with
    | '.' :: rest => (keyPath n rest).map fun (keys, rest) => (key :: keys, rest)
    | rest => some ([key], rest)

def key? (cs : List Char) : Option (List String × List Char) := keyPath (depthLimit - 1) cs

/-- Reads a number, a truth value or a date. Between a date and a time may stand a blank. -/
def wordValue? (cs : List Char) : Option (Toml × List Char) :=
  let first := cs.takeWhile isWordChar
  let rest := cs.dropWhile isWordChar
  match date? first, rest with
  | some (_, []), ' ' :: c :: more =>
    if c.isDigit then
      (word? (first ++ ' ' :: (c :: more).takeWhile isWordChar)).map
        (·, (c :: more).dropWhile isWordChar)
    else (word? first).map (·, rest)
  | _, _ => (word? first).map (·, rest)

def skipLines : Nat → List Char → List Char
  | 0, cs => cs
  | n + 1, cs =>
    match skipBreaks cs with
    | '#' :: rest => skipLines n (skipComment ('#' :: rest))
    | rest => rest

def skipAll (cs : List Char) : List Char := skipLines cs.length cs

def inlineTable? (pairs : List (List String × Node)) : Option Node :=
  let extend (t : Origin × Entries) (p : List String × Node) := Node.define p.1 p.2 t.1 t.2
  (pairs.foldlM extend (.header, [])).map fun t => .inlineTable t.2

mutual
def value : Nat → Nat → List Char → Option (Node × List Char)
  | 0, _, _ => none
  | n + 1, depth, cs =>
    match cs with
    | '"' :: _ | '\'' :: _ =>
      (string? cs).map fun (s, rest) => (.leaf (.string (String.ofList s)), rest)
    | '[' :: rest =>
      if depthLimit ≤ depth + 1 then none
      else (items n (depth + 1) (skipAll rest)).map fun (vs, rest) => (.list vs, rest)
    | '\x7b' :: rest =>
      if depthLimit ≤ depth + 1 then none
      else match skipSpace rest with
        | '\x7d' :: rest => some (.inlineTable [], rest)
        | rest => (pairs n (depth + 1) rest).bind fun (ps, rest) => (inlineTable? ps).map (·, rest)
    | _ => (wordValue? cs).map fun (v, rest) => (.leaf v, rest)

def items : Nat → Nat → List Char → Option (List Node × List Char)
  | 0, _, _ => none
  | n + 1, depth, cs =>
    match cs with
    | ']' :: rest => some ([], rest)
    | _ => do
      let (v, cs) ← value n depth cs
      match skipAll cs with
      | ',' :: rest => (items n depth (skipAll rest)).map fun (vs, rest) => (v :: vs, rest)
      | ']' :: rest => some ([v], rest)
      | _ => none

def pairs : Nat → Nat → List Char → Option (List (List String × Node) × List Char)
  | 0, _, _ => none
  | n + 1, depth, cs => do
    let (path, cs) ← key? cs
    let cs ← strip? ['='] cs
    let (v, cs) ← value n depth (skipSpace cs)
    match skipSpace cs with
    | ',' :: rest => (pairs n depth rest).map fun (ps, rest) => ((path, v) :: ps, rest)
    | '\x7d' :: rest => some ([(path, v)], rest)
    | _ => none
end

inductive Line where
  | blank
  | header (path : List String)
  | arrayHeader (path : List String)
  | pair (path : List String) (n : Node)

/-- Reads the content of a line, without blanks around it and a comment at its end. -/
def lineContent? (cs : List Char) : Option (Line × List Char) :=
  match cs with
  | '[' :: '[' :: rest => do
    let (path, rest) ← key? rest
    let rest ← strip? [']', ']'] rest
    some (.arrayHeader path, rest)
  | '[' :: rest => do
    let (path, rest) ← key? rest
    let rest ← strip? [']'] rest
    some (.header path, rest)
  | [] | '#' :: _ | '\n' :: _ | '\r' :: _ => some (.blank, cs)
  | _ => do
    let (path, rest) ← key? cs
    let rest ← strip? ['='] rest
    let (v, rest) ← value (rest.length + 1) 0 (skipSpace rest)
    some (.pair path v, rest)

def lines : Nat → List Char → Option (List Line)
  | 0, _ => none
  | n + 1, cs => do
    let (line, rest) ← lineContent? (skipSpace cs)
    match skipComment (skipSpace rest) with
    | [] => some [line]
    | rest => (lines n (← lineBreak? rest)).map (line :: ·)

/-- The tables read so far, and the path of the table that the next pairs belong to. -/
structure Draft where
  entries : Entries := []
  current : List String := []

def Draft.apply (d : Draft) (current : List String) (change : Change) : Option Draft :=
  (change .header d.entries).map fun (_, entries) => ⟨entries, current⟩

def Draft.take (d : Draft) : Line → Option Draft
  | .blank => some d
  | .header path => d.apply path (Node.atPath false Node.openTable path)
  | .arrayHeader path => d.apply path (Node.atPath false Node.addTable path)
  | .pair path n => d.apply d.current (Node.within false (Node.define path n) d.current)

/-- The value of a whole text. A byte order mark in front does not count. -/
def parse? (s : String) : Option Toml :=
  let cs := match s.toList with
    | '\uFEFF' :: cs => cs
    | cs => cs
  (lines (cs.length + 1) cs).bind fun ls =>
    (ls.foldlM Draft.take {}).bind fun d => Node.tableToToml? d.entries

end AssetCompiler.Toml
