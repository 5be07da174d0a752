import AssetCompiler.Text.Blank

/-! # TOML strings

Strings stand in single or double quotes, on one line or, between three quotes, on several.
Double quotes resolve escapes. A line break in a string is read as a line feed.
-/
namespace AssetCompiler.Toml

open Text (strip?)

abbrev Scan (α : Type) := Option (α × List Char)

def isSpace (c : Char) : Bool := c == ' ' || c == '\t'

/-- Control characters other than the tab appear nowhere in a text. -/
def isPlain (c : Char) : Bool := c == '\t' || (0x20 ≤ c.toNat && c.toNat != 0x7F)

def lineBreak? : List Char → Option (List Char)
  | '\n' :: cs => some cs
  | '\r' :: '\n' :: cs => some cs
  | _ => none

def hexValue? (ds : List Char) : Option Nat :=
  ds.foldlM (fun n c =>
    if c.isDigit then some (16 * n + (c.toNat - 48))
    else if 'a' ≤ c && c ≤ 'f' then some (16 * n + (c.toNat - 87))
    else if 'A' ≤ c && c ≤ 'F' then some (16 * n + (c.toNat - 55))
    else none) 0

def codePoint? (n : Nat) (cs : List Char) : Scan Char :=
  if (cs.take n).length = n then
    (hexValue? (cs.take n)).bind fun v =>
      if v < 0xD800 || (0xE000 ≤ v && v < 0x110000) then some (Char.ofNat v, cs.drop n) else none
  else none

def escape? : List Char → Scan Char
  | 'b' :: cs => some ('\x08', cs)
  | 't' :: cs => some ('\t', cs)
  | 'n' :: cs => some ('\n', cs)
  | 'f' :: cs => some ('\x0c', cs)
  | 'r' :: cs => some ('\r', cs)
  | '"' :: cs => some ('"', cs)
  | '\\' :: cs => some ('\\', cs)
  | 'u' :: cs => codePoint? 4 cs
  | 'U' :: cs => codePoint? 8 cs
  | _ => none

/-- The inside of a string in double quotes on one line. The first argument bounds the
number of characters. -/
def basicBody : Nat → List Char → Scan (List Char)
  | 0, _ => none
  | _ + 1, [] => none
  | _ + 1, '"' :: cs => some ([], cs)
  | n + 1, '\\' :: cs =>
    (escape? cs).bind fun (c, cs) => (basicBody n cs).map fun (s, cs) => (c :: s, cs)
  | n + 1, c :: cs =>
    if isPlain c then (basicBody n cs).map fun (s, cs) => (c :: s, cs) else none

def literalBody : List Char → Scan (List Char)
  | [] => none
  | '\'' :: cs => some ([], cs)
  | c :: cs => if isPlain c then (literalBody cs).map fun (s, cs) => (c :: s, cs) else none

def skipBreaks : List Char → List Char
  | ' ' :: cs => skipBreaks cs
  | '\t' :: cs => skipBreaks cs
  | '\n' :: cs => skipBreaks cs
  | '\r' :: '\n' :: cs => skipBreaks cs
  | cs => cs

/-- The rest of a text when an escaped line break stands in front: the blanks and line breaks
that follow are left out. -/
def continuation? (cs : List Char) : Option (List Char) :=
  (lineBreak? (cs.dropWhile isSpace)).map skipBreaks

/-- The quotes at the end of a string on several lines: the last three close it, and up to
two before them belong to it. -/
def closing? (quote : Char) (cs : List Char) : Scan (List Char) :=
  let n := min 5 (cs.takeWhile (· == quote)).length
  if n < 3 then none else some (List.replicate (n - 3) quote, cs.drop n)

/-- The inside of a string on several lines; `escapes` tells whether a backslash counts. -/
def multilineBody (quote : Char) (escapes : Bool) : Nat → List Char → Scan (List Char)
  | 0, _ => none
  | _ + 1, [] => none
  | n + 1, c :: cs =>
    let continueWith (prepended : List Char) (rest : List Char) : Scan (List Char) :=
      (multilineBody quote escapes n rest).map fun (s, rest) => (prepended ++ s, rest)
    if c = quote then
      match closing? quote (c :: cs) with
      | some found => some found
      | none => continueWith [c] cs
    else if c = '\\' && escapes then
      match continuation? cs with
      | some rest => continueWith [] rest
      | none => (escape? cs).bind fun (e, rest) => continueWith [e] rest
    else match lineBreak? (c :: cs) with
      | some rest => continueWith ['\n'] rest
      | none => if isPlain c then continueWith [c] cs else none

/-- A line break right behind the opening quotes does not count. -/
def dropFirstBreak (cs : List Char) : List Char := (lineBreak? cs).getD cs

def lineString? : List Char → Scan (List Char)
  | '"' :: cs => basicBody (cs.length + 1) cs
  | '\'' :: cs => literalBody cs
  | _ => none

def string? (cs : List Char) : Scan (List Char) :=
  match strip? ['"', '"', '"'] cs, strip? ['\'', '\'', '\''] cs with
  | some body, _ => multilineBody '"' true (body.length + 1) (dropFirstBreak body)
  | _, some body => multilineBody '\'' false (body.length + 1) (dropFirstBreak body)
  | none, none => lineString? cs

end AssetCompiler.Toml
