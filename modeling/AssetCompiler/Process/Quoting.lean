import AssetCompiler.Text.Octets

/-! # Names in diagnostics

A diagnostic quotes a name the way a script would write it: in single quotes, with octets that
cannot be printed as escapes between them. A name that only needs its apostrophes protected is
put in double quotes, and a name without anything unusual can stay as it is.
-/
namespace AssetCompiler.Quoting

def isHarmless (c : Char) : Bool := c.isAlphanum || "%+,-./:]_".toList.contains c

/-- Characters that mean something in a script wherever they stand. -/
def isSpecial (c : Char) : Bool := " !\"$&()*;<=>[^`|'\\?".toList.contains c

def isPrintable (c : Char) : Bool := 0x20 ≤ c.toNat && c.toNat < 0x7F

def isPlain (name : Octets) : Bool :=
  name ≠ [] && name.all (fun c => isPrintable c && !isSpecial c) &&
    name.head? != some '#' && name.head? != some '~' && name != ['\x7b'] && name != ['\x7d']

def standsInDouble (first : Bool) (c : Char) : Bool :=
  c == ' ' || c == '\'' || isHarmless c || ((c == '#' || c == '~') && first) ||
    (isPrintable c && !isSpecial c && !"#~?\x7b\x7d".toList.contains c)

def escapeLetter? (c : Char) : Option Char :=
  ("\x07\x08\t\n\x0b\x0c\r".toList.zip "abtnvfr".toList).lookup c

def escape (c : Char) : Octets :=
  match escapeLetter? c with
  | some l => ['\\', l]
  | none =>
    let digit (n : Nat) := Char.ofNat (48 + n % 8)
    ['\\', digit (c.toNat / 64), digit (c.toNat / 8), digit c.toNat]

/-- A name in single quotes in which quotes and backslashes have a backslash in front. -/
def literal (name : Octets) : Octets :=
  '\'' :: (name.flatMap fun c =>
    if c = '\'' || c = '\\' then ['\\', c] else if isPrintable c then [c] else escape c) ++ ['\'']

/-- The inside of single quotes; `escaping` tells whether escapes are being written. -/
def singleBody (escaping : Bool) : Octets → Octets
  | [] => []
  | c :: cs =>
    if isPrintable c then
      (if escaping then ['\'', '\''] else []) ++
        (if c = '\'' then ['\'', '\\', '\'', '\''] else [c]) ++ singleBody false cs
    else (if escaping then [] else ['\'', '$', '\'']) ++ escape c ++ singleBody true cs

def quoted (name : Octets) : Octets :=
  let fits := name.zipIdx.all fun (c, i) => standsInDouble (i == 0) c
  if name.contains '\'' && fits then '"' :: name ++ ['"']
  else '\'' :: singleBody false name ++ ['\'']

def quotedIfNeeded (name : Octets) : Octets := if isPlain name then name else quoted name

end AssetCompiler.Quoting
