import AssetCompiler.Process.Program
import AssetCompiler.Text.Octets

/-! # Sets of octets

A set is written as a row of characters, ranges, named classes and repetitions. The order
counts where octets are exchanged for those at the same place of another set.
-/
namespace AssetCompiler.Exchange

inductive Element where
  | single (c : Char)
  | range (first last : Char)
  | named (name : String)
  | like (c : Char)
  /-- A character so many times, or as often as there is room. -/
  | repeated (c : Char) (count : Option Nat)
  deriving DecidableEq, Repr

def octets : Octets := (List.range 256).map Char.ofNat

def Element.members : Element → Octets
  | single c | like c => [c]
  | range first last => (List.range' first.toNat (last.toNat + 1 - first.toNat)).map Char.ofNat
  | named name => octets.filter (OctetClass.holds name)
  | repeated c count => List.replicate (count.getD 0) c

/-- A character of a written set, and whether a backslash stood before it. -/
structure Glyph where
  char : Char
  escaped : Bool := false
  deriving DecidableEq, Repr

def isOctal (c : Char) : Bool := '0' ≤ c && c ≤ '7'

def octalValue (ds : Octets) : Nat := ds.foldl (fun n c => 8 * n + (c.toNat - 48)) 0

def letterEscape (c : Char) : Char :=
  (("abfnrtv".toList.zip "\x07\x08\x0c\n\r\t\x0b".toList).lookup c).getD c

/-- How many octal digits belong to an escape: as many as make an octet, at most three. -/
def octalLength (cs : Octets) : Nat :=
  let ds := (cs.take 3).takeWhile isOctal
  if 255 < octalValue ds then 2 else ds.length

def remark (cs : Octets) : List Octets :=
  match cs with
  | [] => ["warning: an unescaped backslash at end of string is not portable".toList]
  | a :: b :: c :: _ =>
    if isOctal a && isOctal b && isOctal c && 255 < octalValue [a, b, c] then
      ["warning: the ambiguous octal escape \\".toList ++ [a, b, c] ++
        " is being\n\tinterpreted as the 2-byte sequence \\0".toList ++ [a, b] ++ ", ".toList ++ [c]]
    else []
  | _ => []

/-- Resolves the escapes of a written set; gives its glyphs and remarks. -/
def glyphs (cs : Octets) : List Glyph × List Octets :=
  match cs with
  | [] => ([], [])
  | '\\' :: [] => ([⟨'\\', false⟩], remark [])
  | '\\' :: c :: rest =>
    if isOctal c then
      let n := octalLength (c :: rest)
      let (gs, remarks) := glyphs (rest.drop (n - 1))
      (⟨Char.ofNat (octalValue ((c :: rest).take n)), true⟩ :: gs, remark (c :: rest) ++ remarks)
    else
      let (gs, remarks) := glyphs rest
      (⟨letterEscape c, true⟩ :: gs, remarks)
  | c :: rest =>
    let (gs, remarks) := glyphs rest
    (⟨c, false⟩ :: gs, remarks)
  termination_by cs.length
  decreasing_by all_goals simp only [List.length_cons, List.length_drop]; omega

def shownChar (c : Char) : Octets :=
  if Quoting.isPrintable c then [c]
  else '\\' :: ['0' , '0', '0'].zipWith (fun _ d => Char.ofNat (48 + c.toNat / d % 8)) [64, 8, 1]

def shownText (gs : List Glyph) : Octets :=
  gs.flatMap fun g =>
    if g.char = '\\' then ['\\', '\\']
    else match Quoting.escapeLetter? g.char with
      | some l => ['\\', l]
      | none => shownChar g.char

/-- Whether the first glyph is a given character that means what it means. -/
def startsWith (c : Char) (gs : List Glyph) : Bool := gs.head? == some ⟨c, false⟩

/-- The glyphs up to a delimiter before a closing bracket, and those behind the bracket. -/
def spanDelimited (c : Char) : List Glyph → Option (List Glyph × List Glyph)
  | a :: b :: rest =>
    if a == ⟨c, false⟩ && b == ⟨']', false⟩ then some ([], rest)
    else (spanDelimited c (b :: rest)).map fun (inside, rest) => (a :: inside, rest)
  | _ => none

def repetition? : List Glyph → Option (Except Octets (Element × List Glyph))
  | c :: star :: rest =>
    if star == ⟨'*', false⟩ then
      let inside := rest.takeWhile fun g => !g.escaped && g.char != ']'
      match rest.drop inside.length with
      | close :: rest =>
        if close == ⟨']', false⟩ then
          let ds := inside.map Glyph.char
          if ds = [] then some (.ok (.repeated c.char none, rest))
          else
            let isOctalText := ds.head? == some '0'
            let value := if isOctalText then octalValue ds
              else (String.ofList ds).toNat?.getD 0
            if ds.all (if isOctalText then isOctal else Char.isDigit) && value < 2 ^ 64 then
              some (.ok (.repeated c.char (if value = 0 then none else some value), rest))
            else some (.error ("invalid repeat count ".toList ++ Quoting.literal (shownText inside) ++
              " in [c*n] construct".toList))
        else none
      | [] => none
    else none
  | _ => none

/-- Whether a star and digits stand before a closing bracket. -/
def looksRepeated (gs : List Glyph) : Bool :=
  startsWith '*' gs && startsWith ']' ((gs.drop 1).dropWhile fun g => g.char.isDigit)

def class? (mark : Char) (gs : List Glyph) : Option (Except Octets (Element × List Glyph)) :=
  match spanDelimited mark gs with
  | none => none
  | some (inside, rest) =>
    let name := String.ofList (inside.map Glyph.char)
    if inside.isEmpty then
      some (.error (if mark = ':' then "missing character class name '[::]'".toList
        else "missing equivalence class character '[==]'".toList))
    else if mark = ':' then
      if OctetClass.names.contains name then some (.ok (.named name, rest))
      else if looksRepeated gs then none
      else some (.error ("invalid character class ".toList ++ Quoting.literal (shownText inside)))
    else match inside with
      | [g] => some (.ok (.like g.char, rest))
      | _ =>
        if looksRepeated gs then none
        else some (.error (shownText inside ++
          ": equivalence class operand must be a single character".toList))

/-- What an opening bracket begins, if it begins anything. -/
def bracket? : List Glyph → Option (Except Octets (Element × List Glyph))
  | mark :: rest =>
    let named := if mark == ⟨':', false⟩ || mark == ⟨'=', false⟩ then class? mark.char rest else none
    named.or (repetition? (mark :: rest))
  | [] => none

def element (g : Glyph) (gs : List Glyph) : Except Octets (Element × List Glyph) :=
  match if g == ⟨'[', false⟩ && 2 ≤ gs.length then bracket? gs else none with
  | some found => found
  | none =>
    match gs with
    | dash :: last :: rest =>
      if dash == ⟨'-', false⟩ then
        if g.char ≤ last.char then .ok (.range g.char last.char, rest)
        else .error ("range-endpoints of '".toList ++ shownChar g.char ++ '-' :: shownChar last.char ++
          "' are in reverse collating sequence order".toList)
      else .ok (.single g.char, gs)
    | _ => .ok (.single g.char, gs)

/-- The elements of glyphs; the number bounds how many there can be. -/
def elementsOf : Nat → List Glyph → Except Octets (List Element)
  | 0, _ => .ok []
  | _ + 1, [] => .ok []
  | n + 1, g :: gs => do
    let (e, rest) ← element g gs
    let es ← elementsOf n rest
    .ok (e :: es)

end AssetCompiler.Exchange
