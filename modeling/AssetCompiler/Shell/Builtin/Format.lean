import AssetCompiler.Decimal.Shortest
import AssetCompiler.Decimal.Reading
import AssetCompiler.Shell.Builtin.Options
import AssetCompiler.Shell.Escape
import AssetCompiler.Shell.State

/-! # Writing in a shell

Arguments are written one after another, or as a format asks for.
-/

namespace AssetCompiler.Shell.Builtin

/-! ## Writing arguments in a shell

The arguments are written with blanks between them and a line break at the end, with all
escapes resolved.
-/

def echoed (ending : Octets) : List Octets → Octets
  | [] => ending
  | arg :: rest =>
    let (text, ended) := Escape.argument arg
    if ended then text
    else text ++ (if rest.isEmpty then ending else ' ' :: echoed ending rest)

def echo (args : List Octets) : Act Nat := do
  match args with
  | ['-', 'n'] :: rest => Act.print (echoed [] rest)
  | args => Act.print (echoed ['\n'] args)
  return 0

/-! ## Writing in a format

A format is text with conversions, which take the arguments one after another. It is used again
as long as arguments are left.
-/


/-- A conversion: its flags, the least width, and the precision. -/
structure Conversion where
  flags : List Char := []
  width : Nat := 0
  precision? : Option Nat := none
  deriving Inhabited, Repr

namespace Conversion

def hasFlag (v : Conversion) (c : Char) : Bool := v.flags.contains c

def pad (v : Conversion) (o : Octets) : Octets :=
  let blanks := List.replicate (v.width - o.length) ' '
  if v.hasFlag '-' then o ++ blanks else blanks ++ o

/-- Fills a number up to the width; zeros stand behind what comes in front of the digits. -/
def padNumber (v : Conversion) (zeros : Bool) (front digits : Octets) : Octets :=
  if zeros && v.hasFlag '0' && !v.hasFlag '-' then
    front ++ List.replicate (v.width - front.length - digits.length) '0' ++ digits
  else v.pad (front ++ digits)

def text (v : Conversion) (o : Octets) : Octets := v.pad (o.take (v.precision?.getD o.length))

def signText (v : Conversion) (isNegative : Bool) : Octets :=
  if isNegative then ['-'] else if v.hasFlag '+' then ['+'] else if v.hasFlag ' ' then [' '] else []

/-- Digits, at least as many as the precision says; zero with a precision of zero has none. -/
def atLeast (v : Conversion) (n : Nat) (ds : Octets) : Octets :=
  let least := v.precision?.getD 1
  if n = 0 && v.precision? == some 0 then [] else List.replicate (least - ds.length) '0' ++ ds

def signed (v : Conversion) (i : Int) : Octets :=
  v.padNumber v.precision?.isNone (v.signText (i < 0))
    (v.atLeast i.natAbs (Octets.ofNat i.natAbs))

def unsigned (v : Conversion) (letter : Char) (n : Nat) : Octets :=
  let base := if letter = 'o' then 8 else if letter = 'u' then 10 else 16
  let ds := v.atLeast n (Nat.toDigits base n)
  let ds := if letter = 'o' && v.hasFlag '#' && ds.head? != some '0' then '0' :: ds else ds
  let mark := if base = 16 && v.hasFlag '#' && n ≠ 0 then ['0', 'x'] else []
  let upper (o : Octets) : Octets := if letter = 'X' then o.map Char.toUpper else o
  v.padNumber v.precision?.isNone (upper mark) (upper ds)

def fraction (v : Conversion) (letter : Char) (b : Decimal.Binary64) : Octets :=
  let upper (o : Octets) : Octets := if letter.isUpper then o.map Char.toUpper else o
  match b.decoded with
  | .nan => v.pad (upper "nan".toList)
  | .infinite isNegative => v.pad (v.signText isNegative ++ upper "inf".toList)
  | .finite isNegative mantissa exponent _ =>
    let r := (Decimal.Ratio.mk mantissa 1).scale 2 exponent
    let places := v.precision?.getD 6
    let digits := match letter.toLower with
      | 'f' => Decimal.fixed (v.hasFlag '#') places r
      | 'e' => Decimal.scientific (v.hasFlag '#') places r
      | _ => Decimal.general (v.hasFlag '#') (max places 1) r
    v.padNumber true (v.signText isNegative) (upper digits)

end Conversion

/-- What is left of the arguments, and whether one of them was not understood. -/
structure Formatting where
  args : List Octets
  failed : Bool := false

namespace Formatting

def take (g : Formatting) : Option Octets × Formatting :=
  match g.args with
  | a :: args => (some a, { g with args })
  | [] => (none, g)

/-- Complains about an argument that is not a number to its end. -/
def check (g : Formatting) (arg rest : Octets) (outOfRange : Bool) : Act Formatting := do
  if rest ≠ [] then
    let reason := if rest = arg then "expected numeric value" else "not completely converted"
    Act.complain (arg ++ ": ".toList ++ reason.toList)
    return { g with failed := true }
  else if outOfRange then
    Act.complain (arg ++ ": Numerical result out of range".toList)
    return { g with failed := true }
  else return g

/-- Takes a whole number. A quote stands for the code of what follows it. -/
def integer (g : Formatting) (isSigned : Bool) : Act (Int × Formatting) := do
  match g.take with
  | (none, g) => return (0, g)
  | (some arg, g) =>
    match arg with
    | '"' :: rest | '\'' :: rest => return (((rest.head?.map Char.toNat).getD 0 : Nat), g)
    | _ =>
      let (i, rest) := (Number.integer? true arg).getD (0, arg)
      let low : Int := if isSigned then -(2 ^ 63) else -(2 ^ 64) + 1
      let high : Int := if isSigned then 2 ^ 63 - 1 else 2 ^ 64 - 1
      let clamped := if isSigned then max low (min high i) else if i < low then high else min high i
      return (clamped, ← g.check arg rest (i < low || high < i))

def decimal (cs : Octets) : Decimal.Literal × Octets :=
  let (negative, body) := Decimal.spanSign (cs.dropWhile Number.isBlank)
  let (whole, rest) := Decimal.spanDigits body
  let (fraction, rest) := Decimal.spanFraction rest
  if whole = [] && fraction = [] then (⟨false, 0, 0⟩, cs)
  else
    let mantissa := Decimal.natOfDigits (whole ++ fraction)
    let shift : Int := -(fraction.length : Int)
    match rest with
    | e :: tail =>
      let (down, ds) := Decimal.spanSign tail
      if (e = 'e' || e = 'E') && (ds.head?.any Char.isDigit) then
        let (ds, rest) := Decimal.spanDigits ds
        (⟨negative, mantissa, shift + Decimal.signedValue down ds⟩, rest)
      else (⟨negative, mantissa, shift⟩, rest)
    | [] => (⟨negative, mantissa, shift⟩, [])

def fraction (g : Formatting) : Act (Decimal.Binary64 × Formatting) := do
  match g.take with
  | (none, g) => return (⟨0⟩, g)
  | (some arg, g) =>
    match arg with
    | '"' :: rest | '\'' :: rest =>
      let n := (rest.head?.map Char.toNat).getD 0
      return ((Decimal.Literal.mk false n 0).toBinary64, g)
    | _ =>
      let (d, rest) := decimal arg
      return (d.toBinary64, ← g.check arg rest false)

/-- A width or a precision: digits, or a star for the next argument. -/
def measure (g : Formatting) (cs : Octets) : Act (Option Int × Octets × Formatting) := do
  match cs with
  | '*' :: rest =>
    let (i, g) ← g.integer true
    return (some i, rest, g)
  | cs =>
    let ds := cs.takeWhile Char.isDigit
    let n := if ds = [] then none else some ((Number.ofDigits 10 ds : Nat) : Int)
    return (n, cs.drop ds.length, g)

def conversion (g : Formatting) (cs : Octets) : Act (Conversion × Octets × Formatting) := do
  let flags := cs.takeWhile "#-+ 0".toList.contains
  let (width, rest, g) ← g.measure (cs.drop flags.length)
  let width := width.getD 0
  let v : Conversion := { flags := if width < 0 then '-' :: flags else flags, width := width.natAbs }
  match rest with
  | '.' :: rest =>
    let (precision, rest, g) ← g.measure rest
    let p := precision.getD 0
    return ({ v with precision? := if p < 0 then none else some p.toNat }, rest, g)
  | rest => return (v, rest, g)

/-- Writes what a letter makes of the next argument. There is no more to write when an escape
has ended the output. -/
def convert (g : Formatting) (whole : Octets) (v : Conversion) (letter : Char) :
    Act (Bool × Formatting) := do
  if letter = 'b' then
    let (arg, g) := g.take
    let (text, ended) := Escape.argument (arg.getD [])
    Act.print (v.text text)
    return (ended, g)
  else if letter = 's' then
    let (arg, g) := g.take
    Act.print (v.text (arg.getD []))
    return (false, g)
  else if letter = 'c' then
    let (arg, g) := g.take
    Act.print (v.pad [(arg.bind List.head?).getD '\x00'])
    return (false, g)
  else if letter = 'd' || letter = 'i' then
    let (i, g) ← g.integer true
    Act.print (v.signed i)
    return (false, g)
  else if "ouxX".toList.contains letter then
    let (i, g) ← g.integer false
    Act.print (v.unsigned letter (i % 2 ^ 64).toNat)
    return (false, g)
  else if "eEfFgG".toList.contains letter then
    let (b, g) ← g.fraction
    Act.print (v.fraction letter b)
    return (false, g)
  else Act.fail (whole ++ ": invalid directive".toList)

/-- Writes a format once; the number bounds its length. -/
def once : Nat → Octets → Formatting → Act (Bool × Formatting)
  | 0, _, g => return (false, g)
  | _, [], g => return (false, g)
  | n + 1, c :: cs, g => do
    if c = '\\' then
      let (d, length) := Escape.one cs
      Act.print [d]
      once n (cs.drop length) g
    else if c ≠ '%' then
      Act.print [c]
      once n cs g
    else if cs.head? = some '%' then
      Act.print ['%']
      once n (cs.drop 1) g
    else
      let (v, rest, g) ← g.conversion cs
      match rest with
      | [] => Act.fail "missing format character".toList
      | letter :: rest =>
        let whole := '%' :: cs.take (cs.length - rest.length)
        let (ended, g) ← g.convert whole v letter
        if ended then return (true, g) else once n rest g

/-- Writes a format as long as it uses up arguments. -/
def repeated (format : Octets) : Nat → Formatting → Act Formatting
  | 0, g => return g
  | n + 1, g => do
    let (ended, after) ← once (format.length + 1) format g
    if ended || after.args.isEmpty || after.args.length == g.args.length then return after
    else repeated format n after

end Formatting

def printf (args : List Octets) : Act Nat := do
  let (_, args) ← letters [] args
  match args with
  | [] => Act.fail "usage: printf format [arg ...]".toList
  | format :: args =>
    let g ← Formatting.repeated format (args.length + 1) { args }
    return if g.failed then 1 else 0

end AssetCompiler.Shell.Builtin
