import AssetCompiler.Process.Program

/-! # Writing arguments

The arguments are written with blanks between them and a line break at the end. Letters behind
a dash leave the line break out or resolve escapes.
-/
namespace AssetCompiler.Echo

structure Style where
  breaksLine : Bool := true
  escapes : Bool := false
  deriving Inhabited, Repr

/-- The style that the letters of an argument ask for, if it holds nothing else. -/
def Style.letters? (s : Style) (arg : Octets) : Option Style :=
  match arg with
  | '-' :: c :: cs =>
    (c :: cs).foldlM (fun s c =>
      match c with
      | 'n' => some { s with breaksLine := false }
      | 'e' => some { s with escapes := true }
      | 'E' => some { s with escapes := false }
      | _ => none) s
  | _ => none

def readStyle (s : Style) : List Octets → Style × List Octets
  | [] => (s, [])
  | arg :: rest =>
    match s.letters? arg with
    | some s => readStyle s rest
    | none => (s, arg :: rest)

def hexValue? (c : Char) : Option Nat :=
  if c.isDigit then some (c.toNat - 48)
  else if 'a' ≤ c && c ≤ 'f' then some (c.toNat - 87)
  else if 'A' ≤ c && c ≤ 'F' then some (c.toNat - 55)
  else none

def ofDigits (base : Nat) (ds : List Nat) : Char :=
  Char.ofNat (ds.foldl (fun n d => base * n + d) 0 % 256)

def isOctal (c : Char) : Bool := '0' ≤ c && c ≤ '7'

/-- The octal digits at the front of a text, at most so many. -/
def octalDigits (most : Nat) (cs : Octets) : List Nat :=
  ((cs.take most).takeWhile isOctal).map fun c => c.toNat - 48

def letters : List (Char × Char) :=
  "abefnrtv\\".toList.zip "\x07\x08\x1b\x0c\n\r\t\x0b\\".toList

/-- What the escape behind a backslash stands for, and how many characters belong to it. -/
def escape (cs : Octets) : Octets × Nat :=
  match cs with
  | [] => (['\\'], 0)
  | 'x' :: rest =>
    let ds := (rest.take 2).map hexValue?
    let ds := (ds.takeWhile Option.isSome).filterMap id
    if ds = [] then (['\\', 'x'], 1) else ([ofDigits 16 ds], 1 + ds.length)
  | '0' :: rest =>
    let ds := octalDigits 3 rest
    ([ofDigits 8 ds], 1 + ds.length)
  | c :: _ =>
    if isOctal c then
      let ds := octalDigits 3 cs
      ([ofDigits 8 ds], ds.length)
    else match letters.lookup c with
      | some b => ([b], 1)
      | none => (['\\', c], 1)

/-- A text with its escapes resolved, and whether one of them ends the output. -/
def unescape (cs : Octets) : Octets × Bool :=
  match cs with
  | [] => ([], false)
  | '\\' :: 'c' :: _ => ([], true)
  | '\\' :: cs =>
    let (front, n) := escape cs
    let (rest, ended) := unescape (cs.drop n)
    (front ++ rest, ended)
  | c :: cs =>
    let (rest, ended) := unescape cs
    (c :: rest, ended)
  termination_by cs.length
  decreasing_by all_goals simp only [List.length_cons, List.length_drop] at *; omega

/-- What is written for arguments. Escapes are resolved in each on its own. -/
def output (s : Style) : List Octets → Octets
  | [] => if s.breaksLine then ['\n'] else []
  | arg :: rest =>
    let (front, ended) := if s.escapes then unescape arg else (arg, false)
    if ended then front
    else match rest with
      | [] => front ++ output s []
      | next :: rest => front ++ ' ' :: output s (next :: rest)

def run : Program := fun args ds m =>
  let (s, args) := readStyle {} args
  Program.finish .success (output s args) ds m

end AssetCompiler.Echo
