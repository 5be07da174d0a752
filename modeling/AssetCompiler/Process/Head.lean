import AssetCompiler.Process.Program

/-! # The start of files

The first lines or octets of files are written, or all but the last ones, with a heading over
each file when there are several. Of a pipe more may be taken than is written; of a file only
what is written counts as read.
-/
namespace AssetCompiler.Head

inductive Headings where
  | several
  | always
  | never
  deriving DecidableEq, Repr

structure Plan where
  inLines : Bool := true
  /-- Whether the count says how much to leave out at the end. -/
  leavesOut : Bool := false
  count : Nat := 10
  headings : Headings := .several
  lineEnd : Char := '\n'
  deriving Inhabited

def options : OptionTable where
  letters := [('c', .required, "c"), ('n', .required, "n"), ('q', .none, "q"), ('v', .none, "v"),
    ('z', .none, "z")] ++ "0123456789".toList.map fun c => (c, .none, String.singleton c)
  words := [("bytes", .required, "c"), ("lines", .required, "n"), ("quiet", .none, "q"),
    ("silent", .none, "q"), ("verbose", .none, "v"), ("zero-terminated", .none, "z"),
    ("help", .none, "help"), ("version", .none, "version")]

def countLimit : Nat := 2 ^ 64

def power? (c : Char) : Option Nat :=
  (("kKmMGTPEZYRQ".toList).zip [1, 1, 2, 2, 3, 4, 5, 6, 7, 8, 9, 10]).lookup c

def unit? (cs : Octets) : Option Nat :=
  match cs with
  | [] => some 1
  | ['b'] => some 512
  | [c] => (power? c).map (1024 ^ ·)
  | [c, 'B'] | [c, 'D'] => (power? c).map (1000 ^ ·)
  | [c, 'i', 'B'] => (power? c).map (1024 ^ ·)
  | _ => none

inductive CountError where
  | malformed
  | tooLarge
  deriving DecidableEq, Repr

/-- Reads a count with its unit. A unit alone counts as one. -/
def readCount (text : Octets) : Except CountError Nat :=
  let body := text.dropWhile fun c => c == ' ' || (9 ≤ c.toNat && c.toNat ≤ 13)
  let body := match body with
    | '+' :: cs => cs
    | cs => cs
  let ds := body.takeWhile Char.isDigit
  let rest := body.dropWhile Char.isDigit
  if ds = [] && (body = [] || body.length < text.length) then .error .malformed
  else match unit? rest with
    | none => .error .malformed
    | some factor =>
      let n := (if ds = [] then 1 else (String.ofList ds).toNat?.getD 0) * factor
      if n < countLimit then .ok n else .error .tooLarge

def countComplaint (inLines : Bool) (text : Octets) (e : CountError) : Octets :=
  "invalid number of ".toList ++ (if inLines then "lines" else "bytes").toList ++ ": ".toList ++
    Quoting.literal text ++
    match e with
    | .malformed => []
    | .tooLarge => ": Value too large for defined data type".toList

/-- Why the arguments are refused, and whether the help is pointed to. -/
structure Refusal where
  reason : Octets
  pointsToHelp : Bool

def Plan.setCount (p : Plan) (inLines : Bool) (text : Octets) : Except Refusal Plan :=
  let leavesOut := text.head? == some '-'
  let text := if leavesOut then text.drop 1 else text
  match readCount text with
  | .ok count => .ok { p with inLines, leavesOut, count }
  | .error e => .error ⟨countComplaint inLines text e, false⟩

def trailing (c : Char) : Refusal := ⟨"invalid trailing option -- ".toList ++ [c], true⟩

def Plan.choose (p : Plan) : Choice → Except Refusal Plan
  | .refused reason => .error ⟨reason, true⟩
  | .option "c" a => p.setCount false (a.getD [])
  | .option "n" a => p.setCount true (a.getD [])
  | .option "q" _ => .ok { p with headings := .never }
  | .option "v" _ => .ok { p with headings := .always }
  | .option "z" _ => .ok { p with lineEnd := '\x00' }
  | .option name _ =>
    match name.toList with
    | [c] => if c.isDigit then .error (trailing c) else .ok p
    | _ => .ok p

/-- A plan from a number behind a dash, with letters at its end. The unit among them is the one
that counts. -/
def ofNumber (digits letters : Octets) : Except Refusal Plan := do
  let (p, unit) ← letters.foldlM (fun (p, unit) c =>
    match c with
    | 'c' => .ok ({ p with inLines := false }, [])
    | 'b' | 'k' | 'm' => .ok ({ p with inLines := false }, [c])
    | 'l' => .ok ({ p with inLines := true }, unit)
    | 'q' => .ok ({ p with headings := .never }, unit)
    | 'v' => .ok ({ p with headings := .always }, unit)
    | 'z' => .ok ({ p with lineEnd := '\x00' }, unit)
    | c => .error (trailing c)) (({} : Plan), ([] : Octets))
  p.setCount p.inLines (digits ++ unit)

def readArguments (args : List Octets) : Except Refusal (Plan × List Octets) := do
  let (p, args) ← match args with
    | ('-' :: c :: cs) :: rest =>
      if c.isDigit then
        let digits := c :: cs.takeWhile Char.isDigit
        (ofNumber digits (cs.dropWhile Char.isDigit)).map (·, rest)
      else .ok ({}, args)
    | _ => .ok ({}, args)
  let (choices, operands) := options.choose args
  let p ← choices.foldlM Plan.choose p
  .ok (p, operands)

/-- The lines of a text, each with its end. -/
def linesOf (lineEnd : Char) : Octets → List Octets
  | [] => []
  | c :: cs =>
    if c = lineEnd then [c] :: linesOf lineEnd cs
    else match linesOf lineEnd cs with
      | [] => [[c]]
      | l :: ls => (c :: l) :: ls

/-- The first elements, or all but the last ones. -/
def Plan.part {α : Type} (p : Plan) (xs : List α) : List α :=
  xs.take (if p.leavesOut then xs.length - p.count else p.count)

def Plan.cut (p : Plan) (text : Octets) : Octets :=
  if p.inLines then (p.part (linesOf p.lineEnd text)).flatten else p.part text

/-- How many octets are taken from a pipe at a time. -/
def blockSize : Nat := 8192

/-- How much of a pipe is taken to write its first octets. -/
def taken (p : Plan) (text out : Octets) : Nat :=
  if p.leavesOut then text.length
  else if !p.inLines then out.length
  else if (out.filter (· == p.lineEnd)).length < p.count then text.length
  else min text.length ((out.length + blockSize - 1) / blockSize * blockSize)

def takeStart (p : Plan) (m : Machine) (i : Nat) : Except SystemError (Octets × Machine) :=
  if p.count = 0 && !p.leavesOut then .ok ([], m)
  else match m.channel i with
  | .zeros => m.read i (some (if p.leavesOut || p.inLines then 0 else p.count))
  | c => do
    let (text, read) ← m.read i none
    let out := p.cut text
    let m := match c with
      | .intake _ => m.setChannel i (.intake (text.drop (taken p text out)))
      | _ => read.unread i (text.length - out.length)
    .ok (out, m)

structure Progress where
  status : Status := .success
  isFirst : Bool := true
  machine : Machine

def heading (isFirst : Bool) (name : Octets) : Octets :=
  (if isFirst then [] else ['\n']) ++ "==> ".toList ++
    (if name = ['-'] then "standard input".toList else name) ++ " <==\n".toList

def Progress.complain (g : Progress) (text : Octets) (ds : Descriptors) : Progress :=
  { g with status := .exited 1, machine := Program.complain text ds g.machine }

def writeStart (p : Plan) (headed : Bool) (ds : Descriptors) (g : Progress) (name : Octets) :
    Progress :=
  let opened := if name = ['-'] then (Machine.resolve ds 0).map (·, g.machine)
    else g.machine.openPath ds (Program.pathOf name) .read
  let shown := if name = ['-'] then "standard input".toList else name
  match opened with
  | .error e =>
    if name = ['-'] then
      g.complain ("error reading 'standard input': ".toList ++ e.text.toList) ds
    else g.complain ("cannot open ".toList ++ Quoting.quoted name ++ " for reading: ".toList ++
      e.text.toList) ds
  | .ok (i, machine) =>
    let machine := if headed then machine.tell ds 1 (heading g.isFirst name) else machine
    let g := { g with machine, isFirst := g.isFirst && !headed }
    match takeStart p g.machine i with
    | .error e => g.complain ("error reading ".toList ++ Quoting.quoted shown ++ ": ".toList ++
        e.text.toList) ds
    | .ok (out, m) =>
      match if out = [] then .ok m else m.writeTo ds 1 out with
      | .ok machine => { g with machine }
      | .error e =>
        { g with machine := m }.complain
          ("error writing 'standard output': ".toList ++ e.text.toList) ds

def run : Program := fun args ds m =>
  match readArguments args with
  | .error r =>
    if r.pointsToHelp then Program.misuse r.reason ds m
    else Program.fail r.reason ds m
  | .ok (p, operands) =>
    let headed := match p.headings with
      | .always => true
      | .never => false
      | .several => decide (1 < operands.length)
    let operands := if operands.isEmpty then [['-']] else operands
    let g := operands.foldl (writeStart p headed ds) { machine := m }
    (g.status, g.machine)

end AssetCompiler.Head
