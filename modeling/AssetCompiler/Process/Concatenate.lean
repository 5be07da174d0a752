import AssetCompiler.Process.Program

/-! # Copying files to the output

Files are copied one after another, as they are or with numbered lines, visible characters or
fewer blank lines. The count of lines and of line breaks goes on from file to file.
-/
namespace AssetCompiler.Concatenate

structure Style where
  numbers : Bool := false
  /-- Whether blank lines get no number. -/
  onlyFilled : Bool := false
  showsEnds : Bool := false
  showsControls : Bool := false
  showsTabs : Bool := false
  squeezes : Bool := false
  deriving DecidableEq, Inhabited, Repr

def options : OptionTable where
  letters := "benstuvAET".toList.map fun c => (c, .none, String.singleton c)
  words := [("number-nonblank", .none, "b"), ("number", .none, "n"),
    ("squeeze-blank", .none, "s"), ("show-nonprinting", .none, "v"), ("show-ends", .none, "E"),
    ("show-tabs", .none, "T"), ("show-all", .none, "A"), ("help", .none, "help"),
    ("version", .none, "version")]

def Style.choose (s : Style) (name : String) : Style :=
  match name with
  | "b" => { s with numbers := true, onlyFilled := true }
  | "e" => { s with showsEnds := true, showsControls := true }
  | "n" => { s with numbers := true }
  | "s" => { s with squeezes := true }
  | "t" => { s with showsTabs := true, showsControls := true }
  | "v" => { s with showsControls := true }
  | "A" => { s with showsControls := true, showsEnds := true, showsTabs := true }
  | "E" => { s with showsEnds := true }
  | "T" => { s with showsTabs := true }
  | _ => s

/-- Where the copy stands: the number of the last line, and how many line breaks came last. In
a line there are none, and at the start of a line one less than the breaks before it. -/
structure Position where
  line : Nat := 0
  breaks : Int := 0

def numberText (n : Nat) : Octets :=
  let ds := Octets.ofNat n
  List.replicate (6 - ds.length) ' ' ++ ds ++ ['\t']

def visible (s : Style) (c : Char) : Octets :=
  let n := c.toNat
  if c = '\t' then if s.showsTabs then ['^', 'I'] else [c]
  else if !s.showsControls then [c]
  else
    let low (n : Nat) : Octets :=
      if n < 32 then ['^', Char.ofNat (n + 64)] else if n = 127 then ['^', '?'] else [Char.ofNat n]
    if n < 128 then low n else 'M' :: '-' :: low (n - 128)

/-- What becomes of one character and of the position; `next` is the character behind it. -/
def put (s : Style) (p : Position) (c : Char) (next : Option Char) : Octets × Position :=
  if c = '\n' then
    let breaks := min 2 (p.breaks + 1)
    if s.squeezes && breaks == 2 then ([], { p with breaks })
    else
      let numbered := s.numbers && !s.onlyFilled && 0 < breaks
      let line := if numbered then p.line + 1 else p.line
      ((if numbered then numberText line else []) ++ (if s.showsEnds then ['$'] else []) ++ [c],
        ⟨line, breaks⟩)
  else
    let numbered := s.numbers && 0 ≤ p.breaks
    let line := if numbered then p.line + 1 else p.line
    let shown :=
      if c = '\r' && s.showsEnds && next == some '\n' && !s.showsControls then ['^', 'M']
      else visible s c
    ((if numbered then numberText line else []) ++ shown, ⟨line, -1⟩)

def styled (s : Style) (p : Position) : Octets → Octets × Position
  | [] => ([], p)
  | c :: cs =>
    let (front, p) := put s p c cs.head?
    let (rest, p) := styled s p cs
    (front ++ rest, p)

structure Progress where
  status : Status := .success
  position : Position := {}
  machine : Machine

def Progress.complain (g : Progress) (name reason : Octets) (ds : Descriptors) : Progress :=
  { g with
    status := .exited 1
    machine := Program.complain (Quoting.quotedIfNeeded name ++ ": ".toList ++ reason) ds g.machine }

/-- Whether the file of a channel is also the one that is written, with something before the
place of writing that was not yet read. -/
def feedsItself (m : Machine) (ds : Descriptors) (i : Nat) : Bool :=
  match m.channel i, (ds.lookup 1).map m.channel with
  | .file l offset _, some (.file l' offset' access) =>
    l == l' && offset < if access.appends then (m.disk.content l).size else offset'
  | _, _ => false

def copyChannel (s : Style) (name : Octets) (ds : Descriptors) (g : Progress) (i : Nat) :
    Progress :=
  if feedsItself g.machine ds i then g.complain name "input file is output file".toList ds
  else match g.machine.read i none with
    | .error e => g.complain name e.text.toList ds
    | .ok (text, m) =>
      let (out, position) := if s == {} then (text, g.position) else styled s g.position text
      match if out = [] then .ok m else m.writeTo ds 1 out with
      | .ok machine => { g with position, machine }
      | .error e =>
        { g with
          status := .exited 1
          machine := Program.complain ("write error: ".toList ++ e.text.toList) ds m }

/-- Copies an operand; a dash stands for the input. -/
def copyOperand (s : Style) (ds : Descriptors) (g : Progress) (name : Octets) : Progress :=
  let opened := if name = ['-'] then (Machine.resolve ds 0).map (·, g.machine)
    else g.machine.openPath ds (Program.pathOf name) .read
  match opened with
  | .ok (i, machine) => copyChannel s name ds { g with machine } i
  | .error e =>
    let g := g.complain name e.text.toList ds
    if name = ['-'] then
      let text := "closing standard input: ".toList ++ e.text.toList
      { g with machine := Program.complain text ds g.machine }
    else g

def Style.ofChoices (choices : List Choice) : Except Octets Style :=
  choices.foldlM (fun s c =>
    match c with
    | .option name _ => .ok (s.choose name)
    | .refused reason => .error reason) {}

def run : Program := fun args ds m =>
  let (choices, operands) := options.choose args
  match Style.ofChoices choices with
  | .error reason => Program.misuse reason ds m
  | .ok s =>
    let operands := if operands.isEmpty then [['-']] else operands
    let g := operands.foldl (copyOperand s ds) { machine := m }
    (g.status, g.machine)

end AssetCompiler.Concatenate
