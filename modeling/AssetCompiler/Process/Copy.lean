import AssetCompiler.Process.Program

/-! # Copying files

A file is copied to another name, or several into a directory; a directory is copied with
everything in it on demand. What cannot be copied is complained about, and the rest is copied
all the same.
-/
namespace AssetCompiler.Copy

structure Plan where
  withDirectories : Bool := false
  tells : Bool := false
  keepsTargets : Bool := false
  /-- Whether a target that is at least as new as its source is left alone. -/
  onlyNewer : Bool := false
  asks : Bool := false
  keepsTimes : Bool := false
  /-- Whether the target is never taken for a directory to copy into. -/
  plainTarget : Bool := false
  /-- Whether a directory may be copied to several places at once. -/
  follows : Bool := false
  directory? : Option Octets := none
  /-- What is added to the name of a target that is kept under another name. -/
  backup? : Option Octets := none
  suffix : Octets := ['~']
  deriving Inhabited

def options : OptionTable where
  letters := "abdfHilLnprsuvxPRTZ".toList.map (fun c => (c, .none, String.singleton c)) ++
    [('S', .required, "S"), ('t', .required, "t")]
  words := [("archive", .none, "a"), ("backup", .optional, "b"), ("dereference", .none, "L"),
    ("force", .none, "f"), ("help", .none, "help"), ("interactive", .none, "i"),
    ("link", .none, "l"), ("no-clobber", .none, "n"), ("no-dereference", .none, "P"),
    ("no-preserve", .required, "no-preserve"), ("no-target-directory", .none, "T"),
    ("one-file-system", .none, "x"), ("parents", .none, "parents"),
    ("preserve", .optional, "p"), ("recursive", .none, "R"),
    ("remove-destination", .none, "f"), ("suffix", .required, "S"),
    ("symbolic-link", .none, "s"), ("target-directory", .required, "t"),
    ("update", .optional, "u"), ("verbose", .none, "v"), ("version", .none, "version")]

inductive Refusal where
  | misuse (reason : Octets)
  | failure (reason : Octets)

def Plan.choose (p : Plan) : Choice → Except Refusal Plan
  | .refused reason => .error (.misuse reason)
  | .option "t" argument =>
    if p.directory?.isSome then
      .error (.failure "multiple target directories specified".toList)
    else .ok { p with directory? := argument }
  | .option name argument => .ok <|
    match name with
    | "a" => { p with withDirectories := true, keepsTimes := true, follows := false }
    | "b" => { p with backup? := some p.suffix }
    | "i" => { p with asks := true, keepsTargets := false }
    | "n" => { p with keepsTargets := true, asks := false }
    | "p" => { p with keepsTimes := true }
    | "r" | "R" => { p with withDirectories := true }
    | "S" => { p with suffix := argument.getD [], backup? := some (argument.getD []) }
    | "L" => { p with follows := true }
    | "P" | "d" => { p with follows := false }
    | "T" => { p with plainTarget := true }
    | "u" => { p with onlyNewer := true }
    | "v" => { p with tells := true }
    | _ => p

structure Copied where
  source : Location
  target : Location
  name : Octets

structure Progress where
  status : Status := .success
  machine : Machine
  sources : List Location := []
  copies : List Location := []
  /-- The directories named as sources, and the first copy of each, which is its own. -/
  directories : List Copied := []
  /-- Whether a directory was made for the source at hand. -/
  isUnderway : Bool := false
  /-- Whether a copy was met inside its own source. -/
  isStuck : Bool := false

/-- A source and its target, as they were named. -/
structure Errand where
  source : Octets
  target : Octets

namespace Progress

def complain (g : Progress) (text : Octets) (ds : Descriptors) : Progress :=
  { g with status := .exited 1, machine := Program.complain text ds g.machine }

def warn (g : Progress) (text : Octets) (ds : Descriptors) : Progress :=
  { g with machine := Program.complain ("warning: ".toList ++ text) ds g.machine }

def tell (g : Progress) (text : Octets) (ds : Descriptors) : Progress :=
  { g with machine := g.machine.tell ds 1 (text ++ ['\n']) }

end Progress

inductive Kind where
  | file (l : Location) (modified : Nat)
  | directory (l : Location)
  | device
  deriving DecidableEq, Repr

def isDevice (name : Octets) : Bool :=
  let text := Octets.toText name
  text = "/dev/null" || text = "/dev/zero" || (Machine.deviceDescriptor? text).isSome

def kindOf (m : Machine) (name : Octets) : Except Fault Kind :=
  if isDevice name then .ok .device
  else match m.disk.files.find (Program.pathOf name) with
    | .ok (l, .file f) => .ok (.file l f.modified)
    | .ok (l, .directory _) => .ok (.directory l)
    | .error fault => .error fault

def isDirectory (m : Machine) (name : Octets) : Bool :=
  match kindOf m name with
  | .ok (.directory _) => true
  | _ => false

/-- The last piece of a name, without separators at its end. -/
def lastPiece (name : Octets) : Octets :=
  let body := Text.dropEndWhile (· == '/') name
  if body = [] && name ≠ [] then ['/'] else (Text.pieces '/' body).getLast?.getD []

def inside (directory name : Octets) : Octets :=
  if directory.getLast? = some '/' then directory ++ name else directory ++ '/' :: name

def between (source target : Octets) : Octets :=
  Quoting.quoted source ++ " -> ".toList ++ Quoting.quoted target

def becauseOf (fault : Fault) : Octets := ": ".toList ++ fault.reason.toList

def asksYes (target : Octets) (ds : Descriptors) (m : Machine) : Bool × Machine :=
  let m := m.tell ds 2 (m.called ++ ": overwrite ".toList ++ Quoting.quoted target ++ "? ".toList)
  match m.readFrom ds 0 none with
  | .error _ => (false, m)
  | .ok (text, read) =>
    let line := text.takeWhile (· != '\n')
    let rest := text.length - line.length - 1
    let m := match ds.lookup 0 with
      | some i =>
        match m.channel i with
        | .intake _ => m.setChannel i (.intake (text.drop (line.length + 1)))
        | _ => read.unread i rest
      | none => read
    (line.head? == some 'y' || line.head? == some 'Y', m)

/-- Keeps an existing target under another name. -/
def keepBackup (suffix : Octets) (target : Octets) (m : Machine) : Machine :=
  let p := Program.pathOf target
  match m.disk.files.read p with
  | .error _ => m
  | .ok bytes =>
    match m.disk.write (Program.pathOf (target ++ suffix)) bytes with
    | .ok disk => { m with disk }
    | .error _ => m

def copyContent (p : Plan) (ds : Descriptors) (source target : Octets) (exists? : Bool)
    (g : Progress) : Progress :=
  match g.machine.openPath ds (Program.pathOf source) .read with
  | .error e => g.complain ("cannot open ".toList ++ Quoting.quoted source ++
      " for reading: ".toList ++ e.text.toList) ds
  | .ok (i, m) =>
    let m := match exists?, p.backup? with
      | true, some suffix => keepBackup suffix target m
      | _, _ => m
    match m.openPath ds (Program.pathOf target) (.write false) with
    | .error e =>
      let reason := if e == .file .isDirectory then "Not a directory" else e.text
      { g with machine := m }.complain ("cannot create regular file ".toList ++
        Quoting.quoted target ++ ": ".toList ++ reason.toList) ds
    | .ok (j, m) =>
      match m.read i none with
      | .error e => { g with machine := m }.complain ("error reading ".toList ++
          Quoting.quoted source ++ ": ".toList ++ e.text.toList) ds
      | .ok (text, m) => { g with machine := (m.write j text).toOption.getD m }

def keepTime (p : Plan) (target : Octets) (kind : Kind) (m : Machine) : Machine :=
  match p.keepsTimes, kind with
  | true, .file _ modified =>
    match m.disk.files.touch (Program.pathOf target) modified with
    | .ok files => { m with disk := { m.disk with files } }
    | .error _ => m
  | _, _ => m

def report (p : Plan) (ds : Descriptors) (source target : Octets) (replaced : Bool)
    (g : Progress) : Progress :=
  if p.tells then
    let kept := match replaced, p.backup? with
      | true, some suffix =>
        " (backup: ".toList ++ Quoting.quoted (target ++ suffix) ++ [')']
      | _, _ => []
    g.tell (between source target ++ kept) ds
  else g

/-- Copies what is no directory. -/
def copyFile (p : Plan) (ds : Descriptors) (source target : Octets) (kind : Kind)
    (g : Progress) : Progress :=
  match kindOf g.machine target with
  | .error .missing =>
    keep (copyContent p ds source target false (report p ds source target false g))
  | .error fault =>
    g.complain ("cannot stat ".toList ++ Quoting.quoted target ++ becauseOf fault) ds
  | .ok (.directory _) =>
    g.complain ("cannot overwrite directory ".toList ++ Quoting.quoted target ++
      " with non-directory".toList) ds
  | .ok there =>
    let isSame := match kind, there with
      | .file l _, .file l' _ => l == l'
      | _, _ => false
    let isNew := match kind, there with
      | .file _ s, .file _ t => decide (t < s)
      | _, _ => true
    let isCopy := match there with
      | .file l _ => g.copies.contains l
      | _ => false
    if isSame then
      g.complain (Quoting.quoted source ++ " and ".toList ++ Quoting.quoted target ++
        " are the same file".toList) ds
    else if p.keepsTargets || (p.onlyNewer && !isNew) then g
    else
      let (agreed, m) := if p.asks then asksYes target ds g.machine else (true, g.machine)
      let g := { g with machine := m }
      if !agreed then { g with status := .exited 1 }
      else if isCopy then
        g.complain ("will not overwrite just-created ".toList ++ Quoting.quoted target ++
          " with ".toList ++ Quoting.quoted source) ds
      else keep (copyContent p ds source target true (report p ds source target true g))
where
  keep (g : Progress) : Progress :=
    match kindOf g.machine target with
    | .ok (.file l _) =>
      { g with machine := keepTime p target kind g.machine, copies := l :: g.copies }
    | _ => g

/-- What stands at the target of a directory; no name at all is where the program runs. -/
def directoryTarget (m : Machine) (target : Octets) : Except Fault Kind :=
  kindOf m (if target.isEmpty then ['.'] else target)

/-- Whether a directory can be copied to a target; it is complained about if it cannot. -/
def fits (ds : Descriptors) (l : Location) (source target : Octets) (g : Progress) :
    Except Progress Unit :=
  match directoryTarget g.machine target with
  | .ok (.directory t) =>
    if t == l then
      .error (g.complain (Quoting.quoted source ++ " and ".toList ++ Quoting.quoted target ++
        " are the same file".toList) ds)
    else .ok ()
  | .ok _ =>
    .error (g.complain ("cannot overwrite non-directory ".toList ++ Quoting.quoted target ++
      " with directory ".toList ++ Quoting.quoted source) ds)
  | .error .missing => .ok ()
  | .error fault =>
    .error (g.complain ("cannot stat ".toList ++ Quoting.quoted target ++ becauseOf fault) ds)

/-- Refuses a directory that was copied before. -/
def isFresh (p : Plan) (ds : Descriptors) (e : Errand) (l : Location) (target : Octets)
    (g : Progress) : Except Progress Unit :=
  match g.directories.find? (·.source == l) with
  | none => .ok ()
  | some earlier =>
    if earlier.target == l then
      let g := g.complain ("cannot copy a directory, ".toList ++ Quoting.quoted e.source ++
        ", into itself, ".toList ++ Quoting.quoted e.target) ds
      .error { g with isStuck := true }
    else if isAt g.machine earlier.target target then
      .error (g.warn ("source directory ".toList ++ Quoting.quoted e.source ++
        " specified more than once".toList) ds)
    else if p.follows then .ok ()
    else
      .error (g.complain ("will not create hard link ".toList ++ Quoting.quoted target ++
        " to directory ".toList ++ Quoting.quoted earlier.name) ds)
where
  isAt (m : Machine) (l : Location) (name : Octets) : Bool :=
    match directoryTarget m name with
    | .ok (.directory t) => t == l
    | _ => false

def makeTarget (p : Plan) (ds : Descriptors) (source target : Octets) (g : Progress) :
    Except Progress Progress :=
  match directoryTarget g.machine target with
  | .ok _ => .ok g
  | .error _ =>
    match g.machine.disk.change fun t now => t.makeDirectory (Program.pathOf target) now with
    | .error fault =>
      .error (g.complain ("cannot create directory ".toList ++ Quoting.quoted target ++
        becauseOf fault) ds)
    | .ok disk =>
      let g := report p ds source target false { g with machine := { g.machine with disk } }
      match g.isUnderway, directoryTarget g.machine target with
      | false, .ok (.directory t) =>
        let first : Copied := { source := t, target := t, name := target }
        .ok { g with directories := first :: g.directories, isUnderway := true }
      | _, _ => .ok g

def rememberSource (e : Errand) (l : Location) (source : Octets) (g : Progress) : Progress :=
  if source ≠ e.source then g
  else match directoryTarget g.machine e.target with
    | .ok (.directory t) =>
      let copied : Copied := { source := l, target := t, name := e.target }
      { g with directories := copied :: g.directories }
    | _ => g

/-- Copies one source; the number bounds the depth of directories. -/
def copyEntry (p : Plan) (ds : Descriptors) (e : Errand) :
    Nat → Octets → Octets → Progress → Progress
  | 0, _, _, g => g
  | depth + 1, source, target, g =>
    match kindOf g.machine source with
    | .error fault =>
      g.complain ("cannot stat ".toList ++ Quoting.quoted source ++ becauseOf fault) ds
    | .ok (.directory l) =>
      if !p.withDirectories then
        g.complain ("-r not specified; omitting directory ".toList ++ Quoting.quoted source) ds
      else
        let prepared : Except Progress Progress := do
          fits ds l source target g
          isFresh p ds e l target g
          makeTarget p ds source target g
        match prepared with
        | .error g => g
        | .ok g =>
          let names := (g.machine.disk.files.names l).reverse.map Octets.ofString
          names.foldl (fun g name =>
            if g.isStuck then g
            else copyEntry p ds e depth (inside source name) (inside target name) g)
            (rememberSource e l source g)
    | .ok kind => copyFile p ds source target kind g

def copySource (p : Plan) (ds : Descriptors) (g : Progress) (e : Errand) : Progress :=
  let depth := g.machine.disk.files.entries.length + 2
  let g := { g with isUnderway := false, isStuck := false }
  match kindOf g.machine e.source with
  | .ok (.file l _) =>
    if p.backup?.isNone && g.sources.contains l then
      g.warn ("source file ".toList ++ Quoting.quoted e.source ++
        " specified more than once".toList) ds
    else copyEntry p ds e depth e.source e.target { g with sources := l :: g.sources }
  | _ => copyEntry p ds e depth e.source e.target g

def copyInto (p : Plan) (ds : Descriptors) (directory : Octets) (sources : List Octets)
    (g : Progress) : Progress :=
  (sources.map fun s => { source := s, target := inside directory (lastPiece s) }).foldl
    (copySource p ds) g

def directoryFault (m : Machine) (name : Octets) : Octets :=
  match kindOf m name with
  | .error fault => becauseOf fault
  | .ok _ => becauseOf .notDirectory

def copyAll (p : Plan) (operands : List Octets) (ds : Descriptors) (m : Machine) :
    Status × Machine :=
  let go (g : Progress) : Status × Machine := (g.status, g.machine)
  match p.directory?, operands with
  | _, [] => Program.misuse "missing file operand".toList ds m
  | some directory, sources =>
    if p.plainTarget then
      Program.fail ("cannot combine --target-directory (-t) and ".toList ++
        "--no-target-directory (-T)".toList) ds m
    else if isDirectory m directory then go (copyInto p ds directory sources { machine := m })
    else Program.fail ("target directory ".toList ++ Quoting.quoted directory ++
      directoryFault m directory) ds m
  | none, [source] =>
    Program.misuse ("missing destination file operand after ".toList ++
      Quoting.quoted source) ds m
  | none, source :: target :: more =>
    if p.plainTarget then
      match more with
      | extra :: _ => Program.misuse ("extra operand ".toList ++ Quoting.quoted extra) ds m
      | [] => go (copySource p ds { machine := m } { source, target })
    else
      let last := (target :: more).getLast?.getD target
      if isDirectory m last then
        go (copyInto p ds last (source :: (target :: more).dropLast) { machine := m })
      else if more.isEmpty then
        go (copySource p ds { machine := m } { source, target })
      else Program.fail ("target ".toList ++ Quoting.quoted last ++ directoryFault m last) ds m

def run : Program := fun args ds m =>
  let (choices, operands) := options.choose args
  match choices.foldlM Plan.choose {} with
  | .error (.misuse reason) => Program.misuse reason ds m
  | .error (.failure reason) => Program.fail reason ds m
  | .ok p => copyAll p operands ds m

end AssetCompiler.Copy
