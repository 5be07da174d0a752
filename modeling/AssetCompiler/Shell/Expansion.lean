import AssetCompiler.Shell.Expression
import AssetCompiler.Shell.Field
import AssetCompiler.Shell.State

/-! # Expanding words

The parts of a word are replaced by what they stand for, from left to right; what came from no
quotation is split into fields, and fields with wildcards are replaced by the files that they
stand for.
-/
namespace AssetCompiler.Shell

namespace State

/-- The letters of options in the order in which they are shown. -/
def optionOrder : List Char := "ubaCEVvxsnmiIfe".toList

def separators (s : State) : Octets := (s.value? "IFS".toList).getD Cell.blanks

/-- The value of a parameter that has one value. -/
def parameter? (s : State) (name : Octets) : Option Octets :=
  match name with
  | ['#'] => some (Octets.ofNat s.parameters.length)
  | ['?'] => some (Octets.ofNat s.status)
  | ['$'] => some (Octets.ofNat s.mainProcess)
  | ['!'] => s.background?.map Octets.ofNat
  | ['-'] => some (optionOrder.filter s.hasOption)
  | c :: _ =>
    if c.isDigit then
      match (String.ofList name).toNat?.getD 0 with
      | 0 => some s.name
      | n + 1 => s.parameters[n]?
    else s.value? name
  | [] => none

/-- Whether a name stands for all parameters. -/
def isAll (name : Octets) : Bool := name == ['@'] || name == ['*']

def joined (s : State) (quoted full : Bool) (between : List Cell) : List Cell :=
  (s.parameters.map (Cell.ofValue quoted full)).intersperse between |>.flatten

def allCells (s : State) (quoted full isAt : Bool) : List Cell :=
  if full && quoted && isAt then
    s.joined true full [.border] ++ (if s.parameters.isEmpty then [] else [.keep])
  else if full && !quoted then s.joined false full [.gap]
  else
    let between := (s.separators.take 1).map fun c => Cell.char ⟨c, quoted⟩ false
    s.joined quoted full between

/-- The cells of a parameter that has a value. -/
def parameterCells? (s : State) (quoted full : Bool) (name : Octets) : Option (List Cell) :=
  if isAll name then some (s.allCells quoted full (name == ['@']))
  else (s.parameter? name).map (Cell.ofValue quoted full)

end State

namespace Act

def variableNumber (name : Octets) : Act Int := do
  match (← get).parameter? name with
  | none => return 0
  | some v =>
    if v.all Number.isBlank then return 0
    match Number.whole? true v with
    | some i => return i
    | none => illegalNumber v

def compute (text : Octets) : Expression → Act Int
  | .number i => return i
  | .name name => variableNumber name
  | .negated e => do return Number.wrap (-(← compute text e))
  | .inverted e => do return -(← compute text e) - 1
  | .not e => do return if (← compute text e) = 0 then 1 else 0
  | .binary op a b => do
    let x ← compute text a
    let y ← compute text b
    match Expression.compute? op x y with
    | some i => return i
    | none => refuse "division by zero"
  | .both a b => do
    if (← compute text a) = 0 then return 0
    return if (← compute text b) = 0 then 0 else 1
  | .either a b => do
    if (← compute text a) ≠ 0 then return 1
    return if (← compute text b) = 0 then 0 else 1
  | .choice test yes no => do
    if (← compute text test) = 0 then compute text no else compute text yes
  | .assign name op e => do
    let y ← compute text e
    let i ← match op with
      | none => pure y
      | some op =>
        match Expression.compute? op (← variableNumber name) y with
        | some i => pure i
        | none => refuse "division by zero"
    assign name (Octets.ofInt i)
    return i
where
  refuse (reason : String) : Act Int :=
    fail ("arithmetic expression: ".toList ++ reason.toList ++ ": \"".toList ++ text ++ ['"'])

def evaluate (text : Octets) : Act Int := do
  match Expression.read text with
  | .ok e => compute text e
  | .error reason => compute.refuse text reason

abbrev Runner := Option Command → Act Octets

/-- Cells of text in which a tilde stands for a directory at the start, and behind colons if
`colons` says so. -/
def tildes (home? : Option Octets) (colons isLast : Bool) : Bool → Octets → List Cell
  | _, [] => []
  | atStart, c :: cs =>
    let ends (d : Char) : Bool := d == '/' || (colons && d == ':')
    let isTilde := atStart && c == '~' &&
      match cs with
      | [] => isLast
      | d :: _ => ends d
    let rest := tildes home? colons isLast (colons && c == ':') cs
    match isTilde, home? with
    | true, some home => (home.map fun c => Cell.char ⟨c, true⟩ false) ++ rest
    | _, _ => .char ⟨c, false⟩ false :: rest

structure Manner where
  /-- Whether the result is split. -/
  full : Bool
  /-- Whether text is split too, because it stands in place of a value. -/
  inValue : Bool := false
  /-- Whether tildes behind colons count. -/
  colons : Bool := false

def textCells (m : Manner) (home? : Option Octets) (isFirst isLast quoted : Bool)
    (t : Octets) : List Cell :=
  if quoted then .keep :: t.map fun c => .char ⟨c, true⟩ false
  else if isFirst || m.colons then
    let cells := tildes home? m.colons isLast isFirst t
    if m.inValue then
      .edge :: cells.map fun c =>
        match c with
        | .char g _ => .char g (!g.quoted)
        | c => c
    else cells
  else if m.inValue then Cell.ofValue false m.full t
  else t.map fun c => .char ⟨c, false⟩ false

def complainUnset {α : Type} (name text : Octets) : Act α := fail (name ++ ": ".toList ++ text)

/-- Gives a parameter a value, if it is a variable. -/
def assignParameter (name value : Octets) : Act Unit := do
  if isName name then assign name value else fail (name ++ ": bad variable name".toList)

/-- Drops from a value what a pattern stands for. -/
def trim (op : Operation) (pattern : List Cell) (value : Octets) : Octets :=
  let ws := Wildcard.ofGlyphs (Cell.glyphs pattern)
  match op with
  | .dropFront longest => Wildcard.dropFront longest ws value
  | .dropBack longest => Wildcard.dropBack longest ws value
  | _ => value

mutual
def partCells (run : Runner) (m : Manner) (isFirst isLast : Bool) : Part → Act (List Cell)
  | .text quoted t => do
    return textCells m ((← get).value? "HOME".toList) isFirst isLast quoted t
  | .output quoted c => do
    let o ← run c
    let kept := (o.reverse.dropWhile (· == '\n')).reverse
    return Cell.ofValue quoted m.full kept
  | .sum quoted e => do
    let text := Cell.text (← wordCells run { full := false } true e)
    return Cell.ofValue quoted m.full (Octets.ofInt (← evaluate text))
  | .parameter quoted name op emptyToo word => do
    if op == .invalid then fail "Bad substitution".toList
    let s ← get
    let found? := s.parameterCells? quoted m.full name
    let isUsable := found?.any fun cells => !emptyToo || Cell.text cells != []
    let value (cells? : Option (List Cell)) : Act (List Cell) :=
      match cells? with
      | some cells => return cells
      | none =>
        if s.hasOption 'u' then complainUnset name "parameter not set".toList else return []
    match op with
    | .orElse =>
      if isUsable then value found?
      else wordCells run { m with inValue := m.full && !quoted, colons := false } true word
    | .instead =>
      if isUsable then
        wordCells run { m with inValue := m.full && !quoted, colons := false } true word
      else return []
    | .orAssign =>
      if isUsable then value found?
      else
        assignParameter name (Cell.text (← wordCells run { full := false } true word))
        value ((← get).parameterCells? quoted m.full name)
    | .orFail =>
      if isUsable then value found?
      else if word.isEmpty then
        complainUnset name (if emptyToo then "parameter not set or null"
          else "parameter not set").toList
      else complainUnset name (Cell.text (← wordCells run { full := false } true word))
    | .length =>
      let n := (Cell.text (← value (s.parameterCells? quoted false name))).length
      return Cell.ofValue quoted m.full (Octets.ofNat n)
    | .dropFront _ | .dropBack _ =>
      let text := Cell.text (← value (s.parameterCells? quoted false name))
      let pattern ← wordCells run { full := false } true word
      return Cell.ofValue quoted m.full (trim op pattern text)
    | .value | .invalid => value found?

def wordCells (run : Runner) (m : Manner) (isFirst : Bool) : List Part → Act (List Cell)
  | [] => return []
  | p :: ps => do
    let front ← partCells run m isFirst ps.isEmpty p
    let rest ← wordCells run m false ps
    return front ++ rest
end

/-- The text of a word that is not split. -/
def single (run : Runner) (w : Word) : Act Octets := do
  return Cell.text (← wordCells run { full := false } true w)

def assigned (run : Runner) (w : Word) : Act Octets := do
  return Cell.text (← wordCells run { full := false, colons := true } true w)

def documentText (run : Runner) (w : Word) : Act Octets := do
  return Cell.text (← wordCells run { full := false } false w)

def pattern (run : Runner) (w : Word) : Act (List Wildcard) := do
  return Wildcard.ofGlyphs (Cell.glyphs (← wordCells run { full := false } true w))

def fields (run : Runner) (w : Word) : Act (List Octets) := do
  let cells ← wordCells run { full := true } true w
  let s ← get
  return (Cell.fields s.separators cells).flatMap fun gs =>
    let plain := gs.map Glyph.char
    if s.hasOption 'f' then [plain]
    else match Wildcard.files s.machine.disk.files gs with
      | [] => [plain]
      | found => found

end Act

end AssetCompiler.Shell
