import AssetCompiler.Shell.Builtin.Options
import AssetCompiler.Shell.Expansion

/-! # Reading a line into variables

A line of the input is split into as many fields as there are variables; the last one takes all
that is left. A backslash protects a separator or joins the line with the next one.
-/
namespace AssetCompiler.Shell.Builtin

def takeChar (channel : Nat) (m : Machine) : Option (Char × Machine) :=
  match m.read channel (some 1) with
  | .ok ([c], m) => some (c, m)
  | _ => none

/-- The cells of a line from a channel behind those that were read, backwards, and whether the
line was ended. -/
def lineCells (raw : Bool) (channel : Nat) : Nat → List Cell → Machine → List Cell × Bool × Machine
  | 0, done, m => (done, false, m)
  | n + 1, done, m =>
    match takeChar channel m with
    | none => (done, false, m)
    | some (c, m) =>
      if c = '\n' then (done, true, m)
      else if c = '\x00' then lineCells raw channel n done m
      else if c = '\\' && !raw then
        match takeChar channel m with
        | none => (done, false, m)
        | some (d, m) =>
          let kept := if d = '\n' then [] else [Cell.char ⟨d, true⟩ false]
          lineCells raw channel n (.edge :: kept ++ done) m
      else lineCells raw channel n (.char ⟨c, true⟩ true :: done) m

/-- The last field, backwards: all that is left but blanks at the end, or but one separator if
nothing follows it. `short?` is the field without them. -/
def lastField (separators : Octets) (behindBlank : Bool) (done : Octets) (short? : Option Octets) :
    List Cell → Octets
  | [] => short?.getD done
  | .char g splits :: cells =>
    let c := g.char
    let isSeparator := splits && separators.contains c
    if !splits then lastField separators behindBlank (c :: done) short? cells
    else if isSeparator && Cell.blanks.contains c then
      lastField separators behindBlank (c :: done) (some (short?.getD done)) cells
    else
      let short? := if isSeparator && behindBlank then short? else none
      lastField separators false (c :: done) short? cells
  | .edge :: cells => lastField separators false done short? cells
  | _ :: cells => lastField separators behindBlank done short? cells

def lineFields (separators : Octets) : Nat → Cell.Split → List Cell → List Octets
  | _, s, [] => (s.last?.map fun l => (l.map Glyph.char).reverse).toList
  | limit, s, cell :: cells =>
    let after := s.take separators cell
    let isFinished := after.done.length != s.done.length
    let last := (s.last?.getD []).map Glyph.char
    let c := match cell with
      | .char g _ => g.char
      | _ => '\n'
    if isFinished then
      if limit ≤ 1 then
        [(lastField separators after.behindBlank (c :: last) (some last) cells).reverse]
      else last.reverse :: lineFields separators (limit - 1) { after with done := [] } cells
    else lineFields separators limit after cells

/-- Gives fields to variables; those that are left over get nothing. -/
def assignFields : List Octets → List Octets → Act Unit
  | [], _ => return ()
  | name :: names, fields => do
    if !isName name then Act.fail (name ++ ": bad variable name".toList)
    Act.assign name (fields.headD [])
    assignFields names (fields.drop 1)

def lineLimit : Nat := 2 ^ 40

def read (args : List Octets) : Act Nat := do
  let (options, names) ← letters ['p', ':', 'r'] args
  if names.isEmpty then Act.fail "arg count".toList
  let raw := options.any fun o => o.1 == 'r'
  let s ← get
  match Machine.resolve s.descriptors 0 with
  | .error _ =>
    assignFields names []
    return 1
  | .ok channel =>
    let (cells, ended, machine) := lineCells raw channel lineLimit [] s.machine
    set { s with machine }
    assignFields names (lineFields s.separators names.length {} cells.reverse)
    return if ended then 0 else 1

end AssetCompiler.Shell.Builtin
