import AssetCompiler.Shell.Wildcard

/-! # Fields

The result of expanding a word is a row of cells. Values that were not quoted are split into
fields where separators stand in them: blanks separate as a group, anything else on its own.
Parameters that are quoted together are fields of their own.
-/
namespace AssetCompiler.Shell

inductive Cell where
  | char (g : Glyph) (splits : Bool)
  /-- A value begins. -/
  | edge
  /-- Separates values like a blank. -/
  | gap
  /-- Ends a field, even an empty one. -/
  | border
  /-- Keeps the field in being that it stands in. -/
  | keep
  deriving DecidableEq, Repr

namespace Cell

def ofValue (quoted full : Bool) (o : Octets) : List Cell :=
  edge :: o.map fun c => char ⟨c, quoted⟩ (full && !quoted)

def glyph? : Cell → Option Glyph
  | char g _ => some g
  | _ => none

def glyphs (cells : List Cell) : List Glyph := cells.filterMap glyph?

def text (cells : List Cell) : Octets := (glyphs cells).map Glyph.char

/-- What separates fields when nothing else is said. -/
def blanks : Octets := [' ', '\t', '\n']

structure Split where
  done : List (List Glyph) := []
  /-- The last field, its last character first, if there is one. -/
  last? : Option (List Glyph) := none
  /-- Whether the last field was ended by a blank, with which other separators may stand. -/
  behindBlank : Bool := false

namespace Split

def add (s : Split) (g : Glyph) : Split :=
  { s with last? := some (g :: s.last?.getD []), behindBlank := false }

def finish (s : Split) (behindBlank : Bool) : Split :=
  { done := (s.last?.getD []).reverse :: s.done, behindBlank }

def separate (s : Split) (isBlank : Bool) : Split :=
  if s.behindBlank then { s with behindBlank := isBlank }
  else if isBlank && s.last?.isNone then s
  else s.finish isBlank

def take (separators : Octets) (s : Split) : Cell → Split
  | char g splits =>
    if splits && separators.contains g.char then s.separate (blanks.contains g.char) else s.add g
  | edge => { s with behindBlank := false }
  | gap => s.separate true
  | border => s.finish false
  | keep => { s with last? := some (s.last?.getD []), behindBlank := false }

end Split

def fields (separators : Octets) (cells : List Cell) : List (List Glyph) :=
  let s := cells.foldl (Split.take separators) {}
  (match s.last? with
    | some last => last.reverse :: s.done
    | none => s.done).reverse

end Cell

end AssetCompiler.Shell
