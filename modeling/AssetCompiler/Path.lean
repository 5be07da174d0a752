import AssetCompiler.Text.Blank

/-! # Paths

A path is a text whose meaning is its list of components. Repeated separators, separators
at the end and inner `.` pieces carry no component, so several spellings name one path;
operations that cut a path keep the spelling of what they leave. Equality with `==` and the
order compare components.
-/
namespace AssetCompiler

structure Path where
  text : String
  deriving DecidableEq, Inhabited, Repr

/-- One step of a path. `here` only begins a relative path. -/
inductive Component where
  | root
  | here
  | up
  | name (s : String)
  deriving DecidableEq, Repr

namespace Component

def text : Component → String
  | root => "/"
  | here => "."
  | up => ".."
  | name s => s

/-- Components are ordered by kind, names among themselves by their characters. -/
def rank : Component → Nat × String
  | root => (0, "")
  | here => (1, "")
  | up => (2, "")
  | name s => (3, s)

def before (a b : Component) : Bool :=
  a.rank.1 < b.rank.1 || (a.rank.1 == b.rank.1 && decide (a.rank.2 < b.rank.2))

/-- The component of a piece between separators. Only at the start does `.` count. -/
def ofPiece? (leading : Bool) (piece : List Char) : Option Component :=
  if piece = [] then none
  else if piece = ['.'] then if leading then some here else none
  else if piece = ['.', '.'] then some up
  else some (name (String.ofList piece))

end Component

namespace Path

open Text (pieces unite dropEndWhile)

def ofString (s : String) : Path := ⟨s⟩

/-- Whether a piece after the first carries no component. -/
def isFiller (piece : List Char) : Bool :=
  piece == [] || piece == ['.']

/-- The text before the first separator and the pieces after it. -/
def headTail (p : Path) : List Char × List (List Char) :=
  match pieces '/' p.text.toList with
  | [] => ([], [])
  | first :: rest => (first, rest)

/-- What the text before the first separator contributes. -/
def leadingComponent? (first : List Char) (rest : List (List Char)) : Option Component :=
  if first = [] then if rest = [] then none else some .root
  else Component.ofPiece? true first

def components (p : Path) : List Component :=
  let (first, rest) := p.headTail
  (leadingComponent? first rest).toList ++ rest.filterMap (Component.ofPiece? false)

/-- Two spellings are the same path when their components agree. -/
instance : BEq Path := ⟨fun p q => p.components == q.components⟩

theorem beq_iff {p q : Path} : (p == q) = true ↔ p.components = q.components :=
  beq_iff_eq (a := p.components)

def componentsLe : List Component → List Component → Bool
  | [], _ => true
  | _ :: _, [] => false
  | a :: as, b :: bs => a.before b || (a == b && componentsLe as bs)

def le (p q : Path) : Bool := componentsLe p.components q.components

def isAbsolute (p : Path) : Bool := p.text.toList.head? == some '/'

/-- A path below another; an absolute path stands for itself. -/
def join (p q : Path) : Path :=
  if q.isAbsolute || p.text == "" then q
  else if p.text.toList.getLast? = some '/' then ⟨p.text ++ q.text⟩
  else ⟨p.text ++ "/" ++ q.text⟩

/-- The text of a first piece and further pieces, where nothing after an empty first piece
is the root. -/
def spell (first : List Char) (rest : List (List Char)) : Path :=
  if first = [] && rest = [] then ⟨"/"⟩
  else ⟨String.ofList (unite ['/'] (first :: rest))⟩

def parent? (p : Path) : Option Path :=
  let (first, rest) := p.headTail
  let kept := dropEndWhile isFiller rest
  if kept = [] then if first = [] then none else some ⟨""⟩
  else some (spell first (dropEndWhile isFiller kept.dropLast))

/-- A path and at most `n` of those above it, upwards. -/
def upwards : Nat → Path → List Path
  | 0, p => [p]
  | n + 1, p => p :: (p.parent?.map (upwards n)).getD []

def ancestors (p : Path) : List Path := upwards p.components.length p

/-- The last component when it is a name. -/
def fileName? (p : Path) : Option String :=
  match p.components.getLast? with
  | some (.name s) => some s
  | _ => none

/-- Splits a file name at its last dot. A dot at the very start does not begin an extension. -/
def splitName (name : List Char) : List Char × Option (List Char) :=
  let ps := pieces '.' name
  let stem := unite ['.'] ps.dropLast
  if stem = [] then (name, none) else (stem, ps.getLast?)

def stem? (p : Path) : Option String :=
  p.fileName?.map fun n => String.ofList (splitName n.toList).1

def extension? (p : Path) : Option String :=
  p.fileName?.bind fun n => (splitName n.toList).2.map String.ofList

/-- Puts another file name in place of the last one, or below a path that has none. -/
def withFileName (p : Path) (name : String) : Path :=
  match p.fileName? with
  | some _ => (p.parent?.getD ⟨""⟩).join ⟨name⟩
  | none => p.join ⟨name⟩

/-- The pieces up to the last component, that component left out. -/
def beforeLast (p : Path) : List (List Char) :=
  let (first, rest) := p.headTail
  let kept := dropEndWhile isFiller rest
  if kept = [] then [] else first :: kept.dropLast

/-- Replaces the extension; a path without a file name stays as it is. -/
def withExtension (p : Path) (extension : String) : Path :=
  match p.stem? with
  | none => p
  | some stem =>
    let name := if extension == "" then stem else stem ++ "." ++ extension
    ⟨String.ofList (unite ['/'] (p.beforeLast ++ [name.toList]))⟩

/-- Drops pieces until `n` components are gone. -/
def dropComponents : Nat → List (List Char) → List (List Char)
  | 0, ps => ps
  | _ + 1, [] => []
  | n + 1, p :: ps => if isFiller p then dropComponents (n + 1) ps else dropComponents n ps

/-- The path without pieces at its end that carry no component. -/
def trimEnd (p : Path) : Path :=
  let (first, rest) := p.headTail
  let kept := dropEndWhile isFiller rest
  if first = [] && rest = [] then ⟨""⟩ else spell first kept

/-- What is left of a path below a base; nothing when it does not lie below it. -/
def stripPrefix? (p base : Path) : Option Path :=
  let n := base.components.length
  if base.components.isPrefixOf p.components then
    if n = 0 then some p.trimEnd
    else
      let rest := (dropComponents (n - 1) p.headTail.2).dropWhile isFiller
      some ⟨String.ofList (unite ['/'] (dropEndWhile isFiller rest))⟩
  else none

def joinComponents (cs : List Component) : String :=
  "/".intercalate (cs.map Component.text)

instance : ToString Path := ⟨Path.text⟩

end Path

end AssetCompiler
