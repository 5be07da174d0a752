import AssetCompiler.Instances
import AssetCompiler.Path

/-! # File trees

A tree maps locations, which are lists of names from the root downwards, to directories and
files. Paths are followed piece by piece from the root or from the working directory, and
every piece needs a directory to stand on. A directory changes when something is put into it or
taken out of it. A failed operation leaves the tree as it was, except that the directories of a
path that were made before a failure stay.
-/

namespace AssetCompiler

/-! ## Faults of file operations -/

inductive Fault where
  | missing
  | alreadyExists
  | notDirectory
  | isDirectory
  | notText
  deriving DecidableEq, Inhabited, Repr

/-- What a fault says without its number. -/
def Fault.reason : Fault → String
  | missing => "No such file or directory"
  | alreadyExists => "File exists"
  | notDirectory => "Not a directory"
  | isDirectory => "Is a directory"
  | notText => "stream did not contain valid UTF-8"

def Fault.message : Fault → String
  | missing => missing.reason ++ " (os error 2)"
  | alreadyExists => alreadyExists.reason ++ " (os error 17)"
  | notDirectory => notDirectory.reason ++ " (os error 20)"
  | isDirectory => isDirectory.reason ++ " (os error 21)"
  | notText => notText.reason

instance : ToString Fault := ⟨Fault.message⟩

/-! ## Locations and trees -/

/-- Names from the root downwards. -/
abbrev Location := List String

structure File where
  bytes : ByteArray
  /-- Time of the last change, in nanoseconds. -/
  modified : Nat
  /-- The number of the holder of an exclusive lock. -/
  holder? : Option Nat := none
  deriving DecidableEq, Inhabited

inductive Entry where
  | directory (modified : Nat)
  | file (f : File)
  deriving DecidableEq, Inhabited

def Entry.modified : Entry → Nat
  | directory modified => modified
  | file f => f.modified

def Entry.touch (modified : Nat) : Entry → Entry
  | directory _ => directory modified
  | file f => file { f with modified }

/-- Entries by location; the root is always a directory. -/
structure Tree where
  entries : List (Location × Entry) := []
  /-- The working directory. -/
  home : Location := []
  deriving Inhabited

namespace Tree

def get? (t : Tree) (l : Location) : Option Entry :=
  if l = [] then some (.directory 0) else t.entries.lookup l

def erase (t : Tree) (l : Location) : Tree :=
  { t with entries := t.entries.filter fun e => e.1 != l }

/-- Puts an entry at a location, in place of what stands there. -/
def put (t : Tree) (l : Location) (e : Entry) : Tree :=
  { t with entries := (l, e) :: (t.erase l).entries }

/-- Notes that a directory has changed. -/
def stamp (t : Tree) (l : Location) (now : Nat) : Tree :=
  match t.entries.lookup l with
  | some (.directory _) => t.put l (.directory now)
  | _ => t

def add (t : Tree) (l : Location) (e : Entry) (now : Nat) : Tree :=
  (t.put l e).stamp l.dropLast now

/-- Follows one piece of a path. -/
def step (t : Tree) (l : Location) (piece : List Char) : Except Fault Location :=
  match t.get? l with
  | none => .error .missing
  | some (.file _) => .error .notDirectory
  | some (.directory _) =>
    if Path.isFiller piece then .ok l
    else if piece = ['.', '.'] then .ok l.dropLast
    else .ok (l ++ [String.ofList piece])

def start (t : Tree) (p : Path) : Location := if p.isAbsolute then [] else t.home

/-- The location of a path. Only what the path passes through has to exist. -/
def locate (t : Tree) (p : Path) : Except Fault Location :=
  if p.text = "" then .error .missing
  else (Text.pieces '/' p.text.toList).foldlM t.step (t.start p)

def find (t : Tree) (p : Path) : Except Fault (Location × Entry) := do
  let l ← t.locate p
  match t.get? l with
  | some e => .ok (l, e)
  | none => .error .missing

def isFile (t : Tree) (p : Path) : Bool :=
  match t.find p with
  | .ok (_, .file _) => true
  | _ => false

def isDirectory (t : Tree) (p : Path) : Bool :=
  match t.find p with
  | .ok (_, .directory _) => true
  | _ => false

def file (t : Tree) (p : Path) : Except Fault File := do
  match ← t.find p with
  | (_, .file f) => .ok f
  | (_, .directory _) => .error .isDirectory

def read (t : Tree) (p : Path) : Except Fault ByteArray := (t.file p).map File.bytes

/-- The text of a file, which has to be UTF-8. -/
def readText (t : Tree) (p : Path) : Except Fault String := do
  match String.fromUTF8? (← t.read p) with
  | some s => .ok s
  | none => .error .notText

def pathOf (l : Location) : Path := ⟨"/" ++ "/".intercalate l⟩

/-- The directory that the last piece of a path stands in, and that piece. Separators at the
end do not count, and the root stands in itself. -/
def lastPiece (t : Tree) (p : Path) : Except Fault (Location × List Char) := do
  let pieces := Text.dropEndWhile (· == []) (Text.pieces '/' p.text.toList)
  match pieces.getLast? with
  | none => if p.text = "" then .error .missing else .ok ([], ['.'])
  | some piece =>
    let l ← pieces.dropLast.foldlM t.step (t.start p)
    let _ ← t.step l ['.']
    .ok (l, piece)

/-- Whether a piece names no entry of a directory but the directory or the one above it. -/
def isDots (piece : List Char) : Bool := piece == ['.'] || piece == ['.', '.']

/-- Where a file of a path is or can be created. -/
def place (t : Tree) (p : Path) : Except Fault Location := do
  let (l, piece) ← t.lastPiece p
  if isDots piece || p.text.toList.getLast? = some '/' then .error .isDirectory
  else .ok (l ++ [String.ofList piece])

/-- Writes a file, keeping a lock on one that exists. -/
def write (t : Tree) (p : Path) (bytes : ByteArray) (now : Nat) : Except Fault Tree := do
  let l ← t.place p
  match t.get? l with
  | some (.directory _) => .error .isDirectory
  | some (.file f) => .ok (t.put l (.file { f with bytes, modified := now }))
  | none => .ok (t.add l (.file { bytes, modified := now }) now)

def touch (t : Tree) (p : Path) (modified : Nat) : Except Fault Tree := do
  let (l, e) ← t.find p
  .ok (t.put l (e.touch modified))

def remove (t : Tree) (p : Path) (now : Nat) : Except Fault Tree := do
  match ← t.find p with
  | (l, .file _) => .ok ((t.erase l).stamp l.dropLast now)
  | (_, .directory _) => .error .isDirectory

def makeDirectory (t : Tree) (p : Path) (now : Nat) : Except Fault Tree := do
  let (l, piece) ← t.lastPiece p
  let next := l ++ [String.ofList piece]
  if isDots piece || (t.get? next).isSome then .error .alreadyExists
  else .ok (t.add next (.directory now) now)

/-- Makes the first directory of a list, and before it, when there is no place for it, those
that follow in the list. What exists as a directory need not be made. -/
def makeFirst (now : Nat) : List Path → Tree → Except Fault Unit × Tree
  | [], t => (.ok (), t)
  | p :: above, t =>
    let settle (t : Tree) (fault : Fault) : Except Fault Unit × Tree :=
      (if t.isDirectory p then .ok () else .error fault, t)
    if p.text = "" then (.ok (), t)
    else match t.makeDirectory p now with
      | .ok t => (.ok (), t)
      | .error .missing =>
        match makeFirst now above t with
        | (.error fault, t) => (.error fault, t)
        | (.ok (), t) =>
          match t.makeDirectory p now with
          | .ok t => (.ok (), t)
          | .error fault => settle t fault
      | .error fault => settle t fault

/-- Makes a directory and those above it that are missing. -/
def makeDirectories (t : Tree) (p : Path) (now : Nat) : Except Fault Unit × Tree :=
  makeFirst now p.ancestors t

/-- Everything below a location, with the names that lead there. -/
def below (t : Tree) (l : Location) : List (List String × Entry) :=
  t.entries.filterMap fun (m, e) =>
    if l.isPrefixOf m && m != l then some (m.drop l.length, e) else none

def names (t : Tree) (l : Location) : List String :=
  (t.below l).filterMap fun (names, _) =>
    match names with
    | [name] => some name
    | _ => none

/-- Removes what stands at a path and everything below it. -/
def removeAll (t : Tree) (p : Path) (now : Nat) : Except Fault Tree := do
  let (l, _) ← t.find p
  let kept : Tree := { t with entries := t.entries.filter fun e => !l.isPrefixOf e.1 }
  .ok (kept.stamp l.dropLast now)

theorem get?_erase (t : Tree) {l m : Location} (h : m ≠ []) :
    (t.erase l).get? m = if m = l then none else t.get? m := by
  simp only [get?, h, if_false, erase]
  induction t.entries with
  | nil => simp
  | cons e es ih =>
    obtain ⟨k, v⟩ := e
    by_cases hk : k = l
    · subst hk
      by_cases hm : m = k
      · simpa [hm] using ih
      · have : (m == k) = false := by simpa using hm
        simpa [List.lookup_cons, this, hm] using ih
    · by_cases hm : m = k
      · subst hm
        simp [hk]
      · have : (m == k) = false := by simpa using hm
        simpa [hk, List.lookup_cons, this] using ih

theorem get?_put (t : Tree) {l m : Location} (e : Entry) (h : m ≠ []) :
    (t.put l e).get? m = if m = l then some e else t.get? m := by
  have he := t.get?_erase (l := l) h
  simp only [get?, h, if_false] at he ⊢
  by_cases hm : m = l
  · simp [put, hm]
  · have hb : (m == l) = false := by simpa using hm
    simp only [put, List.lookup_cons, hb, hm, if_false]
    simpa [hm] using he

theorem mem_of_lookup_eq_some {α β : Type} [BEq α] [LawfulBEq α] {a : α} {b : β}
    {xs : List (α × β)} (h : xs.lookup a = some b) : (a, b) ∈ xs := by
  induction xs with
  | nil => simp at h
  | cons x xs ih =>
    obtain ⟨k, v⟩ := x
    rw [List.lookup_cons] at h
    split at h
    · rename_i hk
      simp only [Option.some.injEq] at h
      simp [eq_of_beq hk, h]
    · exact List.mem_cons_of_mem _ (ih h)

theorem mem_of_get?_file {t : Tree} {l : Location} {f : File} (h : t.get? l = some (.file f)) :
    l ∈ t.entries.map Prod.fst := by
  unfold get? at h
  split at h
  · simp at h
  · exact List.mem_map.mpr ⟨_, mem_of_lookup_eq_some h, rfl⟩

end Tree

end AssetCompiler
