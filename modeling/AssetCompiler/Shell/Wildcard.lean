import AssetCompiler.Files.Tree
import AssetCompiler.Text.Octets

/-! # Wildcards

A pattern is a text in which a star stands for anything, a question mark for any character and
brackets for one of several characters, unless they are quoted. Patterns are matched against
texts, or piece by piece against the files of a tree.
-/
namespace AssetCompiler.Shell

/-- A character, which stands for itself if it is quoted. -/
structure Glyph where
  char : Char
  quoted : Bool := false
  deriving DecidableEq, Repr

inductive Choices where
  | range (first last : Char)
  | named (name : String)
  deriving DecidableEq, Repr

def Choices.holds (c : Char) : Choices → Bool
  | range first last => first ≤ c && c ≤ last
  | named name => OctetClass.holds name c

inductive Wildcard where
  | one (c : Char)
  | any
  | many
  | among (excluded : Bool) (choices : List Choices)
  deriving DecidableEq, Repr

namespace Wildcard

def isFixed : Wildcard → Bool
  | one _ => true
  | _ => false

def class? (gs : List Glyph) : Option (String × List Glyph) :=
  OctetClass.names.findSome? fun name =>
    let text := (':' :: name.toList ++ [':', ']']).map fun c => Glyph.mk c false
    if text.isPrefixOf gs then some (name, gs.drop text.length) else none

/-- A character that a backslash may protect, and what follows it. -/
def protect (g : Glyph) (gs : List Glyph) : Char × List Glyph :=
  match gs with
  | next :: rest => if g == ⟨'\\', false⟩ then (next.char, rest) else (g.char, gs)
  | [] => (g.char, [])

/-- The choices up to the closing bracket, and what follows it. The first character can be a
bracket itself. -/
def choices? : Nat → Bool → List Glyph → Option (List Choices × List Glyph)
  | 0, _, _ => none
  | _, _, [] => none
  | n + 1, isFirst, g :: gs =>
    if g == ⟨']', false⟩ && !isFirst then some ([], gs)
    else match if g == ⟨'[', false⟩ then class? gs else none with
      | some (name, gs) =>
        (choices? n false gs).map fun (cs, gs) => (.named name :: cs, gs)
      | none =>
        let (first, gs) := protect g gs
        match gs with
        | dash :: last :: rest =>
          if dash == ⟨'-', false⟩ && last != ⟨']', false⟩ then
            let (last, rest) := protect last rest
            (choices? n false rest).map fun (cs, gs) => (.range first last :: cs, gs)
          else (choices? n false gs).map fun (cs, gs) => (.range first first :: cs, gs)
        | gs => (choices? n false gs).map fun (cs, gs) => (.range first first :: cs, gs)

def brackets? (gs : List Glyph) : Option (Wildcard × List Glyph) :=
  let excluded := gs.head? == some ⟨'!', false⟩
  let inside := if excluded then gs.drop 1 else gs
  (choices? (inside.length + 1) true inside).map fun (cs, rest) => (.among excluded cs, rest)

/-- Reads a pattern; the number bounds its length. -/
def read : Nat → List Glyph → List Wildcard
  | 0, _ => []
  | _, [] => []
  | n + 1, g :: gs =>
    if g.quoted then one g.char :: read n gs
    else if g.char = '*' then many :: read n gs
    else if g.char = '?' then any :: read n gs
    else if g.char = '\\' then
      match gs with
      | next :: rest => one next.char :: read n rest
      | [] => [one '\\']
    else if g.char = '[' then
      match brackets? gs with
      | some (w, rest) => w :: read n rest
      | none => one '[' :: read n gs
    else one g.char :: read n gs

def ofGlyphs (gs : List Glyph) : List Wildcard := read gs.length gs

def accepts : List Wildcard → Octets → Bool
  | [], cs => cs.isEmpty
  | many :: ws, [] => accepts ws []
  | many :: ws, c :: cs => accepts ws (c :: cs) || accepts (many :: ws) cs
  | _ :: _, [] => false
  | one d :: ws, c :: cs => c == d && accepts ws cs
  | any :: ws, _ :: cs => accepts ws cs
  | among excluded choices :: ws, c :: cs =>
    choices.any (Choices.holds c) != excluded && accepts ws cs
  termination_by ws cs => ws.length + cs.length
  decreasing_by all_goals simp only [List.length_cons, List.length_nil]; omega

def dropFront (longest : Bool) (ws : List Wildcard) (cs : Octets) : Octets :=
  let sizes := List.range (cs.length + 1)
  match (if longest then sizes.reverse else sizes).find? fun n => accepts ws (cs.take n) with
  | some n => cs.drop n
  | none => cs

def dropBack (longest : Bool) (ws : List Wildcard) (cs : Octets) : Octets :=
  let sizes := List.range (cs.length + 1)
  match (if longest then sizes else sizes.reverse).find? fun n => accepts ws (cs.drop n) with
  | some n => cs.take n
  | none => cs

def pieces : List Glyph → List (List Glyph)
  | [] => [[]]
  | g :: gs =>
    match pieces gs with
    | [] => [[g]]
    | p :: ps => if g.char = '/' then [] :: p :: ps else (g :: p) :: ps

/-- The names in a directory that a piece stands for. A name that begins with a dot needs one
in the pattern. -/
def namesFor (t : Tree) (directory : Octets) (gs : List Glyph) (ws : List Wildcard) :
    List Octets :=
  let path := if directory = [] then "." else Octets.toText directory
  match t.find ⟨path⟩ with
  | .ok (l, .directory _) =>
    let names := ["."  , ".."] ++ t.names l
    (names.map Octets.ofString).filter fun name =>
      (name.head? != some '.' || (gs.head?.map Glyph.char) == some '.') && accepts ws name
  | _ => []

/-- The paths that pieces stand for behind the beginning of a path. -/
def expand (t : Tree) : List (List Glyph) → Octets → List Octets
  | [], _ => []
  | piece :: rest, start =>
    let ws := ofGlyphs piece
    let found :=
      if ws.all isFixed then [start ++ ws.filterMap fun w =>
        match w with
        | one c => some c
        | _ => none]
      else (namesFor t start piece ws).map (start ++ ·)
    match rest with
    | [] => found.filter fun p => (t.find ⟨Octets.toText p⟩).isOk
    | _ => found.flatMap fun p => expand t rest (p ++ ['/'])

def inOrder : Octets → Octets → Bool
  | [], _ => true
  | _ :: _, [] => false
  | c :: cs, d :: ds => c < d || (c == d && inOrder cs ds)

/-- The files that a pattern stands for, in order. -/
def files (t : Tree) (gs : List Glyph) : List Octets :=
  if (ofGlyphs gs).all isFixed then []
  else (expand t (pieces gs) []).mergeSort inOrder

end Wildcard

end AssetCompiler.Shell
