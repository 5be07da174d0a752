import AssetCompiler.Asset.Basic

/-! # Collections of assets

A collection holds the assets of a build; an asset's index is its name in the collection. No
two assets have one identity, and adding one never moves another.
-/
namespace AssetCompiler

abbrev Collection := List Asset

namespace Collection

def indexOf? (as : Collection) (source : Path) (language : Option String) : Option Nat :=
  as.findIdx? fun a => a.hasIdentity source language

/-- Adds an asset unless its identity is there, and gives its index. -/
def insert (as : Collection) (a : Asset) : Nat × Collection :=
  match as.indexOf? a.source a.language with
  | some i => (i, as)
  | none => (as.length, as ++ [a])

/-- The languages that files of a section are compiled for, or none once. -/
def variants (s : Section) : List (Option String) :=
  if s.languages = [] then [none] else s.languages.map some

def ofFile (c : Config) (p : Path) : List Asset :=
  match Kind.ofPath? p with
  | some k => (variants (c.sectionOf k)).map fun l => .ofSource k p l
  | none => []

/-- The assets of a list of files, in order. Files of no kind are left out. -/
def ofFiles (c : Config) (files : List Path) : Collection :=
  (files.flatMap (ofFile c)).foldl (fun as a => (insert as a).2) []

def get (as : Collection) (i : Nat) : Asset := as.getD i default

def update (as : Collection) (i : Nat) (f : Asset → Asset) : Collection := as.modify i f

/-- The asset that a reference means: in the referring asset's language, or in none. -/
def findFor? (as : Collection) (source : Path) (language : Option String) : Option Nat :=
  match language.bind fun l => as.indexOf? source (some l) with
  | some i => some i
  | none => as.indexOf? source none

def graph (as : Collection) : List (List Nat) := as.map Asset.dependencies

end Collection

end AssetCompiler
