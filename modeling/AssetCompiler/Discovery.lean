import AssetCompiler.Config.Basic
import AssetCompiler.Files.Tree

/-! # Discovery of sources

The sources of a kind are the files below its source root with one of its extensions. Names
that begin with a dot and the cache directory are passed over with everything below them. A
root that is no directory has no sources.
-/
namespace AssetCompiler.Discovery

def isHidden (name : String) : Bool := name.toList.head? == some '.'

def pathBelow (root : Path) (names : List String) : Path :=
  names.foldl (fun p n => p.join ⟨n⟩) root

/-- Whether a walk from the root reaches the entry of the given names: nothing on the way is
hidden or the cache. -/
def isReached (root cache : Path) : List String → Bool
  | [] => true
  | n :: ns =>
    let here := root.join ⟨n⟩
    !isHidden n && !(here == cache) && isReached here cache ns

def sourcesBelow (files : Tree) (root cache : Path) (kind : Kind) (l : Location) : List Path :=
  (files.below l).filterMap fun (names, entry) =>
    let path := pathBelow root names
    match entry with
    | .file _ =>
      if isReached root cache names && Kind.ofPath? path == some kind then some path else none
    | .directory _ => none

/-- The sources of a kind in ascending order. -/
def ofKind (files : Tree) (c : Config) (kind : Kind) : List Path :=
  let root := (c.sectionOf kind).source
  match files.find root with
  | .ok (l, .directory _) => (sourcesBelow files root c.cache kind l).mergeSort Path.le
  | _ => []

def sources (files : Tree) (c : Config) : List Path :=
  Kind.all.flatMap (ofKind files c)

end AssetCompiler.Discovery
