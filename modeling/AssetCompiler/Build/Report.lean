import AssetCompiler.Kind
import AssetCompiler.Naming

/-! # Reports

A build reports what happened to each asset, a check the order in which a build would compile
them. Both are shown as lines that lead with position and file name; paths are shown relative
to a root they lie below.
-/
namespace AssetCompiler

inductive Outcome where
  | created
  | updated
  /-- Fresh; the earlier target stands. -/
  | cached
  | failed
  deriving DecidableEq, Inhabited, Repr

def Outcome.label : Outcome → String
  | created => "created"
  | updated => "updated"
  | cached => "cached"
  | failed => "failed"

instance : ToString Outcome := ⟨Outcome.label⟩

structure AssetReport where
  kind : Kind
  source : Path
  language : Option String
  isPartial : Bool
  target : Option Path
  outcome : Outcome
  error : Option String
  deriving Inhabited, Repr

/-- Assets in compile order, and the sources whose rows were pruned. -/
structure BuildReport where
  assets : List AssetReport := []
  pruned : List Path := []
  deriving Inhabited, Repr

structure PlannedAsset where
  kind : Kind
  source : Path
  language : Option String
  isPartial : Bool
  dependencies : Nat
  unresolved : List Path
  deriving Inhabited, Repr

structure CheckReport where
  order : List PlannedAsset := []
  deriving Inhabited, Repr

namespace Report

/-- A position with at least three digits. -/
def position (n : Nat) : String :=
  let ds := Nat.toDigits 10 n
  String.ofList (List.replicate (3 - ds.length) '0' ++ ds)

/-- A path relative to a root, if it lies below it. -/
def shownPath (p root : Path) : String :=
  Naming.forwardSlashes ((p.stripPrefix? root).getD p).text

def header (n : Nat) (source : Path) (language detail : Option String) : String :=
  let name := source.fileName?.getD source.text
  let language := (language.map fun l => " [" ++ l ++ "]").getD ""
  let detail := (detail.map fun d => " (" ++ d ++ ")").getD ""
  position n ++ " " ++ name ++ language ++ detail

def counted (n : Nat) (one many : String) : String :=
  toString n ++ " " ++ if n = 1 then one else many

def numberedLines {α : Type} (lines : Nat → α → List String) (items : List α) : List String :=
  (items.zipIdx 1).flatMap fun (a, n) => lines n a

/-- An empty line behind lines, if there are any. -/
def separated (lines : List String) : List String :=
  if lines = [] then [] else lines ++ [""]

end Report

open Report

namespace BuildReport

def count (r : BuildReport) (o : Outcome) : Nat :=
  (r.assets.filter (·.outcome = o)).length

def hasFailures (r : BuildReport) : Bool := 0 < r.count .failed

def find? (r : BuildReport) (source : Path) (language : Option String) : Option AssetReport :=
  r.assets.find? fun a => a.source == source && a.language == language

def summary (r : BuildReport) : String :=
  let failed := r.count .failed
  toString (r.count .created + r.count .updated) ++ " compiled, " ++ toString (r.count .cached) ++
    " cached" ++ (if 0 < failed then ", " ++ toString failed ++ " failed" else "") ++
    " (" ++ toString r.assets.length ++ " total)"

def assetLines (root : Path) (n : Nat) (a : AssetReport) : List String :=
  let target := if a.outcome = .created || a.outcome = .updated then a.target else none
  [header n a.source a.language (some a.outcome.label),
      "    Source: " ++ shownPath a.source root] ++
    (target.map fun t => "    Target: " ++ shownPath t root).toList ++
    (a.error.map fun e => "    Error: " ++ e).toList

def prunedLines (root : Path) (pruned : List Path) : List String :=
  if pruned = [] then []
  else ["", "Pruned"] ++ pruned.map fun p => "    " ++ shownPath p root

def lines (r : BuildReport) (root : Path) : List String :=
  separated (numberedLines (assetLines root) r.assets ++ prunedLines root r.pruned) ++ [r.summary]

end BuildReport

namespace CheckReport

def unresolvedCount (r : CheckReport) : Nat :=
  r.order.foldl (fun count a => count + a.unresolved.length) 0

def assetLines (root : Path) (n : Nat) (a : PlannedAsset) : List String :=
  let detail :=
    if a.isPartial then some "partial"
    else if 0 < a.dependencies then some (counted a.dependencies "dependency" "dependencies")
    else none
  [header n a.source a.language detail, "    Source: " ++ shownPath a.source root] ++
    a.unresolved.map fun p => "    Missing: " ++ shownPath p root

def lines (r : CheckReport) (root : Path) : List String :=
  separated (numberedLines (assetLines root) r.order) ++
    [counted r.order.length "asset" "assets" ++ ", " ++
      counted r.unresolvedCount "missing reference" "missing references"]

end CheckReport

end AssetCompiler
