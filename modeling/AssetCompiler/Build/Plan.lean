import AssetCompiler.Asset.References
import AssetCompiler.Build.Report
import AssetCompiler.Cache.Store
import AssetCompiler.Discovery
import AssetCompiler.Processor.Basic
import AssetCompiler.Schedule

/-! # Planning a build

A plan is the collection of a site's assets, with the references between them, and an order
that puts dependencies first. Planning reads sources and changes no file.
-/
namespace AssetCompiler

inductive BuildError where
  | cache (error : CacheError)
  | parse (error : ParseError)
  /-- The labels of assets that depend on each other or on such assets. -/
  | cycle (assets : List String)
  | file (fault : Fault)
  | processor (asset : String) (error : ProcessorError)
  deriving DecidableEq, Repr

namespace BuildError

def message : BuildError → String
  | cache error => "Cache error: " ++ error.message
  | parse error => error.message
  | cycle assets => "cyclic dependency among: " ++ ", ".intercalate assets
  | file fault => "IO error: " ++ fault.message
  | processor asset error => "processing " ++ asset ++ " failed: " ++ error.message

def exitCode : BuildError → UInt8
  | cycle _ => 2
  | processor .. => 4
  | cache _ | parse _ | file _ => 3

end BuildError

/-- Assets and the order to compile them in. -/
structure Plan where
  assets : Collection
  order : List Nat
  deriving Inhabited

namespace Plan

def make (c : Config) (w : Workspace) : Except BuildError Plan × Workspace :=
  let files := Discovery.sources w.files c
  match (Collection.ofFiles c files).parseAll c w with
  | (.error e, _, w) => (.error (.parse e), w)
  | (.ok (), assets, w) =>
    match Schedule.order assets.graph with
    | .ok order => (.ok { assets, order }, w)
    | .error cycle => (.error (.cycle (cycle.remaining.map fun i => (assets.get i).label)), w)

def planned (a : Asset) : PlannedAsset where
  kind := a.kind
  source := a.source
  language := a.language
  isPartial := a.isPartial
  dependencies := a.dependencies.length
  unresolved := a.unresolved

/-- The report of a plan that is not carried out. -/
def report (p : Plan) : CheckReport := { order := p.order.map fun i => planned (p.assets.get i) }

end Plan

/-- Plans a build without compiling anything. -/
def check (c : Config) (w : Workspace) : Except BuildError CheckReport × Workspace :=
  let (plan, w) := Plan.make c w
  (plan.map Plan.report, w)

end AssetCompiler
