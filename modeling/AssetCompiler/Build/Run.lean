import AssetCompiler.Build.Compile
import AssetCompiler.Build.Plan

/-! # Running a build

A build opens the cache, prunes rows of deleted sources, plans, compiles the assets in order
and saves the cache. A build that stops at an asset saves what was done before it; one that
cannot be planned saves nothing. The lock is held until the end.
-/
namespace AssetCompiler

namespace Build

def assetReport (a : Asset) (outcome : Outcome) (error : Option String) : AssetReport where
  kind := a.kind
  source := a.source
  language := a.language
  isPartial := a.isPartial
  target := a.target
  outcome := outcome
  error := error

/-- Notes a failed asset. It keeps the target that its row names. -/
def noteFailure (s : Session) (i : Nat) (e : ProcessorError) : Session :=
  let a := s.assets.get i
  let previous := (s.cache.find? a.source a.language).map Row.target
  (s.note [.error (a.label ++ ": " ++ e.message)]).setTarget i previous

/-- Compiles one asset and reports it. An asset that a processor fails on is reported too, unless
the configuration ends the build at it. -/
def compileOne (x : Context) (s : Session) (i : Nat) : Except BuildError AssetReport × Session :=
  match s.compile x i with
  | (.ok outcome, s) => (.ok (assetReport (s.assets.get i) outcome none), s)
  | (.error (.file fault), s) => (.error (.file fault), s)
  | (.error (.processor e), s) =>
    match x.config.onProcessorError with
    | .abort => (.error (.processor (s.assets.get i).label e), s)
    | .proceed =>
      let s := noteFailure s i e
      (.ok (assetReport (s.assets.get i) .failed (some e.message)), s)

/-- Compiles the assets of an order, up to the first failure that ends the build. Gives their
reports. -/
def compileAll (x : Context) (s : Session) : List Nat →
    Except BuildError (List AssetReport) × Session
  | [] => (.ok [], s)
  | i :: order =>
    match compileOne x s i with
    | (.error e, s) => (.error e, s)
    | (.ok report, s) =>
      let (rest, s) := compileAll x s order
      (rest.map (report :: ·), s)

/-- The result of a build after its cache is saved; a cache that cannot be saved is the
failure to report. -/
def saved (result : Except BuildError BuildReport) (c : Cache) (w : Workspace) :
    Except BuildError BuildReport × Workspace :=
  match c.save w with
  | (.ok (), w) => (result, w)
  | (.error e, w) => (.error (.cache e), w)

/-- A build that is about to compile: the rows that were pruned, and what it starts from. -/
structure Outset where
  gone : List Row
  session : Session
  order : List Nat
  deriving Inhabited

/-- Prunes an open cache and plans. -/
def setOut (x : Context) (cache : Cache) (w : Workspace) : Except BuildError Outset × Workspace :=
  match cache.prune w with
  | (.error fault, _, w) => (.error (.file fault), w)
  | (.ok gone, cache, w) =>
    match Plan.make x.config w with
    | (.error e, w) => (.error e, w)
    | (.ok plan, work) =>
      let catalog := { directory? := x.config.catalog }
      (.ok { gone, session := ⟨work, cache, plan.assets, catalog⟩, order := plan.order }, work)

/-- The part of a build between opening and closing the cache. -/
def withCache (x : Context) (cache : Cache) (w : Workspace) :
    Except BuildError BuildReport × Workspace :=
  match setOut x cache w with
  | (.error e, w) => (.error e, w)
  | (.ok o, _) =>
    let (result, s) := compileAll x o.session o.order
    saved (result.map fun assets => ⟨assets, o.gone.map Row.source⟩) s.cache s.work

end Build

/-- Compiles what is stale in a site. -/
def build (x : Context) (w : Workspace) : Except BuildError BuildReport × Workspace :=
  match Cache.openAt x.config.cache w with
  | (.error e, w) => (.error (.cache e), w)
  | (.ok cache, w) =>
    let (result, w) := Build.withCache x cache w
    (result, cache.close w)

end AssetCompiler
