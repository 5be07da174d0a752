import AssetCompiler.Asset.Collection
import AssetCompiler.Build.Context
import AssetCompiler.Catalog
import AssetCompiler.Config.Basic
import AssetCompiler.Directive.Render
import AssetCompiler.Naming
import AssetCompiler.Workspace

/-! # Producing the content of a target

The content of a target is the source's text with its directives answered, sent through the
steps that its kind asks for. Sources without a text, such as images, are copied. Answering
reads the targets of dependencies and changes no file.
-/

namespace AssetCompiler

/-! ## Public addresses

A target below the served directory has an address: the base address, without slashes at its
end, and the components that lead from the directory to the target.
-/

def trimSlashes (s : String) : String :=
  String.ofList (Text.dropEndWhile (· == '/') s.toList)

/-- The address of a target, unless it lies outside the served directory. -/
def publicUrl? (d : Delivery) (target : Path) : Option String :=
  (target.stripPrefix? d.path).map fun rest =>
    trimSlashes d.url ++ "/" ++ Path.joinComponents rest.components

/-! ## Content -/

inductive CompileError where
  | file (fault : Fault)
  | processor (error : ProcessorError)
  deriving DecidableEq, Repr

structure Answering where
  catalog : Catalog
  log : List LogLine := []
  deriving Inhabited

namespace Answering

def note (t : Answering) (lines : List LogLine) : Answering := { t with log := t.log ++ lines }

def warn (t : Answering) (text : String) : Answering := t.note [.warn text]

end Answering

namespace Produce

/-- The characters that markup gives a meaning, written so that they stand for themselves. -/
def escapeChar : Char → List Char
  | '&' => "&amp;".toList
  | '<' => "&lt;".toList
  | '>' => "&gt;".toList
  | '"' => "&quot;".toList
  | c => [c]

def escape (s : String) : String := String.ofList (s.toList.flatMap escapeChar)

/-- What answers about one asset look at: the files, the assets and the asset itself. -/
structure Scene where
  context : Context
  files : Tree
  assets : Collection
  asset : Asset

namespace Scene

/-- Answers from a compiled dependency. A directive without one has no answer, and neither
has one whose dependency is not compiled, with a warning. -/
def withTarget (s : Scene) (o : Occurrence) (t : Answering)
    (answer : Asset → Path → String × Answering) : String × Answering :=
  match o.dependency? with
  | none => ("", t)
  | some i =>
    let d := s.assets.get i
    match d.target with
    | some target => answer d target
    | none => ("", t.warn (s.asset.label ++ ": " ++ d.label ++ " has no compiled target"))

def embed (s : Scene) (o : Occurrence) (escaped : Bool) (t : Answering) : String × Answering :=
  s.withTarget o t fun d target =>
    match s.files.readText target with
    | .ok text => (if escaped then escape text else text, t)
    | .error fault =>
      ("", t.warn (s.asset.label ++ ": cannot read " ++ d.label ++ " (" ++ fault.message ++ ")"))

def address (s : Scene) (o : Occurrence) (t : Answering) : String × Answering :=
  s.withTarget o t fun d target =>
    if d.isPartial then
      ("", t.warn (s.asset.label ++ ": " ++ d.label ++ " is a partial and has no URL"))
    else match publicUrl? s.context.config.delivery target with
      | some url => (url, t)
      | none => ("", t.warn (s.asset.label ++ ": " ++ target.text ++
          " is outside the CDN directory " ++ s.context.config.delivery.path.text))

/-- The link to a dependency from the directory of the asset's own target. -/
def link (s : Scene) (o : Occurrence) (t : Answering) : String × Answering :=
  s.withTarget o t fun _ target =>
    (Naming.relativeLink target (s.asset.targetDir s.context.config), t)

def resource (s : Scene) (key : String) (t : Answering) : String × Answering :=
  match Fields.get? s.context.config.resources key with
  | some url => (url, t)
  | none => ("", t.warn ("resource `" ++ key ++ "` is not defined"))

def setting (s : Scene) (key filter : String) (t : Answering) : String × Answering :=
  let (text, log) := s.context.settings.render key filter
  (text, t.note log)

def message (s : Scene) (key : String) (t : Answering) : String × Answering :=
  let (text, catalog, log) := t.catalog.message s.files key s.asset.language
  (text, { t with catalog }.note log)

def answer (s : Scene) (o : Occurrence) (t : Answering) : String × Answering :=
  match o.directive with
  | .embed _ escaped => s.embed o escaped t
  | .stylesheetUrl _ | .scriptUrl _ | .imageUrl _ => s.address o t
  | .imagePath _ => s.link o t
  | .resourceUrl key => s.resource key t
  | .setting key filter => s.setting key filter t
  | .localize key => s.message key t
  | .declare .. | .display _ | .openBlock _ | .elseBranch | .closeBlock => ("", t)

def lookup (s : Scene) : Lookup Answering where
  answer := s.answer
  warn text t := t.warn text

/-- The text with its directives answered, or the source as it is. -/
def expand (s : Scene) (t : Answering) : Except Fault ByteArray × Answering :=
  match s.asset.content with
  | some text =>
    let (out, t) := render s.lookup text s.asset.occurrences t
    (.ok out.toUTF8, t)
  | none => (s.files.read s.asset.source, t)

end Scene

def minifyStep? : Kind → Option Step
  | .markup => some .minifyMarkup
  | .stylesheet => some .minifyStylesheet
  | .script => some .minifyScript
  | .image => none

/-- The steps that an asset goes through. Partials are minified where they are included. -/
def steps (c : Config) (a : Asset) : List Step :=
  (if a.needsTranspile then [.transpileScript] else []) ++
    (if c.minify && !a.isPartial then (minifyStep? a.kind).toList else [])

/-- Takes an input through steps, up to the first that fails. The calls are noted, and the
files are changed as the processor changes them. -/
def runSteps (p : Processor) (w : Workspace) (input : ByteArray) :
    List Step → Except ProcessorError ByteArray × Workspace
  | [] => (.ok input, w)
  | step :: rest =>
    let (result, disk) := p w.calls step input w.toDisk
    let w := { w with toDisk := disk, calls := w.calls ++ [⟨step, input⟩] }
    match result with
    | .ok output => runSteps p w output rest
    | .error e => (.error e, w)

/-- The content of an asset's target, and what producing it leaves behind: the tables that
answering has read, its log, and the workspace in which the processor ran. -/
def content (s : Scene) (catalog : Catalog) (w : Workspace) :
    Except CompileError ByteArray × Answering × Workspace :=
  match s.expand { catalog } with
  | (.error fault, t) => (.error (.file fault), t, w)
  | (.ok bytes, t) =>
    let (result, w) := runSteps s.context.processor w bytes (steps s.context.config s.asset)
    (result.mapError .processor, t, w)

end Produce

end AssetCompiler
