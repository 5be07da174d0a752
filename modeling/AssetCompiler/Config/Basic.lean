import AssetCompiler.Files.Tree
import AssetCompiler.Kind
import AssetCompiler.Text.Quoted

/-! # Build configuration

A configuration says where each kind of source lives, where its targets go, under which
address the targets are served and which commands process them. A valid configuration has a
non-empty address and localises markup only, into distinct languages.
-/
namespace AssetCompiler

/-- One transformation that an external command performs. -/
inductive Step where
  | transpileScript
  | minifyStylesheet
  | minifyScript
  | minifyMarkup
  deriving DecidableEq, Inhabited, Repr

def Step.label : Step → String
  | transpileScript => "transpile_script"
  | minifyStylesheet => "minify_stylesheet"
  | minifyScript => "minify_script"
  | minifyMarkup => "minify_markup"

instance : ToString Step := ⟨Step.label⟩

/-- The command line of each step. An empty one passes its input on. -/
structure Commands where
  transpileScript : List String := []
  minifyStylesheet : List String := []
  minifyScript : List String := []
  minifyMarkup : List String := []
  deriving DecidableEq, Inhabited, Repr

def Commands.get (c : Commands) : Step → List String
  | .transpileScript => c.transpileScript
  | .minifyStylesheet => c.minifyStylesheet
  | .minifyScript => c.minifyScript
  | .minifyMarkup => c.minifyMarkup

/-- What to do when a command fails on an asset. -/
inductive ErrorPolicy where
  | abort
  | proceed
  deriving DecidableEq, Inhabited, Repr

/-- Source and target roots of a kind. -/
structure Section where
  source : Path := ⟨""⟩
  target : Path := ⟨""⟩
  /-- Languages that each file is compiled for; none means that files are not localised. -/
  languages : List String := []
  deriving DecidableEq, Inhabited, Repr

/-- The directory that is served, and the address it is served under. -/
structure Delivery where
  path : Path := ⟨"public"⟩
  url : String := "/"
  deriving DecidableEq, Inhabited, Repr

structure Config where
  /-- The directory of the manifest, its lock and the compiled partials. -/
  cache : Path := ⟨"build"⟩
  force : Bool := false
  minify : Bool := false
  onProcessorError : ErrorPolicy := .abort
  appConfig : Option Path := none
  catalog : Option Path := none
  delivery : Delivery := {}
  markup : Section := ⟨⟨"html"⟩, ⟨"public/html"⟩, []⟩
  stylesheets : Section := ⟨⟨"stylesheets"⟩, ⟨"public/stylesheets"⟩, []⟩
  scripts : Section := ⟨⟨"scripts"⟩, ⟨"public/scripts"⟩, []⟩
  images : Section := ⟨⟨"images"⟩, ⟨"public/images"⟩, []⟩
  resources : List (String × String) := []
  commands : Commands := {}
  deriving DecidableEq, Inhabited, Repr

/-- Why a configuration is refused although it has the right form. -/
inductive Invalid where
  | emptyUrl
  | localized (kind : Kind)
  | badLanguage (language : String)
  deriving DecidableEq, Repr

inductive ConfigError where
  | file (fault : Fault)
  /-- The text is no TOML, or has keys or values that do not belong to a configuration. -/
  | malformed
  | invalid (reason : Invalid)
  deriving DecidableEq, Repr

def Invalid.message : Invalid → String
  | emptyUrl => "cdn.url must not be empty"
  | localized kind => kind.dirName ++ ".languages is only supported for html"
  | badLanguage language =>
    "html.languages contains an empty or duplicate entry: " ++ Text.quoted language

namespace Config

def sectionOf (c : Config) : Kind → Section
  | .markup => c.markup
  | .stylesheet => c.stylesheets
  | .script => c.scripts
  | .image => c.images

/-- The root of compiled partials. -/
def partialsDir (c : Config) : Path := c.cache.join ⟨"partials"⟩

/-- The first language that is empty or has occurred before. -/
def badLanguage? (seen : List String) : List String → Option String
  | [] => none
  | l :: ls => if l = "" || seen.contains l then some l else badLanguage? (l :: seen) ls

/-- The first kind other than markup that has languages. -/
def localizedKind? (c : Config) : Option Kind :=
  [Kind.stylesheet, .script, .image].find? fun k => (c.sectionOf k).languages != []

/-- What is wrong with a configuration, if anything. -/
def invalid? (c : Config) : Option Invalid :=
  if c.delivery.url = "" then some .emptyUrl
  else match c.localizedKind? with
    | some k => some (.localized k)
    | none => (badLanguage? [] c.markup.languages).map .badLanguage

def validate (c : Config) : Except ConfigError Config :=
  match c.invalid? with
  | some reason => .error (.invalid reason)
  | none => .ok c

def ofRoots (appConfig : Option Path) (assets output : Path) : Config :=
  let side (name : String) : Section := ⟨assets.join ⟨name⟩, output.join ⟨name⟩, []⟩
  { cache := assets.join ⟨"build"⟩, appConfig, delivery := ⟨output, "/"⟩, markup := side "html",
    stylesheets := side "stylesheets", scripts := side "scripts", images := side "images" }

/-- A relative path below a base. -/
def rebase (base p : Path) : Path := if p.isAbsolute then p else base.join p

def Section.rebase (base : Path) (s : Section) : Section :=
  { s with source := Config.rebase base s.source, target := Config.rebase base s.target }

def resolvePaths (c : Config) (base : Path) : Config :=
  { c with
    cache := rebase base c.cache
    delivery := { c.delivery with path := rebase base c.delivery.path }
    appConfig := c.appConfig.map (rebase base)
    catalog := c.catalog.map (rebase base)
    markup := Section.rebase base c.markup
    stylesheets := Section.rebase base c.stylesheets
    scripts := Section.rebase base c.scripts
    images := Section.rebase base c.images }

end Config

def ConfigError.message? : ConfigError → Option String
  | file fault => some ("IO error: " ++ fault.message)
  | malformed => none
  | invalid reason => some ("Config validation error: " ++ reason.message)

end AssetCompiler
