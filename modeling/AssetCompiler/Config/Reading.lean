import AssetCompiler.Config.Basic
import AssetCompiler.Files.Tree
import AssetCompiler.Toml.Basic
import AssetCompiler.Toml.Reader

/-! # Configurations as TOML

A configuration is read from a table over the stock defaults. A record is written as a table
of its fields or as an array of its first fields in order; a field that is left out has the
record's default, and a key that no field has is refused.
-/
namespace AssetCompiler.Config

/-- The fields given for a record with the given field names. -/
def givenFields? (names : List String) : Toml → Option (List (String × Toml))
  | .table entries => if entries.all fun e => names.contains e.1 then some entries else none
  | .array items => if items.length ≤ names.length then some (names.zip items) else none
  | _ => none

def field {α : Type} (given : List (String × Toml)) (name : String) (read : Toml → Option α)
    (default : α) : Option α :=
  match Fields.get? given name with
  | some v => read v
  | none => some default

/-- A date stands for its own text. -/
def readString : Toml → Option String
  | .string s => some s
  | .datetime s => some s
  | _ => none

def readPath (v : Toml) : Option Path := (readString v).map Path.ofString

def readOptionalPath (v : Toml) : Option (Option Path) := (readPath v).map some

def readFlag : Toml → Option Bool
  | .boolean b => some b
  | _ => none

def readStrings : Toml → Option (List String)
  | .array items => items.mapM readString
  | _ => none

def readResources : Toml → Option (List (String × String))
  | .table entries => entries.mapM fun (k, v) => (readString v).map (k, ·)
  | _ => none

def policyOf? : String → Option ErrorPolicy
  | "abort" => some .abort
  | "continue" => some .proceed
  | _ => none

/-- A policy is its name, alone or as the key of one empty value. -/
def readPolicy : Toml → Option ErrorPolicy
  | .string s => policyOf? s
  | .table [(k, .table [])] => policyOf? k
  | .table [(k, .array [])] => policyOf? k
  | _ => none

def sectionFields : List String := ["source", "target", "languages"]

def readSection (v : Toml) : Option Section := do
  let given ← givenFields? sectionFields v
  some {
    source := ← field given "source" readPath ⟨""⟩
    target := ← field given "target" readPath ⟨""⟩
    languages := ← field given "languages" readStrings [] }

def deliveryFields : List String := ["path", "url"]

def readDelivery (v : Toml) : Option Delivery := do
  let given ← givenFields? deliveryFields v
  let default : Delivery := {}
  some {
    path := ← field given "path" readPath default.path
    url := ← field given "url" readString default.url }

def commandFields : List String :=
  ["transpile_script", "minify_stylesheet", "minify_script", "minify_markup"]

def readCommands (v : Toml) : Option Commands := do
  let given ← givenFields? commandFields v
  some {
    transpileScript := ← field given "transpile_script" readStrings []
    minifyStylesheet := ← field given "minify_stylesheet" readStrings []
    minifyScript := ← field given "minify_script" readStrings []
    minifyMarkup := ← field given "minify_markup" readStrings [] }

def configFields : List String :=
  ["cache", "force", "minify", "on_processor_error", "appconf", "i18n", "cdn", "html",
    "stylesheets", "scripts", "images", "resources", "processors"]

def ofToml? (v : Toml) : Option Config := do
  let given ← givenFields? configFields v
  let default : Config := {}
  some {
    cache := ← field given "cache" readPath default.cache
    force := ← field given "force" readFlag default.force
    minify := ← field given "minify" readFlag default.minify
    onProcessorError := ← field given "on_processor_error" readPolicy default.onProcessorError
    appConfig := ← field given "appconf" readOptionalPath default.appConfig
    catalog := ← field given "i18n" readOptionalPath default.catalog
    delivery := ← field given "cdn" readDelivery default.delivery
    markup := ← field given "html" readSection default.markup
    stylesheets := ← field given "stylesheets" readSection default.stylesheets
    scripts := ← field given "scripts" readSection default.scripts
    images := ← field given "images" readSection default.images
    resources := ← field given "resources" readResources default.resources
    commands := ← field given "processors" readCommands default.commands }

/-! ## The written form -/

def ofStrings (xs : List String) : Toml := .array (xs.map .string)

def ofPath (p : Path) : Toml := .string p.text

def policyName : ErrorPolicy → String
  | .abort => "abort"
  | .proceed => "continue"

def ofSection (s : Section) : Toml :=
  .table (Fields.sort [("source", ofPath s.source), ("target", ofPath s.target),
    ("languages", ofStrings s.languages)])

def ofDelivery (d : Delivery) : Toml :=
  .table (Fields.sort [("path", ofPath d.path), ("url", .string d.url)])

def ofCommands (c : Commands) : Toml :=
  .table (Fields.sort [("transpile_script", ofStrings c.transpileScript),
    ("minify_stylesheet", ofStrings c.minifyStylesheet),
    ("minify_script", ofStrings c.minifyScript), ("minify_markup", ofStrings c.minifyMarkup)])

/-- A field that is written only when it is set. -/
def optionalField (name : String) : Option Path → List (String × Toml)
  | some p => [(name, ofPath p)]
  | none => []

def toToml (c : Config) : Toml :=
  .table (Fields.sort (optionalField "appconf" c.appConfig ++ optionalField "i18n" c.catalog ++
    [("cache", ofPath c.cache), ("force", .boolean c.force), ("minify", .boolean c.minify),
      ("on_processor_error", .string (policyName c.onProcessorError)),
      ("cdn", ofDelivery c.delivery), ("html", ofSection c.markup),
      ("stylesheets", ofSection c.stylesheets), ("scripts", ofSection c.scripts),
      ("images", ofSection c.images),
      ("resources", .table (Fields.sort (c.resources.map fun (k, v) => (k, .string v)))),
      ("processors", ofCommands c.commands)]))

def stock : Toml := toToml {}

/-- The configuration of an overlay over a base, if it has the right form and is valid. -/
def resolve (base overlay : Toml) : Except ConfigError Config :=
  match ofToml? (base.merge overlay) with
  | some c => c.validate
  | none => .error .malformed

/-! ## Loading a configuration file

The text of the file is laid over the stock defaults. Its relative paths are meant from the
directory of the file.
-/


/-- The configuration that a text lays over the stock defaults. -/
def ofText (text : String) : Except ConfigError Config :=
  match Toml.parse? text with
  | some overlay => resolve stock overlay
  | none => .error .malformed

def load (files : Tree) (p : Path) : Except ConfigError Config := do
  let text ← (files.readText p).mapError .file
  let c ← ofText text
  .ok (c.resolvePaths (p.parent?.getD ⟨"."⟩))

end AssetCompiler.Config
