/-! # The documented configuration text

The text spells out every setting with its default and says what it does.
-/
namespace AssetCompiler.Config

def stockLines : List String := [
  "# assetsmith configuration",
  "# ========================",
  "# All settings are optional. Values shown below are the defaults.",
  "# Relative paths are resolved against this file's directory.",
  "# Unknown keys will cause an error.",
  "",
  "# Directory for cache.json, cache.lock and compiled partials.",
  "cache = \"build\"",
  "",
  "# Recompile every asset even when the cache says it is fresh.",
  "force = false",
  "",
  "# Run the minify processors on public (non-partial) stylesheets, scripts",
  "# and markup.",
  "minify = false",
  "",
  "# What to do when an external processor exits with an error:",
  "#   \"abort\"    - stop the build",
  "#   \"continue\" - mark the asset failed and keep going",
  "on_processor_error = \"abort\"",
  "",
  "# Directory holding index.json for [!dotted.key!] lookups.",
  "# appconf = \"config\"",
  "",
  "# Directory holding <lang>.json files for [ key ] lookups.",
  "# i18n = \"i18n\"",
  "",
  "# ---------------------------------------------------------------------------",
  "# CDN: URLs are cdn.url + the target path relative to cdn.path",
  "# ---------------------------------------------------------------------------",
  "[cdn]",
  "path = \"public\"",
  "url = \"/\"",
  "",
  "# ---------------------------------------------------------------------------",
  "# Sources and targets per resource kind",
  "# ---------------------------------------------------------------------------",
  "[html]",
  "source = \"html\"",
  "target = \"public/html\"",
  "# Compile every page once per language, e.g. [\"en\", \"de\"].",
  "languages = []",
  "",
  "[stylesheets]",
  "source = \"stylesheets\"",
  "target = \"public/stylesheets\"",
  "",
  "[scripts]",
  "source = \"scripts\"",
  "target = \"public/scripts\"",
  "",
  "[images]",
  "source = \"images\"",
  "target = \"public/images\"",
  "",
  "# ---------------------------------------------------------------------------",
  "# Named URLs for [%= resource_url key %]",
  "# ---------------------------------------------------------------------------",
  "[resources]",
  "# fonts = \"https://fonts.example.com/css?family=Inter\"",
  "",
  "# ---------------------------------------------------------------------------",
  "# External processors",
  "# ---------------------------------------------------------------------------",
  "# Each entry is an argv list. Input is piped on stdin and output read from",
  "# stdout, unless the arguments contain \x7binput\x7d / \x7boutput\x7d, in which case",
  "# temp files are passed instead. An empty list passes content through.",
  "[processors]",
  "transpile_script = []",
  "minify_stylesheet = []",
  "minify_script = []",
  "minify_markup = []"
]

def stockText : String := String.join (stockLines.map (· ++ "\n"))

end AssetCompiler.Config
