import AssetCompiler.Directive.Basic

/-! # The written forms of directives

A form is a fixed opening, a body and a fixed closing. Each kind of text has its own list of
forms. A body is scanned from left to right without going back, because the character after
it never belongs to it.
-/
namespace AssetCompiler

open Text (pieces strip?)

/-- The ways in which directives are written. -/
inductive Form where
  | markupInclude
  | escapedInclude
  | stylesheetInclude
  | scriptInclude
  | stylesheetUrl
  | scriptUrl
  | imageUrl
  | imagePath
  | resourceUrl
  | setting
  | declare
  | openBlock
  | elseBranch
  | closeBlock
  | display
  | localize
  deriving DecidableEq, Repr

namespace Form

/-- ASCII letters, digits, underscores and dashes. -/
def isWordChar (c : Char) : Bool := c.isAlphanum || c == '_' || c == '-'

def isPathChar (c : Char) : Bool := isWordChar c || c == '\\' || c == '/' || c == '.'

def isNameStart (c : Char) : Bool := c.isAlpha || c == '_'

def isNameChar (c : Char) : Bool := c.isAlphanum || c == '_'

def maxFilterLength : Nat := 25

/-- What is read from the front of a text, and the text after it. -/
abbrev Scanned (α : Type) := Option (α × List Char)

/-- Scans the longest run of a character class and makes something of it. -/
def run {α : Type} (p : Char → Bool) (make : List Char → Option α) (cs : List Char) : Scanned α :=
  (make (cs.takeWhile p)).map fun a => (a, cs.dropWhile p)

/-- A run as it is, if it has a character. -/
def nonempty (cs : List Char) : Option (List Char) :=
  if cs = [] then none else some cs

/-- A run of the form `name.extension` with one of the given extensions. -/
def withExtension (extensions : List String) (cs : List Char) : Option (List Char) :=
  let fits (e : String) := ('.' :: e.toList).isSuffixOf cs && e.length + 1 < cs.length
  if extensions.any fits then some cs else none

/-- A run of nonempty segments. -/
def segmented (sep : Char) (cs : List Char) : Option (List Char) :=
  if (pieces sep cs).all (· != []) then some cs else none

/-- The words of a run that has one space after each, without the last space. -/
def spacedWords (cs : List Char) : Option (List Char) :=
  if cs.getLast? = some ' ' then segmented ' ' cs.dropLast else none

def filterName (cs : List Char) : Option (List Char) :=
  if cs.length ≤ maxFilterLength then some cs else none

/-- A name starts with a letter or underscore. -/
def nameText (cs : List Char) : Option (List Char) :=
  match cs with
  | c :: _ => if isNameStart c then some cs else none
  | [] => none

/-- The decimal places after a number's digits, with their point. -/
def fraction (cs : List Char) : List Char × List Char :=
  match cs with
  | '.' :: rest =>
    let ds := rest.takeWhile Char.isDigit
    if ds = [] then ([], cs) else ('.' :: ds, rest.dropWhile Char.isDigit)
  | _ => ([], cs)

/-- Digits with an optional fraction. -/
def unsigned (cs : List Char) : Scanned (List Char) :=
  match cs.takeWhile Char.isDigit with
  | [] => none
  | whole =>
    let (places, rest) := fraction (cs.dropWhile Char.isDigit)
    some (whole ++ places, rest)

/-- The text in quotes on one line, quotes included. -/
def quoted (cs : List Char) : Scanned (List Char) :=
  match cs.dropWhile fun c => c != '"' && c != '\n' with
  | '"' :: rest => some ('"' :: cs.takeWhile (fun c => c != '"' && c != '\n') ++ ['"'], rest)
  | _ => none

def operandText (cs : List Char) : Scanned (List Char) :=
  match cs with
  | '"' :: rest => quoted rest
  | '-' :: rest => (unsigned rest).map fun (ds, rest) => ('-' :: ds, rest)
  | c :: _ => if c.isDigit then unsigned cs else run isNameChar nameText cs
  | [] => none

def operand (cs : List Char) : Scanned Operand :=
  (operandText cs).map fun (t, rest) => (Operand.read (String.ofList t), rest)

/-- A name, an equals sign and an operand. -/
def declaration (cs : List Char) : Option (Directive × List Char) := do
  let (name, cs) ← run isNameChar nameText cs
  let cs ← strip? " = ".toList cs
  let (value, cs) ← operand cs
  some (.declare (String.ofList name) value, cs)

/-- An operand, perhaps compared with another. -/
def guard (cs : List Char) : Option (Guard × List Char) := do
  let (left, cs) ← operand cs
  match strip? " == ".toList cs, strip? " != ".toList cs with
  | some cs, _ => (operand cs).map fun (right, cs) => (.equal left right, cs)
  | none, some cs => (operand cs).map fun (right, cs) => (.differ left right, cs)
  | none, none => some (.holds left, cs)

/-- A dotted key, an exclamation mark and a filter name. -/
def settingBody (cs : List Char) : Option (Directive × List Char) := do
  let (key, cs) ← run (fun c => isWordChar c || c == '.') (segmented '.') cs
  let cs ← strip? ['!'] cs
  let (filter, cs) ← run isWordChar filterName cs
  some (.setting (String.ofList key) (String.ofList filter), cs)

/-- A directive made of one run of characters. -/
def single (p : Char → Bool) (check : List Char → Option (List Char)) (make : String → Directive)
    (cs : List Char) : Scanned Directive :=
  run p (fun r => (check r).map fun r => make (String.ofList r)) cs

def opening : Form → String
  | markupInclude => "[%= include "
  | escapedInclude => "[%= include_escaped "
  | stylesheetInclude => "/*= include "
  | scriptInclude => "[%= include \""
  | stylesheetUrl => "[%= stylesheet_url "
  | scriptUrl => "[%= script_url "
  | imageUrl => "[%= image_url "
  | imagePath => "[%= image_path \""
  | resourceUrl => "[%= resource_url "
  | setting => "[!"
  | declare => "[% set "
  | openBlock => "[% if "
  | elseBranch => "[% else"
  | closeBlock => "[% end"
  | display => "[%= "
  | localize => "[ "

/-- The closing of a form. The last word of a localized text brings its own space. -/
def closing : Form → String
  | stylesheetInclude => " */"
  | scriptInclude | imagePath => "\" %]"
  | setting | localize => "]"
  | _ => " %]"

/-- Scans what stands between opening and closing. -/
def body : Form → List Char → Scanned Directive
  | markupInclude => single isPathChar nonempty (.embed · false)
  | escapedInclude => single isPathChar nonempty (.embed · true)
  | stylesheetInclude =>
    single isPathChar (withExtension Kind.stylesheet.extensions) (.embed · false)
  | scriptInclude => single isPathChar (withExtension Kind.script.extensions) (.embed · false)
  | stylesheetUrl => single isPathChar (withExtension Kind.stylesheet.extensions) .stylesheetUrl
  | scriptUrl => single isPathChar (withExtension Kind.script.extensions) .scriptUrl
  | imageUrl => single isPathChar (withExtension Kind.image.extensions) .imageUrl
  | imagePath => single isPathChar (withExtension Kind.image.extensions) .imagePath
  | resourceUrl => single (fun c => isWordChar c || c == '/') (segmented '/') .resourceUrl
  | setting => settingBody
  | declare => declaration
  | openBlock => fun cs => (guard cs).map fun (g, cs) => (.openBlock g, cs)
  | elseBranch => fun cs => some (.elseBranch, cs)
  | closeBlock => fun cs => some (.closeBlock, cs)
  | display => single isNameChar nameText .display
  | localize => single (fun c => isWordChar c || c == '.' || c == ' ') spacedWords .localize

/-- Reads one directive of the form from the front of a text. -/
def read? (f : Form) (cs : List Char) : Option (Directive × List Char) := do
  let cs ← strip? f.opening.toList cs
  let (d, cs) ← f.body cs
  let cs ← strip? f.closing.toList cs
  some (d, cs)

/-- Forms for variables and blocks, which every text has. -/
def flowForms : List Form := [declare, openBlock, elseBranch, closeBlock, display]

/-- The forms of a kind's texts. Images have none. -/
def ofKind : Kind → List Form
  | .markup => [markupInclude, escapedInclude, stylesheetUrl, scriptUrl, imageUrl, resourceUrl,
      setting] ++ flowForms ++ [localize]
  | .stylesheet => [stylesheetInclude, imageUrl, imagePath, resourceUrl] ++ flowForms
  | .script => [scriptInclude, scriptUrl, imageUrl, resourceUrl, setting] ++ flowForms
  | .image => []

end Form

end AssetCompiler
