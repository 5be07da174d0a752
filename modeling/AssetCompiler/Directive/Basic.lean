import AssetCompiler.Kind
import AssetCompiler.Text.Span
import AssetCompiler.Variable

/-! # Directives

A directive is an instruction written inside a markup, stylesheet or script text. Some are
answered from outside the text (includes, addresses, settings, localized texts); the others
bind variables and guard blocks of the text they stand in.
-/
namespace AssetCompiler

inductive Guard where
  | holds (operand : Operand)
  | equal (left right : Operand)
  | differ (left right : Operand)
  deriving Inhabited, Repr

/-- The guard's value under the bindings; undecided when an operand has no value. -/
def Guard.evaluate? (b : Bindings) : Guard → Option Bool
  | holds o => b.truth? o
  | equal l r => b.equals? l r
  | differ l r => (b.equals? l r).map not

inductive Directive where
  | embed (path : String) (escaped : Bool)
  | stylesheetUrl (path : String)
  | scriptUrl (path : String)
  | imageUrl (path : String)
  /-- A link to an image from the directory of the stylesheet that asks for it. -/
  | imagePath (path : String)
  | resourceUrl (key : String)
  | setting (key filter : String)
  | localize (key : String)
  | declare (name : String) (value : Operand)
  | display (name : String)
  | openBlock (guard : Guard)
  | elseBranch
  | closeBlock
  deriving Inhabited, Repr

/-- What a directive needs from another file. An include names a partial, an address names a
public file. -/
structure Reference where
  kind : Kind
  path : String
  isInclude : Bool
  deriving DecidableEq, Repr

namespace Directive

/-- The file a directive refers to; included files have the kind of the owner. -/
def reference? (owner : Kind) : Directive → Option Reference
  | embed path _ => some ⟨owner, path, true⟩
  | stylesheetUrl path => some ⟨.stylesheet, path, false⟩
  | scriptUrl path => some ⟨.script, path, false⟩
  | imageUrl path => some ⟨.image, path, false⟩
  | imagePath path => some ⟨.image, path, false⟩
  | _ => none

/-- Whether the directive is answered from outside the text. -/
def isLookup : Directive → Bool
  | declare .. | display _ | openBlock _ | elseBranch | closeBlock => false
  | _ => true

end Directive

/-- A directive at its place in a text, with the asset it depends on once that is known. -/
structure Occurrence where
  span : Text.Span
  directive : Directive
  dependency? : Option Nat := none
  deriving Inhabited, Repr

end AssetCompiler
