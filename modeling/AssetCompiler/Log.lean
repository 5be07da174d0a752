/-! # Log lines -/
namespace AssetCompiler

inductive Level where
  | info
  | warn
  | error
  deriving DecidableEq, Repr

def Level.label : Level → String
  | info => "INFO"
  | warn => "WARN"
  | error => "ERROR"

structure LogLine where
  level : Level
  text : String
  deriving DecidableEq, Repr

def LogLine.info (text : String) : LogLine := ⟨.info, text⟩

def LogLine.warn (text : String) : LogLine := ⟨.warn, text⟩

def LogLine.error (text : String) : LogLine := ⟨.error, text⟩

end AssetCompiler
