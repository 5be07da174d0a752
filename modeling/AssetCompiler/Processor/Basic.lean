import AssetCompiler.Config.Basic
import AssetCompiler.Files.Disk

/-! # Processors

A processor transforms the text of an asset in one step, or fails. It may depend on the calls
made before in the same build, and it may change files.
-/
namespace AssetCompiler

inductive ProcessorError where
  | file (fault : Fault)
  /-- The program of a step cannot be run. -/
  | notStarted (step : Step) (program reason : String)
  | failed (step : Step) (status diagnostics : String)
  deriving DecidableEq, Repr

def ProcessorError.message : ProcessorError → String
  | file fault => "IO error: " ++ fault.message
  | notStarted step program reason =>
    "failed to start `" ++ program ++ "` for " ++ step.label ++ ": " ++ reason
  | failed step status diagnostics =>
    step.label ++ " failed (" ++ status ++ "): " ++ diagnostics

structure Call where
  step : Step
  input : ByteArray
  deriving DecidableEq

/-- Transforms an input on a disk, given the earlier calls. -/
abbrev Processor := List Call → Step → ByteArray → Disk → Except ProcessorError ByteArray × Disk

/-- A processor that uses no files. -/
def Processor.ofFunction (f : List Call → Step → ByteArray → Except ProcessorError ByteArray) :
    Processor :=
  fun calls step input disk => (f calls step input, disk)

end AssetCompiler
