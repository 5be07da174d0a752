import AssetCompiler.AppConfig.Includes
import AssetCompiler.Digest
import AssetCompiler.Processor.Runner

/-! # What a build works with

Besides files, a build works with a configuration, the settings that texts look up, a
processor, and a digest and fingerprints of contents.
-/
namespace AssetCompiler

structure Context where
  config : Config
  settings : AppConfig := {}
  processor : Processor
  digest : ByteArray → String := Digest.ofBytes
  /-- The fingerprint of a content. Each draw gives another one: the first argument is the
  number of earlier draws. -/
  fingerprint : Nat → ByteArray → String

namespace Context

/-- The number of hexadecimal digits of a fingerprint. -/
def fingerprintLength : Nat := 10

/-- The start of the digest of a content with a salt behind it. -/
def saltedFingerprint (salt : Nat → ByteArray) (draw : Nat) (bytes : ByteArray) : String :=
  String.ofList ((Digest.ofBytes (bytes ++ salt draw)).toList.take fingerprintLength)

/-- Sixteen octets that tell a draw from any other. -/
def drawNumber (draw : Nat) : ByteArray := ⟨(Digest.octets 16 draw).toArray⟩

/-- The context of a configuration: settings are loaded from its directory, processors are
its command lines. -/
def load (files : Tree) (c : Config) (salt : Nat → ByteArray) : Except AppConfigError Context := do
  let settings ← match c.appConfig with
    | some dir => AppConfig.load files dir
    | none => .ok {}
  .ok {
    config := c
    settings
    processor := c.commands.processor
    fingerprint := saltedFingerprint salt }

end Context

end AssetCompiler
