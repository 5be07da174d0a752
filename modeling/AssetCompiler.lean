import AssetCompiler.Main
import AssetCompiler.Proofs.Asset.Collection
import AssetCompiler.Proofs.Asset.References
import AssetCompiler.Proofs.Build.Cascade
import AssetCompiler.Proofs.Build.Idle
import AssetCompiler.Proofs.Directive.Document
import AssetCompiler.Proofs.Directive.Spans
import AssetCompiler.Proofs.Directive.Structure
import AssetCompiler.Proofs.Asset.Sharing
import AssetCompiler.Proofs.Build.Intact
import AssetCompiler.Proofs.Directive.Deferral
import AssetCompiler.Proofs.Directive.Finish
import AssetCompiler.Proofs.Schedule.Cycle
import AssetCompiler.Proofs.Schedule.Height
import AssetCompiler.Proofs.Build.Current
import AssetCompiler.Proofs.Build.Preview
import AssetCompiler.Proofs.Build.Recorded
import AssetCompiler.Proofs.Build.Untouched
import AssetCompiler.Proofs.Build.Covered
import AssetCompiler.Proofs.Build.Accounted
import AssetCompiler.Proofs.Build.Contained
import AssetCompiler.Proofs.Directive.Tokens
import AssetCompiler.Proofs.Asset.Address
import AssetCompiler.Proofs.Build.Confined
import AssetCompiler.Proofs.Build.Links
import AssetCompiler.Proofs.Build.Foreseen
import AssetCompiler.Proofs.Build.Rebuilt
import AssetCompiler.Proofs.Build.Separate
import AssetCompiler.Proofs.Build.Stalled
import AssetCompiler.Proofs.AppConfig.Contribution
import AssetCompiler.Proofs.AppConfig.Loading
import AssetCompiler.Proofs.Cache.Use
import AssetCompiler.Proofs.Cache.Index
import AssetCompiler.Proofs.Directive.Placement
import AssetCompiler.Proofs.Directive.Verbatim
import AssetCompiler.Proofs.Asset.Edges
import AssetCompiler.Proofs.Variable.Chains
import AssetCompiler.Proofs.Toml.Merge
import AssetCompiler.Proofs.Build.Destination
import AssetCompiler.Proofs.Listing
import AssetCompiler.Proofs.Path.Reference
import AssetCompiler.Proofs.Path.Fingerprints
import AssetCompiler.Proofs.Config.Overlay
import AssetCompiler.Proofs.Asset.Insertion
import AssetCompiler.Proofs.Build.PublicUrl
