import ArchivePlan.Text.Quoted
import ArchivePlan.Archive
import ArchivePlan.Files.Change
import ArchivePlan.Plan
import ArchivePlan.Sink.Gate
import ArchivePlan.Manifest.Encode
import ArchivePlan.Manifest.Load
import ArchivePlan.Proofs.Calls
import ArchivePlan.Proofs.Recording
import ArchivePlan.Proofs.TargetPath
import ArchivePlan.Proofs.AddedParents
import ArchivePlan.Proofs.LayerHistory
import ArchivePlan.Proofs.Coverage
import ArchivePlan.Proofs.Displacement
import ArchivePlan.Proofs.TwoPass
import ArchivePlan.Proofs.Filling
import ArchivePlan.Proofs.DeclarationOrder
import ArchivePlan.Proofs.FailurePolicy
import ArchivePlan.Proofs.EncodedText
import ArchivePlan.Proofs.DirectoryTree
import ArchivePlan.Proofs.CollectedItems
import ArchivePlan.Proofs.Following
import ArchivePlan.Proofs.Sources
import ArchivePlan.Proofs.Writing
import ArchivePlan.Proofs.AbsoluteSources
import ArchivePlan.Proofs.Requests
import ArchivePlan.Proofs.NestedLayers
import ArchivePlan.Proofs.ManifestPlans
import ArchivePlan.Proofs.DecodedFlags
import ArchivePlan.Proofs.WellFormed
import ArchivePlan.Proofs.CollectedPaths
import ArchivePlan.Proofs.OpenCollections
import ArchivePlan.Proofs.StandIns
import ArchivePlan.Proofs.Precedence
import ArchivePlan.Proofs.Refusals
import ArchivePlan.Proofs.GlobMatching
import ArchivePlan.Proofs.Subtrees
import ArchivePlan.Proofs.Numerals
import ArchivePlan.Proofs.WrittenForm
import ArchivePlan.Proofs.Accounts
import ArchivePlan.Proofs.ResolvedPaths
import ArchivePlan.Proofs.PiecewiseDigests
import ArchivePlan.Proofs.Snapshots
import ArchivePlan.Proofs.Spellings
import ArchivePlan.Proofs.CanonicalForm
import ArchivePlan.Proofs.RecordedSlots
import ArchivePlan.Proofs.HandOver
import ArchivePlan.Proofs.Interruptions
import ArchivePlan.Proofs.ComponentOrder
import ArchivePlan.Proofs.DeclarationFaults
import ArchivePlan.Proofs.OctalModes
import ArchivePlan.Proofs.CivilDates
import ArchivePlan.Proofs.WrittenInstants
