import MediaIndex.Main
import MediaIndex.Proofs.LostBatches
import MediaIndex.Proofs.Isolation
import MediaIndex.Proofs.Rescan
import MediaIndex.Proofs.Repair
import MediaIndex.Proofs.Kinds
import MediaIndex.Proofs.Volumes
import MediaIndex.Proofs.Failures
import MediaIndex.Proofs.BatchEffects
import MediaIndex.Proofs.RecordIdentity
import MediaIndex.Proofs.CutRuns
import MediaIndex.Proofs.QueueLedger
import MediaIndex.Proofs.Lifecycle
import MediaIndex.Proofs.OutsideRows
import MediaIndex.Proofs.HiddenDirectories
import MediaIndex.Proofs.Manifests
import MediaIndex.Proofs.EntryStarts
import MediaIndex.Proofs.BatchSizes
import MediaIndex.Proofs.ReportAgreement
import MediaIndex.Proofs.RecordShapes
import MediaIndex.Proofs.StoredRows
import MediaIndex.Proofs.IndependentRoots
import MediaIndex.Proofs.Concert
import MediaIndex.Proofs.ConcertStages
import MediaIndex.Proofs.QuietTrees
import MediaIndex.Proofs.ConcurrentPasses
import MediaIndex.Proofs.VideoDates
import MediaIndex.Proofs.LocalFaults
import MediaIndex.Proofs.ExtractionContract
import MediaIndex.Proofs.PictureDates
import MediaIndex.Proofs.FileScans
import MediaIndex.Proofs.AudioFolders
import MediaIndex.Proofs.RunEndings
import MediaIndex.Proofs.PassAccounts
