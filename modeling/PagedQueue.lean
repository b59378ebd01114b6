import PagedQueue.Main
import PagedQueue.Proofs.FlatFile
import PagedQueue.Proofs.CrashAtomicity
import PagedQueue.Proofs.ExclusiveClients
import PagedQueue.Proofs.StatusFailures
import PagedQueue.Proofs.PushStages
import PagedQueue.Proofs.FailedPushes
import PagedQueue.Proofs.RecordHistory
import PagedQueue.Proofs.AcceptedPushes
import PagedQueue.Proofs.LogStages
import PagedQueue.Proofs.SharedLog
import PagedQueue.Proofs.PageStages
import PagedQueue.Proofs.StoredStatuses
import PagedQueue.Proofs.IndexAgreement
import PagedQueue.Proofs.RecoveredPayloads
import PagedQueue.Proofs.UniqueMessages
import PagedQueue.Proofs.StrandedMessages
import PagedQueue.Proofs.ClosedPages
import PagedQueue.Proofs.ReadOnlyRecovery
import PagedQueue.Proofs.CommandHistory
import PagedQueue.Proofs.PageCourse
import PagedQueue.Proofs.PageUsers
import PagedQueue.Proofs.ForcedChanges
import PagedQueue.Proofs.FailedRecovery
import PagedQueue.Proofs.PageTickets
import PagedQueue.Proofs.PageAges
import PagedQueue.Proofs.FileLengths
import PagedQueue.Proofs.OldPages
import PagedQueue.Proofs.FreshStart
import PagedQueue.Proofs.PairedQueues
import PagedQueue.Proofs.PairedOpening
import PagedQueue.Proofs.IdleQueues
import PagedQueue.Proofs.NewestPages
import PagedQueue.Proofs.FoundPages
import PagedQueue.Proofs.RecordBytes
