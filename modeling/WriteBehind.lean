import WriteBehind.Report
import WriteBehind.Sample
import WriteBehind.Proofs.Replay
import WriteBehind.Proofs.StoredForm
import WriteBehind.Proofs.Merging
import WriteBehind.Proofs.Coalescing
import WriteBehind.Proofs.OpenedBatches
import WriteBehind.Proofs.WorkerSession
import WriteBehind.Proofs.DurableSyncs
import WriteBehind.Proofs.Overtaking
import WriteBehind.Proofs.Delivery
import WriteBehind.Proofs.SubmissionOrder
import WriteBehind.Proofs.Commits
import WriteBehind.Proofs.Ledger
import WriteBehind.Proofs.TableWrites
import WriteBehind.Proofs.Sharding
import WriteBehind.Proofs.TableAgreement
import WriteBehind.Proofs.Journals
import WriteBehind.Proofs.Depot
import WriteBehind.Proofs.CrashRecovery
import WriteBehind.Proofs.AbandonedBatches
import WriteBehind.Proofs.LedgerSteps
import WriteBehind.Proofs.Standing
import WriteBehind.Proofs.LedgerCommits
import WriteBehind.Proofs.SaverSteps
import WriteBehind.Proofs.ScopeUpkeep
import WriteBehind.Proofs.ScopeWorkers
import WriteBehind.Proofs.OtherSources
import WriteBehind.Proofs.CacheUpkeep
import WriteBehind.Proofs.StoredRecords
import WriteBehind.Proofs.Freight
import WriteBehind.Proofs.RowKeys
import WriteBehind.Proofs.Fetches
import WriteBehind.Proofs.CacheRequests
import WriteBehind.Proofs.Roster
import WriteBehind.Proofs.Guarding
import WriteBehind.Proofs.GuardedRequests
import WriteBehind.Proofs.Removals
import WriteBehind.Proofs.Evictions
import WriteBehind.Proofs.Seating
import WriteBehind.Proofs.IdentityMap
import WriteBehind.Proofs.PlainRepo
import WriteBehind.Proofs.SentSnapshots
import WriteBehind.Proofs.Installation
import WriteBehind.Proofs.Neighbours
import WriteBehind.Proofs.RecordLives
import WriteBehind.Proofs.LoadableRows
import WriteBehind.Proofs.Callbacks
import WriteBehind.Proofs.DryScopes
import WriteBehind.Proofs.PinnedKeys
import WriteBehind.Proofs.DryRuns
import WriteBehind.Proofs.DrySetups
import WriteBehind.Proofs.Retrying
import WriteBehind.Proofs.RepeatedWrites
import WriteBehind.Proofs.SlotHistory
import WriteBehind.Proofs.ExpiredHandles
import WriteBehind.Proofs.JointFetches
import WriteBehind.Proofs.Intakes
import WriteBehind.Proofs.SetupPhases
import WriteBehind.Proofs.Updates
import WriteBehind.Proofs.BatchSignals
import WriteBehind.Proofs.CalledBatches
import WriteBehind.Proofs.FieldSets
import WriteBehind.Proofs.IntegerKeys
import WriteBehind.Proofs.Attempts
