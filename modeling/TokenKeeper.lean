import TokenKeeper.Bench.Runs
import TokenKeeper.Main
import TokenKeeper.Shown
import TokenKeeper.Proofs.Base64
import TokenKeeper.Proofs.Calendar
import TokenKeeper.Proofs.Dict
import TokenKeeper.Proofs.Digits
import TokenKeeper.Proofs.Sealing
import TokenKeeper.Proofs.Timestamp
import TokenKeeper.Proofs.RelatedRuns
import TokenKeeper.Proofs.Client.Backends
import TokenKeeper.Proofs.Client.Registration
import TokenKeeper.Proofs.Client.RefreshTokens
import TokenKeeper.Proofs.Store.Loads
import TokenKeeper.Proofs.Store.Programs
import TokenKeeper.Proofs.Store.Saves
import TokenKeeper.Proofs.Json.Pretty
import TokenKeeper.Proofs.Store.Reopening
import TokenKeeper.Proofs.Instants
import TokenKeeper.Proofs.Store.Outcomes
import TokenKeeper.Proofs.Client.Grants
import TokenKeeper.Proofs.Client.AccessTokens
import TokenKeeper.Proofs.Client.Decoration
import TokenKeeper.Proofs.Store.Resealing
import TokenKeeper.Proofs.Store.Secrecy
import TokenKeeper.Proofs.Client.Modes
import TokenKeeper.Proofs.Client.Counters
import TokenKeeper.Proofs.Client.ListedLocks
import TokenKeeper.Proofs.RestrictedLocks
import TokenKeeper.Proofs.Store.Cells
import TokenKeeper.Proofs.PairedSteps
import TokenKeeper.Proofs.Callers
import TokenKeeper.Proofs.Client.Isolation
import TokenKeeper.Proofs.Json.Rows
import TokenKeeper.Proofs.Store.UpsertedRows
import TokenKeeper.Proofs.Store.Reclaim
import TokenKeeper.Proofs.Json.Merged
import TokenKeeper.Proofs.Store.Fields
import TokenKeeper.Proofs.FileWrites
import TokenKeeper.Proofs.Store.Atomic
import TokenKeeper.Proofs.Config.Opening
import TokenKeeper.Proofs.Config.Protection
import TokenKeeper.Proofs.Blobs
import TokenKeeper.Proofs.Lifetimes
import TokenKeeper.Proofs.CommandLine.Status
import TokenKeeper.Proofs.Encodings
