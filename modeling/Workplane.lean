import Workplane.Background.Backup
import Workplane.Background.Lifecycle
import Workplane.Background.Routine
import Workplane.Background.Tasks
import Workplane.Capacity.Quota
import Workplane.Capacity.Requirement
import Workplane.Capacity.Resources
import Workplane.Capacity.Shape
import Workplane.CommandLine.Options
import Workplane.Decimal.Layout
import Workplane.Decimal.Numeral
import Workplane.Decimal.Shortest
import Workplane.Deployment.Basic
import Workplane.Deployment.Patch
import Workplane.Digest.Sha256
import Workplane.Http.Api
import Workplane.Http.Message
import Workplane.Http.Resource
import Workplane.Invalid
import Workplane.Json.Basic
import Workplane.Json.Parser
import Workplane.Json.Printer
import Workplane.Json.Reader
import Workplane.Main
import Workplane.Name
import Workplane.Photon
import Workplane.Proofs.Background.BackupFirst
import Workplane.Proofs.Background.Budget
import Workplane.Proofs.Background.Convergence
import Workplane.Proofs.Background.Isolation
import Workplane.Proofs.Background.Progress
import Workplane.Proofs.Background.ScaleDown
import Workplane.Proofs.Background.Schedule
import Workplane.Proofs.Background.Terminated
import Workplane.Proofs.Background.Timeline
import Workplane.Proofs.Capacity.Admission
import Workplane.Proofs.Capacity.Patched
import Workplane.Proofs.Capacity.Shown
import Workplane.Proofs.Decimal.Digits
import Workplane.Proofs.Decimal.Distinct
import Workplane.Proofs.Decimal.Doubles
import Workplane.Proofs.Decimal.Rounding
import Workplane.Proofs.Decimal.Shortest
import Workplane.Proofs.Decimal.Signs
import Workplane.Proofs.Decimal.Stored
import Workplane.Proofs.Deployments.Creation
import Workplane.Proofs.Deployments.LostUpdate
import Workplane.Proofs.Deployments.Patching
import Workplane.Proofs.Deployments.QuotaLaw
import Workplane.Proofs.Deployments.Successive
import Workplane.Proofs.Deployments.Writer
import Workplane.Proofs.Http.Atomic
import Workplane.Proofs.Http.Requests
import Workplane.Proofs.Http.Undisturbed
import Workplane.Proofs.Json.Depth
import Workplane.Proofs.Json.Distinct
import Workplane.Proofs.Json.Numbers
import Workplane.Proofs.Json.Range
import Workplane.Proofs.Json.Rereading
import Workplane.Proofs.Json.Text
import Workplane.Proofs.KeyStore.Histories
import Workplane.Proofs.KeyStore.Listing
import Workplane.Proofs.KeyStore.Revisions
import Workplane.Proofs.Names.Grammar
import Workplane.Proofs.Names.Identifiers
import Workplane.Proofs.Objects.Deployments
import Workplane.Proofs.Objects.Lossless
import Workplane.Proofs.Objects.PhotonIds
import Workplane.Proofs.Objects.Photons
import Workplane.Proofs.Objects.Quotas
import Workplane.Proofs.Objects.Records
import Workplane.Proofs.Objects.Replicas
import Workplane.Proofs.Program.Alone
import Workplane.Proofs.Program.Endings
import Workplane.Proofs.Program.Environment
import Workplane.Proofs.Program.Interleaving
import Workplane.Proofs.Program.Moves
import Workplane.Proofs.Program.Operations
import Workplane.Proofs.Program.Processes
import Workplane.Proofs.Program.Undisturbed
import Workplane.Proofs.Replica.Latest
import Workplane.Proofs.Replica.Masking
import Workplane.Proofs.Replica.Procedure
import Workplane.Proofs.Replica.Reordering
import Workplane.Proofs.Replica.Terminations
import Workplane.Proofs.Secrecy.Answers
import Workplane.Proofs.Secrecy.Services
import Workplane.Proofs.Secrecy.Stores
import Workplane.Proofs.Secrecy.Twins
import Workplane.Proofs.Service.Reports
import Workplane.Proofs.Service.Undisturbed
import Workplane.Proofs.Service.Upserts
import Workplane.Proofs.Simulation.Concurrency
import Workplane.Proofs.Simulation.Timelines
import Workplane.Proofs.Simulation.Worlds
import Workplane.Proofs.Sorted
import Workplane.Proofs.Storage.Additions
import Workplane.Proofs.Storage.FileBlobs
import Workplane.Proofs.Storage.FileMap
import Workplane.Proofs.Storage.FileTrees
import Workplane.Proofs.Storage.Interleavings
import Workplane.Proofs.Storage.ObjectMaps
import Workplane.Proofs.Storage.PutSteps
import Workplane.Proofs.Storage.Restore
import Workplane.Proofs.Storage.Snapshots
import Workplane.Proofs.Text.ByteOrder
import Workplane.Proofs.Time.Moments
import Workplane.Proofs.Time.Readings
import Workplane.Proofs.Workspace.Addressed
import Workplane.Proofs.Workspace.Admitted
import Workplane.Proofs.Workspace.Frozen
import Workplane.Proofs.Workspace.Integrity
import Workplane.Proofs.Workspace.Recovery
import Workplane.Proofs.Workspace.Services
import Workplane.Proofs.Workspace.Session
import Workplane.Proofs.Workspace.Stored
import Workplane.Proofs.Workspace.Undoing
import Workplane.Replica.Address
import Workplane.Replica.Condition
import Workplane.Replica.Container
import Workplane.Replica.ExitCode
import Workplane.Replica.Pod
import Workplane.Replica.Readiness
import Workplane.Secret
import Workplane.Service.Basic
import Workplane.Service.Deployments
import Workplane.Service.Diagnosis
import Workplane.Service.Error
import Workplane.Service.Photons
import Workplane.Service.Secrets
import Workplane.Simulation.Fault
import Workplane.Simulation.World
import Workplane.Sorted
import Workplane.Storage.BlobMap
import Workplane.Storage.Error
import Workplane.Storage.FileBlobs
import Workplane.Storage.FileTree
import Workplane.Storage.KeyStore
import Workplane.Storage.Kind
import Workplane.Storage.Program
import Workplane.Storage.Repository
import Workplane.Storage.Snapshot
import Workplane.Text.Blank
import Workplane.Text.Hex
import Workplane.Text.Parts
import Workplane.Text.Symbols
import Workplane.Text.WordClass
import Workplane.Text.WordTable
import Workplane.Time.Duration
import Workplane.Time.Timestamp
import Workplane.Workspace.Config
import Workplane.Workspace.State
