import HomelabMcp.Lib.KeyedList
import HomelabMcp.Lib.Utf8
import HomelabMcp.Lib.SlashPath
import HomelabMcp.Lib.SortKey
import HomelabMcp.Lib.BottomUp
import HomelabMcp.Lib.PrunedDiff
import HomelabMcp.Lib.Text
import HomelabMcp.Lib.Effect
import HomelabMcp.Integrity.Folding
import HomelabMcp.Integrity.NodeStore
import HomelabMcp.Integrity.Transport
import HomelabMcp.Integrity.Merkle
import HomelabMcp.Integrity.Tree
import HomelabMcp.Integrity.ForestShape
import HomelabMcp.Integrity.Forest
import HomelabMcp.Integrity.Diff
import HomelabMcp.Integrity.AcceptPolicy
import HomelabMcp.Integrity.Engine
import HomelabMcp.Integrity.ExactTree
import HomelabMcp.Integrity.Passes
import HomelabMcp.Integrity.VerifyFrame
import HomelabMcp.Integrity.AcceptTruth
import HomelabMcp.Integrity.Fold
import HomelabMcp.Integrity.Report
import HomelabMcp.Integrity.AutoAccept
import HomelabMcp.Integrity.ConfigFence
import HomelabMcp.Integrity.MtimeFolds
import HomelabMcp.Integrity.FoldMerkle
import HomelabMcp.Integrity.Baseline
import HomelabMcp.Integrity.DiffComplete
import HomelabMcp.Backup.Eviction
import HomelabMcp.Backup.Managed
import HomelabMcp.Backup.ReverseDiff
import HomelabMcp.Backup.MinimalDiff
import HomelabMcp.Backup.TargetKeys
import HomelabMcp.Backup.Revertible
import HomelabMcp.Integrity.ForestDetermined
import HomelabMcp.Integrity.FrozenGuests
import HomelabMcp.Guardrails.RollbackBreaker
import HomelabMcp.Guardrails.PathPolicy
import HomelabMcp.Guardrails.Tiers
import HomelabMcp.Trust.RecordedKeys
import HomelabMcp.Census.HonestDrift
import HomelabMcp.Guests.SnapshotRetention
import HomelabMcp.Guests.BackupRetention
import HomelabMcp.Guests.NamedSnapshots
import HomelabMcp.Tools.RevertFile
import HomelabMcp.Tools.UnifiedDiff
import HomelabMcp.Tools.Quoting
import HomelabMcp.Tools.EditString
import HomelabMcp.Tools.RollbackTrail
import HomelabMcp.Docker.HealthGate
import HomelabMcp.Docker.UpdateAudit
import HomelabMcp.Docker.BindMounts
import HomelabMcp.Docker.HeldImages
import HomelabMcp.Docker.ProviderChange
import HomelabMcp.Docker.ImageIdentity
import HomelabMcp.Docker.ListenerOrder
import HomelabMcp.Audit.AuditDb
import HomelabMcp.Audit.ProjectDiff
import HomelabMcp.History.Paths
import HomelabMcp.History.SweepPlanner
import HomelabMcp.History.SweepForgets
import HomelabMcp.History.SweepConverges
import HomelabMcp.Lib.FileTree
import HomelabMcp.Tools.Undo
import HomelabMcp.Tools.ScreenedExec
import HomelabMcp.Tools.UnmarkedFiles
import HomelabMcp.Tools.Landing
import HomelabMcp.Tools.Temps
import HomelabMcp.Tools.DockerRestart
import HomelabMcp.Tools.ComposeRedeploy
