import CocoHarness.SessionLog.RepairAdmission
import CocoHarness.Persistence.WriteBehindInvariant
import CocoHarness.Persistence.PreparationsSafety
import CocoHarness.Projection.Restore
import CocoHarness.Agent.DriverBoundaries
import CocoHarness.Agent.DriverDebts
import CocoHarness.Agent.DriverWakes
import CocoHarness.Compaction.TransactionExclusion
import CocoHarness.OutputRetention.TextWindows
import CocoHarness.Scope.Overlays
import CocoHarness.Client.WindowDelivery
import CocoHarness.Client.WindowPaging
import CocoHarness.Client.PendingRequests
import CocoHarness.Subagent.Drains
import CocoHarness.Storage.Domain
import CocoHarness.Terminal.SendSlot
import CocoHarness.TokenMeter.Coverage
import CocoHarness.SessionTitle.Pinned
import CocoHarness.Goal.Agreement
import CocoHarness.Goal.History
import CocoHarness.Persistence.Segment
import CocoHarness.SessionLog.ChunkRowsImage
import CocoHarness.Persistence.ZstdFrameScan
import CocoHarness.Persistence.DamagedLog
import CocoHarness.Composer.Outlets
import CocoHarness.Agent.RuntimeContext
import CocoHarness.Schedule.LocalInstant
import CocoHarness.Schedule.FoldRuns
import CocoHarness.Compaction.PruneRules
import CocoHarness.SessionLog.Fork
import CocoHarness.Tools.ValidatorRuns
import CocoHarness.Persistence.ReadFrom
import CocoHarness.Files.ReadContinuation
import CocoHarness.Client.ProjectionStore
import CocoHarness.Client.PartialAccumulator
import CocoHarness.SessionQuery.Snippet
import CocoHarness.SessionQuery.Lineage
import CocoHarness.Tools.ResultRenderer
import CocoHarness.Client.OrderedBaseline
import CocoHarness.Settings.Redact
import CocoHarness.Subagent.Descendants
import CocoHarness.Settings.PathEdits
import CocoHarness.Settings.StoredRevision
import CocoHarness.Lsp.Framing
