import TxGen.Abi.Literals
import TxGen.BlockAccess.Merged
import TxGen.CallReplay.Recorder
import TxGen.Composition.InstanceOrder
import TxGen.Core.Overlay
import TxGen.Core.SetupOrder
import TxGen.Generate.Materialize
import TxGen.Generate.Ordering
import TxGen.Generate.Selector
import TxGen.Generate.Signing
import TxGen.LogWait.HubServed
import TxGen.Metrics.Exposition
import TxGen.Metrics.Filtered
import TxGen.Metrics.Series
import TxGen.Metrics.Uploaded
import TxGen.ReceiptTracker.Verdicts
import TxGen.Receipts.Arrival
import TxGen.RpcOrdering.Wakeup
import TxGen.Scenario.AbiTypeRoundTrip
import TxGen.Scenario.EventFilters
import TxGen.Scenario.InstanceOutcomes
import TxGen.Scenario.InstanceRun
import TxGen.Scenario.InstanceSeed
import TxGen.Scenario.LeaseSafety
import TxGen.Scenario.NonceSafety
import TxGen.Scenario.Soundness
import TxGen.Send.Boundaries
import TxGen.SendBlocks.Extraction
import TxGen.SendBlocks.Replay
import TxGen.Sender.Drain
import TxGen.Sender.RateBudget
import TxGen.Sender.SetupFailure
import TxGen.Tempo.Generation
import TxGen.Tempo.InlineRuns
import TxGen.Tempo.PreparedLane
