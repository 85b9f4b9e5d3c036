import Cumulus.Found.MachineInt
import Cumulus.Found.Run
import Cumulus.Found.BinarySearch
import Cumulus.Found.Storage
import Cumulus.Found.Interleave
import Cumulus.Found.SortedMap
import Cumulus.Found.HashChain
import Cumulus.Primitives.Core
import Cumulus.Primitives.Weight
import Cumulus.Primitives.Xcm
import Cumulus.Primitives.FixedU128
import Cumulus.XcmpQueue.Types
import Cumulus.XcmpQueue.Outbound
import Cumulus.XcmpQueue.OutboundInvariant
import Cumulus.XcmpQueue.OutboundTake
import Cumulus.XcmpQueue.Inbound
import Cumulus.XcmpQueue.InboundRecords
import Cumulus.XcmpQueue.InboundService
import Cumulus.DmpQueue.Model
import Cumulus.DmpQueue.Delivery
import Cumulus.BridgeMessages.Lanes
import Cumulus.BridgeMessages.Pallet
import Cumulus.BridgeMessages.Receive
import Cumulus.BridgeMessages.LaneInvariant
import Cumulus.BridgeMessages.Protocol
import Cumulus.BridgeMessages.LaneRuns
import Cumulus.BridgeMessages.Rewards
import Cumulus.ParachainSystem.Segment
import Cumulus.ParachainSystem.Bandwidth
import Cumulus.ParachainSystem.Pallet
import Cumulus.ParachainSystem.Finalize
import Cumulus.ParachainSystem.Block
import Cumulus.ParachainSystem.Inbound
import Cumulus.ParachainSystem.SegmentInvariant
import Cumulus.ParachainSystem.MessageChains
import Cumulus.Utility.AssetTrader
import Cumulus.CollatorSelection.Pallet
import Cumulus.CollatorSelection.Invariant
import Cumulus.CollatorSelection.Deposits
import Cumulus.AuraExt.ConsensusHook
import Cumulus.AuraExt.CanBuildUpon
import Cumulus.BridgeHubRouter.Pallet
import Cumulus.BridgeHubRouter.FeeFactor
import Cumulus.PovRecovery.Recovery
import Cumulus.PovRecovery.Stranded
import Cumulus.Found.Worklist
import Cumulus.ConsensusCommon.ParentSearch
import Cumulus.ConsensusCommon.ParentSearchSpec
import Cumulus.ConsensusCommon.LevelMonitor
import Cumulus.ConsensusCommon.LevelMonitorSpec
import Cumulus.BridgeParachains.Heads
import Cumulus.Found.HashRing
import Cumulus.BridgeParachains.Pallet
import Cumulus.HeaderChain.Justification
import Cumulus.HeaderChain.Verifiers
import Cumulus.HeaderChain.Ancestry
import Cumulus.HeaderChain.Loop
import Cumulus.HeaderChain.Strict
import Cumulus.HeaderChain.Optimizer
import Cumulus.HeaderChain.Equivocation
import Cumulus.BridgeGrandpa.Imports
import Cumulus.BridgeGrandpa.Runs
import Cumulus.BridgeRelayers.Calls
import Cumulus.BridgeRelayers.Registrations
import Cumulus.BridgeRelayers.Rewards
import Cumulus.BridgeGrandpa.CallExt
import Cumulus.BridgeParachains.CallExt
import Cumulus.BridgeMessages.CallExt
