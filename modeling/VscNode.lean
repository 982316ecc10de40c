import VscNode.BlockProducer.Equivocation
import VscNode.BlockProducer.GovernancePool
import VscNode.Chain.Schedule
import VscNode.Common.AmountText
import VscNode.Contract.Allowance
import VscNode.Contract.SessionRuns
import VscNode.Contract.Versions
import VscNode.ElectionProposer.Anchor
import VscNode.ElectionProposer.BondMaturity
import VscNode.Gateway.ActionBatch
import VscNode.Governance.Treasury
import VscNode.Ledger.BurnSchedule
import VscNode.Ledger.Conservation
import VscNode.Ledger.DelegationPool
import VscNode.Ledger.ReverseCredits
import VscNode.Ledger.SlashBound
import VscNode.Ledger.SlashReplay
import VscNode.Ledger.UnstakeRetry
import VscNode.Oracle.Finality
import VscNode.Oracle.Reorg
import VscNode.Pendulum.FeeCurves
import VscNode.Pendulum.Payments
import VscNode.Pendulum.Rewards
import VscNode.Pendulum.TrustedPrice
import VscNode.StateEngine.Authority
import VscNode.StateEngine.BlockIngest
import VscNode.StateEngine.CreditReturn
import VscNode.StateEngine.EventIds
import VscNode.StateEngine.SeatAdmission
import VscNode.StateEngine.ShareHold
import VscNode.StateEngine.VersionProposals
import VscNode.StateEngine.WitnessRecords
import VscNode.Tss.CollectSigs
import VscNode.Tss.KeySlots
import VscNode.Tss.ReshareWindow
import VscNode.Tss.SessionBuffer
