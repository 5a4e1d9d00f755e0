import ClearMsig.Proofs.ExpiryProofs
import ClearMsig.Proofs.QuorumProofs
import ClearMsig.Proofs.IsolationProofs
import ClearMsig.Proofs.ReplayProofs
import ClearMsig.Proofs.FrozenProofs
import ClearMsig.Proofs.ExactCounterProofs
import ClearMsig.Proofs.StatusProofs
import ClearMsig.Proofs.EmissionProofs
import ClearMsig.Proofs.ParametersProofs
import ClearMsig.Proofs.SeparationProofs
import ClearMsig.Proofs.TimelockProofs
import ClearMsig.Proofs.SingleUseProofs
import ClearMsig.Proofs.AtMostOnceProofs
import ClearMsig.Proofs.WellFormedProofs
import ClearMsig.Proofs.InstallationProofs
import ClearMsig.Proofs.DeterminismProofs
import ClearMsig.Proofs.ClientProofs
import ClearMsig.Proofs.ConformanceProofs
import ClearMsig.Proofs.RemovalProofs
import ClearMsig.Proofs.ClosingProofs
import ClearMsig.Proofs.DensityProofs
import ClearMsig.Proofs.ConfigurationProofs
import ClearMsig.Utils.Proofs.Base58BufferProofs
import ClearMsig.Utils.Proofs.TimestampProofs
import ClearMsig.State.Proofs.ParamsProofs
import ClearMsig.Proofs.ConstraintProofs
import ClearMsig.Proofs.LayoutProofs
import ClearMsig.Utils.Proofs.SubstitutionProofs
import ClearMsig.Proofs.ResolutionProofs
import ClearMsig.Proofs.AssemblyProofs
import ClearMsig.Utils.Proofs.NumeralsProofs
import ClearMsig.Instructions.Proofs.CustomMemoryProofs
import ClearMsig.Proofs.MetasProofs
import ClearMsig.Proofs.ReorderingProofs
import ClearMsig.Proofs.NoninterferenceProofs
import ClearMsig.Proofs.SilenceProofs
import ClearMsig.Proofs.RentProofs
import ClearMsig.Proofs.FlowProofs
import ClearMsig.Proofs.FoundersProofs
import ClearMsig.Proofs.RequestsProofs
import ClearMsig.Proofs.SettlementProofs
