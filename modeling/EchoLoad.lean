import EchoLoad.Main
import EchoLoad.Proofs.Closing
import EchoLoad.Proofs.Connections
import EchoLoad.Proofs.Counters
import EchoLoad.Proofs.Crew
import EchoLoad.Proofs.Deadline
import EchoLoad.Proofs.Delivery
import EchoLoad.Proofs.EchoLoop
import EchoLoad.Proofs.Failures
import EchoLoad.Proofs.Fidelity
import EchoLoad.Proofs.FileHistory
import EchoLoad.Proofs.FirstFailure
import EchoLoad.Proofs.Generation
import EchoLoad.Proofs.Grammar
import EchoLoad.Proofs.Lifecycle
import EchoLoad.Proofs.Outcome
import EchoLoad.Proofs.Placement
import EchoLoad.Proofs.Precedence
import EchoLoad.Proofs.Samples
import EchoLoad.Proofs.SharedFlag
import EchoLoad.Proofs.Solo
import EchoLoad.Proofs.Summary
import EchoLoad.Proofs.Verdict
import EchoLoad.Proofs.Workload.Barrier
import EchoLoad.Proofs.Workload.Draws
import EchoLoad.Proofs.Workload.Establishing
import EchoLoad.Proofs.Workload.EveryPhase
import EchoLoad.Proofs.Workload.Figures
import EchoLoad.Proofs.Workload.FixedRounds
import EchoLoad.Proofs.Workload.Interrupted
import EchoLoad.Proofs.Workload.NoHang
import EchoLoad.Proofs.Workload.OnWire
import EchoLoad.Proofs.Workload.PoolFailure
import EchoLoad.Proofs.Workload.Quotas
import EchoLoad.Proofs.Workload.Shape
import EchoLoad.Proofs.Workload.TooLarge
