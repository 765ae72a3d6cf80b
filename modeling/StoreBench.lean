import StoreBench.Main
import StoreBench.Proofs.Command.Acceptance
import StoreBench.Proofs.Profile.Coverage
import StoreBench.Proofs.Replay.Contention
import StoreBench.Proofs.Replay.Populated
import StoreBench.Proofs.Replay.Protocol
import StoreBench.Proofs.Run.Parts
import StoreBench.Proofs.Run.Placement
import StoreBench.Proofs.Sample.Normalization
import StoreBench.Proofs.Store.Serializability
import StoreBench.Proofs.Workload.Faults
import StoreBench.Store.Interleaved
import StoreBench.Store.Recorded
import StoreBench.Store.Scripted
import StoreBench.Store.Session
import StoreBench.Proofs.Run.Balance
import StoreBench.Proofs.Run.FirstFault
import StoreBench.Proofs.Profile.Canonical
import StoreBench.Proofs.Profile.Shares
import StoreBench.Proofs.Json.Members
import StoreBench.Proofs.Json.Records
import StoreBench.Proofs.Profile.Rearranging
import StoreBench.Proofs.Workload.Seeds
import StoreBench.Proofs.Workload.Lengths
import StoreBench.Proofs.Workload.Resumption
import StoreBench.Proofs.Workload.Pools
import StoreBench.Proofs.Latency.Mean
import StoreBench.Proofs.Sample.Generation
import StoreBench.Proofs.Run.Cores
import StoreBench.Proofs.Latency.Baseline
import StoreBench.Proofs.Command.Saving
