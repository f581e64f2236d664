import Wiring.Config.Environment
import Wiring.Json.Canonical
import Wiring.Json.Text
import Wiring.Registry.Plan
import Wiring.Registry.Session
import Wiring.Registry.Watcher
import Wiring.Sink.Directory
import Wiring.Sink.Memory
import Wiring.Proofs.Registry.FirstRegistration
import Wiring.Proofs.Registry.SingleFlight
import Wiring.Proofs.Registry.Termination
import Wiring.Proofs.Wired.Session
import Wiring.Proofs.Generation.Locality
import Wiring.Proofs.Registry.Refusal
import Wiring.Proofs.Registry.Completion
import Wiring.Proofs.Registry.MutualWait
import Wiring.Proofs.Registry.EntryStates
import Wiring.Proofs.Registry.Generations
import Wiring.Proofs.Registry.FailedCalls
import Wiring.Proofs.Registry.Accounting
import Wiring.Proofs.Registry.Silence
import Wiring.Proofs.Registry.Hearing
import Wiring.Proofs.Emission.Keeping
import Wiring.Proofs.Documents.RoundTrip
import Wiring.Proofs.Accessor.Words
import Wiring.Proofs.Emission.Protocol
import Wiring.Proofs.Accessor.Arguments
import Wiring.Proofs.Registry.Agreement
import Wiring.Proofs.Registry.RefusalToWait
import Wiring.Proofs.Registry.Contention
import Wiring.Proofs.Registry.Factories
import Wiring.Proofs.Registry.Guards
import Wiring.Proofs.Documents.Leniency
import Wiring.Proofs.Config.Environment
import Wiring.Proofs.Emission.Places
import Wiring.Proofs.Generation.Balance
