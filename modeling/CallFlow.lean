import CallFlow.Main
import CallFlow.Proofs.Atomicity
import CallFlow.Proofs.Blame
import CallFlow.Proofs.Bodies
import CallFlow.Proofs.CallTree
import CallFlow.Proofs.Conformance
import CallFlow.Proofs.ControlPath
import CallFlow.Proofs.Downstream
import CallFlow.Proofs.Engines
import CallFlow.Proofs.Exhaustion
import CallFlow.Proofs.Exports
import CallFlow.Proofs.FailedSaves
import CallFlow.Proofs.Imports
import CallFlow.Proofs.LoopMap
import CallFlow.Proofs.LooseEnds
import CallFlow.Proofs.Merge
import CallFlow.Proofs.Methods
import CallFlow.Proofs.Phi
import CallFlow.Proofs.PlainJson
import CallFlow.Proofs.Preparation
import CallFlow.Proofs.Ranges
import CallFlow.Proofs.Reload
import CallFlow.Proofs.Resolutions
import CallFlow.Proofs.Seeding
import CallFlow.Proofs.Stores
import CallFlow.Proofs.Structure
import CallFlow.Proofs.Templates
import CallFlow.Proofs.Transparency
import CallFlow.Proofs.UsedCalls
import CallFlow.Store.Memory
