import ConfigLog.Config.Binding
import ConfigLog.Proofs.Config.Chains
import ConfigLog.Proofs.Config.Convergence
import ConfigLog.Proofs.Config.Gapless
import ConfigLog.Proofs.Config.Law
import ConfigLog.Proofs.Config.Loading
import ConfigLog.Proofs.Config.Registration
import ConfigLog.Proofs.Config.Reloading
import ConfigLog.Proofs.Logging.Atomicity
import ConfigLog.Proofs.Logging.Canonical
import ConfigLog.Proofs.Logging.Composition
import ConfigLog.Proofs.Logging.Fanout
import ConfigLog.Proofs.Logging.Grammar
import ConfigLog.Proofs.Logging.Normal
import ConfigLog.Proofs.Logging.Ownership
import ConfigLog.Proofs.Logging.Printing
import ConfigLog.Proofs.Logging.Recovery
import ConfigLog.Proofs.Logging.Rotation
import ConfigLog.Proofs.Value.Integers
import ConfigLog.Proofs.Watch.Attempts
import ConfigLog.Proofs.Logging.Patch
import ConfigLog.Proofs.Logging.Routing
import ConfigLog.Proofs.Config.Completeness
import ConfigLog.Proofs.Logging.Silence
import ConfigLog.Proofs.Config.Leaves
import ConfigLog.Proofs.Value.Containers
import ConfigLog.Proofs.Logging.Permanence
import ConfigLog.Proofs.Config.Permanence
