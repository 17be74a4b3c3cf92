import Polling.Acceptor.Web
import Polling.Scenario.Alarm
import Polling.Scenario.Assembly
import Polling.Scenario.LoopRehearsal
import Polling.Scenario.Predicate
import Polling.Scenario.Table
import Polling.Proofs.Agreement
import Polling.Proofs.Causes
import Polling.Proofs.Cleanup
import Polling.Proofs.Dominance
import Polling.Proofs.Escape
import Polling.Proofs.Exhaustion
import Polling.Proofs.Gathering
import Polling.Proofs.Interchange
import Polling.Proofs.Interference
import Polling.Proofs.Interruption
import Polling.Proofs.Observers
import Polling.Proofs.Unjudged
import Polling.Proofs.WebRules
