import Perch.Account.Apply
import Perch.Account.History
import Perch.Account.Pricing
import Perch.Account.Preimages
import Perch.Account.Revision
import Perch.Analyze.Exactness
import Perch.Compile.Attenuation
import Perch.Compile.Failures
import Perch.Compile.Liveness
import Perch.Document.Addresses
import Perch.Document.Derivation
import Perch.Ir.Grammar
import Perch.Joint.Agreement
import Perch.Joint.Completable
import Perch.Joint.Freeze
import Perch.Joint.Installs
import Perch.Joint.Leaves
import Perch.Joint.Provenance
import Perch.Joint.Revocation
import Perch.Joint.Survival
import Perch.Joint.Upgrade
import Perch.PerchJs.Diagnostics
import Perch.PerchJs.Identity
import Perch.PerchJs.Replacements
import Perch.PerchJs.Snapshot
import Perch.PerchJs.Apply
import Perch.PerchRelay.Calls
import Perch.PerchRelay.Relay
import Perch.PerchSchema.Accepts
import Perch.Machine.Words
import Perch.Recovery.Authorization
import Perch.Recovery.Cancellation
import Perch.Recovery.Change
import Perch.Recovery.Completion
import Perch.Recovery.Deadlines
import Perch.Recovery.Records
import Perch.Recovery.Replacements
import Perch.Zk.Adapter
import Perch.Zk.Commitments
import Perch.PerchZk.Inputs
import Perch.PerchZk.Syncing
import Perch.PerchZk.Tree
import Perch.Zk.Trees
import Perch.PerchZk.Answering
import Perch.PerchZk.Served
