import ConfigGuard.Prompt.Stability
import ConfigGuard.Guard.Provenance
import ConfigGuard.Guard.StrictDenial
import ConfigGuard.Guard.Shutdown
import ConfigGuard.Audit.Attribution
import ConfigGuard.Policy.Edits
import ConfigGuard.Audit.IdentityFifo
import ConfigGuard.Audit.ProcessHistory
import ConfigGuard.Policy.AliasOrder
import ConfigGuard.Policy.AncestorRules
import ConfigGuard.Fanotify.Watch
import ConfigGuard.Guard.Delivery
import ConfigGuard.Guard.Dialogs
import ConfigGuard.Guard.StalePrompt
import ConfigGuard.Guard.Synchronous
import ConfigGuard.Guard.Wakeup
import ConfigGuard.Policy.Specificity
import ConfigGuard.Guard.Fallback
import ConfigGuard.Process.Stat
import ConfigGuard.Fanotify.Coverage
import ConfigGuard.Fanotify.Encoding
import ConfigGuard.Learning.AliasRoots
import ConfigGuard.Learning.Replay
import ConfigGuard.Reconcile.Coverage
import ConfigGuard.Reconcile.Association
import ConfigGuard.Reconcile.Convergence
import ConfigGuard.Learning.Aggregation
import ConfigGuard.Reconcile.Collision
import ConfigGuard.Reconcile.Refusal
import ConfigGuard.Reconcile.Appending
import ConfigGuard.Audit.Responses
import ConfigGuard.Audit.Observations
import ConfigGuard.Audit.Dialogs
import ConfigGuard.Process.Kernel
import ConfigGuard.Guard.LiveDialogs
import ConfigGuard.Guard.Consent
import ConfigGuard.Guard.Progress
import ConfigGuard.Guard.Turns
import ConfigGuard.Guard.Buffers
import ConfigGuard.Guard.Syscalls
import ConfigGuard.Guard.Sessions
import ConfigGuard.Reconcile.DryRun
import ConfigGuard.Fanotify.Startup
import ConfigGuard.Learning.Enforced
import ConfigGuard.Audit.Buffers
import ConfigGuard.Policy.RuleOrder
import ConfigGuard.Reconcile.Enforced
