import OcRelay.Foundations.GoValues
import OcRelay.Foundations.Runs
import OcRelay.Foundations.Intervals
import OcRelay.Foundations.Utf8
import OcRelay.Foundations.Regexp
import OcRelay.Foundations.RegexpWindow
import OcRelay.Foundations.Decimal
import OcRelay.Session.Wire
import OcRelay.Session.Machine
import OcRelay.Session.Effects
import OcRelay.Session.Outbox
import OcRelay.Session.Registry
import OcRelay.Session.Slots
import OcRelay.Session.Roster
import OcRelay.Session.Retention
import OcRelay.Session.Redelivery
import OcRelay.Session.Identity
import OcRelay.Redaction.Mask
import OcRelay.Redaction.Builtin
import OcRelay.Redaction.Policy
import OcRelay.Redaction.Report
import OcRelay.Redaction.Sweep
import OcRelay.Redaction.SweepExact
import OcRelay.Redaction.Fields
import OcRelay.Redaction.Exposure
import OcRelay.Capabilities.FieldCap
import OcRelay.Capabilities.Results
import OcRelay.Capabilities.Events
import OcRelay.Capabilities.Logs
import OcRelay.Capabilities.LogMasking
import OcRelay.Capabilities.LogEncoding
import OcRelay.Inventory.Snapshot
import OcRelay.Inventory.Sync
import OcRelay.Inventory.Transitions
import OcRelay.Inventory.History
import OcRelay.Inventory.Succession
import OcRelay.Inventory.Collect
import OcRelay.Inventory.Boundaries
import OcRelay.Inventory.Deletions
import OcRelay.Inventory.Replay
import OcRelay.Inventory.Freshness
import OcRelay.Inventory.Pace
import OcRelay.Inventory.DedupKeys
import OcRelay.Capabilities.LogCoverage
import OcRelay.Foundations.Reachability
import OcRelay.Redaction.Descriptors
import OcRelay.Redaction.Enforcement
import OcRelay.Redaction.Parse
import OcRelay.Session.Cancellation
import OcRelay.Session.CancelAnswers
import OcRelay.Capabilities.Execution
import OcRelay.Capabilities.LogAccounting
import OcRelay.Inventory.LocalSettings
import OcRelay.Inventory.Watching
import OcRelay.Inventory.Encoding
import OcRelay.Inventory.Overflow
import OcRelay.Capabilities.EventSelection
import OcRelay.Capabilities.SelectorGrammar
import OcRelay.Capabilities.Selector
import OcRelay.Redaction.Naming
import OcRelay.Foundations.RegexpEmpty
import OcRelay.Redaction.ZeroWidth
import OcRelay.Foundations.Located
import OcRelay.Capabilities.EventSweep
import OcRelay.Redaction.DryRun
import OcRelay.Capabilities.EventPreview
import OcRelay.Redaction.MaskedFields
import OcRelay.Session.Backoff
import OcRelay.Session.Drain
import OcRelay.Inventory.Lister
import OcRelay.Inventory.Patch
import OcRelay.Capabilities.Runtime
import OcRelay.Capabilities.Budget
import OcRelay.Capabilities.LogCuts
import OcRelay.Session.Quiescence
import OcRelay.Foundations.Disk
import OcRelay.Identity.Enrollment
import OcRelay.Identity.Custody
import OcRelay.Identity.Permissions
import OcRelay.Capabilities.Registry
import OcRelay.Redaction.Conformance
import OcRelay.Capabilities.Conformance
import OcRelay.Relay.Pipeline
import OcRelay.Session.Provenance
import OcRelay.Relay.Egress
import OcRelay.Session.Supervisor
import OcRelay.Session.Shutdown
import OcRelay.Foundations.Resend
import OcRelay.Session.DeltaStream
import OcRelay.Relay.Deltas
