import Tokenweir.Lib.Machine
import Tokenweir.Lib.Ledger
import Tokenweir.Lib.Window
import Tokenweir.Emitter.Model
import Tokenweir.Emitter.Refinement
import Tokenweir.Emitter.Conservation
import Tokenweir.Emitter.Accounting
import Tokenweir.Emitter.Wakeups
import Tokenweir.Emitter.Draining
import Tokenweir.Lib.Suppression
import Tokenweir.Ratelimit.Warner
import Tokenweir.Amqp.Model
import Tokenweir.Amqp.History
import Tokenweir.Amqp.DialCap
import Tokenweir.Amqp.Policy
import Tokenweir.Amqp.Recovery
import Tokenweir.Amqp.Ownership
import Tokenweir.Amqp.Connection
import Tokenweir.Amqp.Reporting
import Tokenweir.Lib.Text
import Tokenweir.Lib.Lexing
import Tokenweir.Contract.Record
import Tokenweir.Lib.Except
import Tokenweir.ClaudeCode.Transcript
import Tokenweir.ClaudeCode.Hook
import Tokenweir.ClaudeCode.Client
import Tokenweir.ClaudeCode.Baseline
import Tokenweir.ClaudeCode.Settled
import Tokenweir.ClaudeCode.Exactness
import Tokenweir.ClaudeCode.Overlap
import Tokenweir.Lib.DateTime
import Tokenweir.Lib.Iso8601
import Tokenweir.Store.Row
import Tokenweir.Store.Domain
import Tokenweir.Store.Pipeline
import Tokenweir.Store.Refinement
import Tokenweir.Store.Calls
import Tokenweir.Store.Sharing
import Tokenweir.Lib.Regex
import Tokenweir.Lib.Sql
import Tokenweir.Lib.Catalog
import Tokenweir.Reconcile.Snapshot
import Tokenweir.Reconcile.Plan
import Tokenweir.Lib.Frame
import Tokenweir.Reconcile.Cases
import Tokenweir.Reconcile.Preservation
import Tokenweir.Lib.Progress
import Tokenweir.Reconcile.Tables
import Tokenweir.Reconcile.RateCard
import Tokenweir.Reconcile.Execution
import Tokenweir.Reconcile.Fixpoint
import Tokenweir.Lib.Insert
import Tokenweir.Reconcile.Writable
import Tokenweir.Lib.Transaction
import Tokenweir.Reconcile.Apply
import Tokenweir.Reconcile.Planning
import Tokenweir.Lib.Query
import Tokenweir.Rollup.Daily
import Tokenweir.Rollup.Pricing
import Tokenweir.Reconcile.Repricing
import Tokenweir.Lib.Program
import Tokenweir.Lib.Session
import Tokenweir.Lib.Discipline
import Tokenweir.Lib.Faults
import Tokenweir.Migrations.Package
import Tokenweir.Migrations.Model
import Tokenweir.Migrations.History
import Tokenweir.Migrations.Runner
import Tokenweir.Migrations.Adoption
import Tokenweir.Migrations.EntryPoints
import Tokenweir.Migrations.Resumption
import Tokenweir.Migrations.Discovery
import Tokenweir.Migrations.Serialisation
import Tokenweir.Migrations.Guard
import Tokenweir.Migrations.Locking
import Tokenweir.Contract.Codec
import Tokenweir.Lib.Schema
import Tokenweir.Contract.Schema
import Tokenweir.Lib.Double
import Tokenweir.Lib.JsonToken
import Tokenweir.Lib.JsonText
import Tokenweir.ClaudeCode.Responses
import Tokenweir.ClaudeCode.Identity
import Tokenweir.Emitter.Metering
import Tokenweir.Parity.Turns
import Tokenweir.Parity.Splits
import Tokenweir.Lib.Unicode
import Tokenweir.Orchestrator.Phase
import Tokenweir.Orchestrator.Folding
import Tokenweir.Orchestrator.Grammar
import Tokenweir.Orchestrator.Normalization
import Tokenweir.Orchestrator.Canonical
import Tokenweir.Orchestrator.Attribution
import Tokenweir.ClaudeCode.Acceptance
import Tokenweir.Lib.JsonDump
import Tokenweir.Lib.JsonLayout
import Tokenweir.Lib.Utf8
import Tokenweir.Lib.JsonSound
import Tokenweir.Contract.Wire
import Tokenweir.Contract.Acceptance
import Tokenweir.Amqp.Broker
import Tokenweir.Lib.Disk
import Tokenweir.ClaudeCode.StateFile
import Tokenweir.Lib.Masking
import Tokenweir.Lib.Url
import Tokenweir.Migrations.Redaction
import Tokenweir.Amqp.Redaction
import Tokenweir.Amqp.Leaks
import Tokenweir.Lib.Format
import Tokenweir.Lib.Probing
import Tokenweir.Parity.Checks
import Tokenweir.Parity.Probes
import Tokenweir.Parity.Main
import Tokenweir.Parity.Outcome
import Tokenweir.Parity.Returning
import Tokenweir.Parity.Secrecy
import Tokenweir.Parity.Soundness
import Tokenweir.Rollup.Billing
import Tokenweir.Rollup.Growth
import Tokenweir.ClaudeCode.Direct
