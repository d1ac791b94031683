import FleetOps.Foundations.Query
import FleetOps.Foundations.Machine
import FleetOps.Foundations.Amendment
import FleetOps.Foundations.Dictionary
import FleetOps.Foundations.Keys
import FleetOps.Foundations.Fallible
import FleetOps.Foundations.Json
import FleetOps.Evidence.Tables
import FleetOps.Service
import FleetOps.Evidence.Service
import FleetOps.Assets.Tables
import FleetOps.Assets.Effective
import FleetOps.Assets.Operations
import FleetOps.Assets.Corrections
import FleetOps.Assets.Calls
import FleetOps.Assets.Concurrency
import FleetOps.Assets.Overlay
import FleetOps.Assets.History
import FleetOps.Receiving.Tables
import FleetOps.Receiving.Guards
import FleetOps.Receiving.Snapshot
import FleetOps.Receiving.Evaluation
import FleetOps.Receiving.Exceptions
import FleetOps.Receiving.Workflow
import FleetOps.Receiving.Consequences
import FleetOps.Receiving.Corrections
import FleetOps.Receiving.Units
import FleetOps.Receiving.Service
import FleetOps.Assets.Invariant
import FleetOps.Assets.Lifecycle
import FleetOps.Assets.Legality
import FleetOps.Receiving.CorrectionService
import FleetOps.Receiving.Machine
import FleetOps.Receiving.Statements
import FleetOps.Receiving.Integrity
import FleetOps.Receiving.Frame
import FleetOps.Receiving.Requests
import FleetOps.Receiving.Rounds
import FleetOps.Receiving.Capture
import FleetOps.Receiving.Runs
import FleetOps.Receiving.Classifiers
import FleetOps.Receiving.Derivations
import FleetOps.Receiving.Exactness
import FleetOps.Receiving.Agreement
import FleetOps.Receiving.Logs
import FleetOps.Receiving.Aftermath
import FleetOps.Receiving.Freezing
import FleetOps.Capture.Facts
import FleetOps.Capture.Conflicts
import FleetOps.Capture.Workflows
import FleetOps.Capture.Scan
import FleetOps.Capture.Payload
import FleetOps.Receiving.Acknowledgement
import FleetOps.Receiving.Races
import FleetOps.Receiving.Arrivals
import FleetOps.Receiving.Creation
import FleetOps.Foundations.Gaps
import FleetOps.Assets.Reconciliation
import FleetOps.Assets.Authority
import FleetOps.Assets.WellFormed
import FleetOps.Assets.Events
import FleetOps.Foundations.Sequence
import FleetOps.Client.Queue
import FleetOps.Client.Allocation
import FleetOps.Capture.Streams
import FleetOps.Capture.Sequencing
import FleetOps.Assets.Constraints
import FleetOps.Assets.Generations
import FleetOps.Assets.Soundness
import FleetOps.Assets.Acceptance
import FleetOps.Assets.Options
import FleetOps.Assets.Intervals
import FleetOps.Client.Lease
import FleetOps.Foundations.Pointers
import FleetOps.Foundations.Chains
import FleetOps.Procurement.Lines
import FleetOps.Space.Locations
import FleetOps.Foundations.Text
import FleetOps.Labels.Zpl
import FleetOps.Foundations.WriteOnce
import FleetOps.Labels.PrintJobs
import FleetOps.Labels.PrintOnce
import FleetOps.Evidence.Capturing
import FleetOps.Evidence.Captured
import FleetOps.Health
import FleetOps.Foundations.Cancellation
import FleetOps.Audit.Readers
import FleetOps.Audit.Lineage
import FleetOps.Audit.Cancelled
import FleetOps.Receiving.NewUnits
import FleetOps.Receiving.Incremental
import FleetOps.Receiving.Ledger
import FleetOps.Foundations.Patches
import FleetOps.Procurement.Authoring
import FleetOps.Procurement.Machine
import FleetOps.Procurement.Lineage
import FleetOps.Procurement.Expectations
import FleetOps.Receiving.Procured
import FleetOps.Receiving.Selected
import FleetOps.Foundations.Standing
import FleetOps.Receiving.Reviews
import FleetOps.Receiving.Supports
import FleetOps.Receiving.Histories
import FleetOps.Receiving.Chronicle
import FleetOps.Receiving.Checks
import FleetOps.Assets.Eligibility
import FleetOps.Assets.Replacement
import FleetOps.Assets.Amending
import FleetOps.Capture.Once
