import ScopedStore.Value
import ScopedStore.Fault
import ScopedStore.Address
import ScopedStore.Capacities
import ScopedStore.Event
import ScopedStore.Traced
import ScopedStore.Store
import ScopedStore.Pool
import ScopedStore.Globals
import ScopedStore.Globals.Columns
import ScopedStore.Env
import ScopedStore.Env.Table
import ScopedStore.Env.Unlinking
import ScopedStore.Env.Walking
import ScopedStore.World
import ScopedStore.Session
import ScopedStore.Tracing
import ScopedStore.Text.Quoted
import ScopedStore.Inspect
import ScopedStore.Script.Step
import ScopedStore.Script.Answer
import ScopedStore.Script.Machine
import ScopedStore.Script.Run
import ScopedStore.Proofs.Index
import ScopedStore.Proofs.Direct.Scopes
import ScopedStore.Proofs.Direct.Evaluator
import ScopedStore.Proofs.Direct.Shown
import ScopedStore.Proofs.Direct.Refinement
import ScopedStore.Proofs.Direct.Agreement
import ScopedStore.Proofs.Lookup
import ScopedStore.Proofs.Table.Chain
import ScopedStore.Proofs.Table.Sharing
import ScopedStore.Proofs.Table.Release
import ScopedStore.Proofs.Table.Hold
import ScopedStore.Proofs.Table.Names
import ScopedStore.Proofs.Table.Unlinked
import ScopedStore.Proofs.Repeated
import ScopedStore.Proofs.Script.Aside
import ScopedStore.Proofs.Script.Moves
import ScopedStore.Proofs.Script.Valid
import ScopedStore.Proofs.Isolation.Addressed
import ScopedStore.Proofs.Isolation.Mirror
import ScopedStore.Proofs.Isolation.Untouched
import ScopedStore.Proofs.Isolation.Lockstep
import ScopedStore.Proofs.Isolation.Noninterference
import ScopedStore.Proofs.History.Kept
import ScopedStore.Proofs.History.Law
import ScopedStore.Proofs.History.Resolution
import ScopedStore.Proofs.Provenance.Ledger
import ScopedStore.Proofs.Provenance.Births
import ScopedStore.Proofs.Provenance.RootCheck
import ScopedStore.Proofs.Cells.LastWrite
import ScopedStore.Proofs.Cells.Newest
import ScopedStore.Proofs.Faults.Refused
import ScopedStore.Proofs.Faults.Precedence
import ScopedStore.Proofs.Grounding.Grounded
import ScopedStore.Proofs.Grounding.LegalUse
import ScopedStore.Proofs.Renaming.Relocated
import ScopedStore.Proofs.Renaming.Renamed
import ScopedStore.Proofs.Renaming.Unobservable
import ScopedStore.Proofs.Footprint.Assignment
import ScopedStore.Proofs.Footprint.Entering
import ScopedStore.Proofs.Releasing.Handed
import ScopedStore.Proofs.Releasing.Survivors
import ScopedStore.Proofs.Reports.Operations
import ScopedStore.Proofs.Reports.Steps
import ScopedStore.Proofs.Reports.Journal
import ScopedStore.Proofs.Reports.Cells
import ScopedStore.Proofs.Reports.Bindings
import ScopedStore.Proofs.Reports.Faithful
import ScopedStore.Proofs.History.Standing
import ScopedStore.Proofs.Footprint.Defining
import ScopedStore.Proofs.Walks.Links
import ScopedStore.Proofs.Walks.Agreement
import ScopedStore.Proofs.Texts.Delimited
import ScopedStore.Proofs.Texts.Quoted
import ScopedStore.Proofs.Texts.Cells
import ScopedStore.Proofs.Texts.Chains
import ScopedStore.Proofs.Texts.Displayed
import ScopedStore.Proofs.Texts.Messages
import ScopedStore.Handles
import ScopedStore.Proofs.Handles.Origins
import ScopedStore.Proofs.Handles.Shared
import ScopedStore.Proofs.Handles.Registers
import ScopedStore.Address.Words
import ScopedStore.Proofs.Addresses.Exact
import ScopedStore.Proofs.Addresses.Held
import ScopedStore.Proofs.Addresses.Reported
