import Fieldbus.Config
import Fieldbus.Engine.Access
import Fieldbus.Engine.Receive
import Fieldbus.Engine.Transmit
import Fieldbus.Frame.Builder
import Fieldbus.Mailbox.Turn
import Fieldbus.Mailbox.Worker
import Fieldbus.Master
import Fieldbus.Port.Loopback
import Fieldbus.Simulation.Bench
import Fieldbus.Simulation.Bus
import Fieldbus.Simulation.Desk
import Fieldbus.Simulation.Rehearsal
import Fieldbus.Simulation.Rig
import Fieldbus.Simulation.Station
import Fieldbus.Proofs.Buffer.Queue
import Fieldbus.Proofs.Buffer.Deque
import Fieldbus.Proofs.Buffer.Pool
import Fieldbus.Proofs.Buffer.Returning
import Fieldbus.Proofs.Buffer.Uniform
import Fieldbus.Proofs.Buffer.Lending
import Fieldbus.Proofs.Buffer.Loans
import Fieldbus.Proofs.Mailbox.Calls
import Fieldbus.Proofs.Mailbox.Moves
import Fieldbus.Proofs.Mailbox.Deeds
import Fieldbus.Proofs.Mailbox.Custody
import Fieldbus.Proofs.Mailbox.Journal
import Fieldbus.Proofs.Mailbox.Routing
import Fieldbus.Proofs.Mailbox.Branches
import Fieldbus.Proofs.Mailbox.Effects
import Fieldbus.Proofs.Mailbox.Accounts
import Fieldbus.Proofs.Mailbox.Invariant
import Fieldbus.Proofs.Mailbox.Callers
import Fieldbus.Proofs.Mailbox.Session
import Fieldbus.Proofs.Mailbox.Balance
import Fieldbus.Proofs.Mailbox.Conservation
import Fieldbus.Proofs.Mailbox.Closing
import Fieldbus.Proofs.Mailbox.SingleFlight
import Fieldbus.Proofs.Mailbox.Traces
import Fieldbus.Proofs.Mailbox.Messages
import Fieldbus.Proofs.Mailbox.Ledger
import Fieldbus.Proofs.Mailbox.Counters
import Fieldbus.Proofs.Mailbox.Tracking
import Fieldbus.Proofs.Mailbox.Delivery
import Fieldbus.Proofs.Mailbox.Outcomes
import Fieldbus.Proofs.Mailbox.Beats
import Fieldbus.Proofs.Mailbox.Interleaving
import Fieldbus.Proofs.Mailbox.Reception
import Fieldbus.Proofs.Mailbox.Staleness
import Fieldbus.Proofs.Mailbox.Histories
import Fieldbus.Proofs.Mailbox.Lineup
import Fieldbus.Proofs.Mailbox.Reading
import Fieldbus.Proofs.Mailbox.SendOrder
import Fieldbus.Proofs.Mailbox.Failures
import Fieldbus.Proofs.Mailbox.Scenes
import Fieldbus.Proofs.Mailbox.Stages
import Fieldbus.Proofs.Mailbox.Postings
import Fieldbus.Proofs.Mailbox.Deadlines
import Fieldbus.Proofs.Mailbox.Residue
import Fieldbus.Proofs.Mailbox.Callbacks
import Fieldbus.Proofs.Mailbox.Owed
import Fieldbus.Proofs.Mailbox.Inbox
import Fieldbus.Proofs.Mailbox.Awaiting
import Fieldbus.Proofs.Mailbox.Dissolution
import Fieldbus.Proofs.Mailbox.Deques
import Fieldbus.Proofs.Engine.Leases
import Fieldbus.Proofs.Engine.Scan
import Fieldbus.Proofs.Engine.NextFit
import Fieldbus.Proofs.Engine.Moves
import Fieldbus.Proofs.Engine.Sending
import Fieldbus.Proofs.Engine.Invariant
import Fieldbus.Proofs.Engine.Actions
import Fieldbus.Proofs.Engine.Runs
import Fieldbus.Proofs.Engine.Completion
import Fieldbus.Proofs.Engine.Resources
import Fieldbus.Proofs.Frame.Rewriting
import Fieldbus.Proofs.Frame.Assembly
import Fieldbus.Proofs.Frame.Acceptance
import Fieldbus.Proofs.Frame.Bounds
import Fieldbus.Proofs.Frame.InPlace
import Fieldbus.Proofs.Engine.Waiters
import Fieldbus.Proofs.Engine.Packing
import Fieldbus.Proofs.Engine.Wanted
import Fieldbus.Proofs.Frame.Masking
import Fieldbus.Proofs.Frame.Iteration
import Fieldbus.Proofs.Engine.Watching
import Fieldbus.Proofs.Engine.Hearing
import Fieldbus.Proofs.Engine.Verdicts
import Fieldbus.Proofs.Engine.RoundTrip
import Fieldbus.Proofs.Engine.Handing
import Fieldbus.Proofs.Engine.Disposal
import Fieldbus.Proofs.Engine.Stranding
import Fieldbus.Proofs.Engine.Greedy
import Fieldbus.Proofs.Engine.Line
import Fieldbus.Proofs.Engine.Order
import Fieldbus.Proofs.Engine.Census
import Fieldbus.Proofs.Engine.Seating
import Fieldbus.Proofs.Engine.Posting
import Fieldbus.Proofs.Engine.Turnover
import Fieldbus.Proofs.Engine.Accounts
import Fieldbus.Proofs.Engine.Losses
import Fieldbus.Proofs.Engine.Backlog
import Fieldbus.Proofs.Engine.Lives
import Fieldbus.Proofs.Engine.Withdrawal
import Fieldbus.Proofs.Engine.Access
import Fieldbus.Proofs.Engine.Effects
import Fieldbus.Proofs.Engine.Refusals
import Fieldbus.Proofs.Engine.Settling
import Fieldbus.Proofs.Engine.Arrival
import Fieldbus.Proofs.MacAddress
import Fieldbus.Proofs.Bytes
import Fieldbus.Proofs.Datagram.Codec
import Fieldbus.Proofs.Mailbox.Codec
import Fieldbus.Proofs.Master.Cycle
