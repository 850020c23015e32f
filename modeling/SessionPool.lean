import SessionPool.Allocator
import SessionPool.Client
import SessionPool.CommandLine
import SessionPool.CommandLine.Fault
import SessionPool.CommandLine.Reader
import SessionPool.Config
import SessionPool.Config.Check
import SessionPool.Config.Environment
import SessionPool.Config.Fault
import SessionPool.Config.Target
import SessionPool.Crowd
import SessionPool.Decimal.Double
import SessionPool.Decimal.Shortest
import SessionPool.Domain
import SessionPool.Error
import SessionPool.Files
import SessionPool.Interleaving
import SessionPool.Json.Fault
import SessionPool.Json.Numeral
import SessionPool.Json.Quotation
import SessionPool.Json.Reader
import SessionPool.Json.Record
import SessionPool.Json.Skip
import SessionPool.Json.Value
import SessionPool.Lease
import SessionPool.Main
import SessionPool.Marshal
import SessionPool.Mock.Daemon
import SessionPool.Pool
import SessionPool.Probe
import SessionPool.Registry
import SessionPool.Script.Command
import SessionPool.Script.Named
import SessionPool.Script.Perform
import SessionPool.Script.State
import SessionPool.Script.World
import SessionPool.Session
import SessionPool.Session.Call
import SessionPool.Stress
import SessionPool.Tcp.Loopback
import SessionPool.Tcp.Marshal
import SessionPool.Tcp.Network
import SessionPool.Tcp.Options
import SessionPool.Text.Blank
import SessionPool.Text.Bytes
import SessionPool.Text.Hidden
import SessionPool.Text.Inspection
import SessionPool.Text.Numeral
import SessionPool.Text.Quoted
import SessionPool.Tool
import SessionPool.Proofs.Custody.Basic
import SessionPool.Proofs.Custody.Moves
import SessionPool.Proofs.Custody.Tally
import SessionPool.Proofs.Custody.Outstanding
import SessionPool.Proofs.Mock.Log
import SessionPool.Proofs.Mock.Steps
import SessionPool.Proofs.Custody.Census
import SessionPool.Proofs.Custody.Teardown
import SessionPool.Proofs.Custody.Whereabouts
import SessionPool.Proofs.Linear.Chronicle
import SessionPool.Proofs.Linear.Linearizable
import SessionPool.Proofs.Custody.Turns
import SessionPool.Proofs.Custody.Unshared
import SessionPool.Proofs.Custody.Draws
import SessionPool.Proofs.Custody.Alike
import SessionPool.Proofs.Custody.StandIn
import SessionPool.Proofs.Custody.Demand
import SessionPool.Proofs.Custody.Closed
import SessionPool.Proofs.Custody.Readiness
import SessionPool.Proofs.Custody.Phases
import SessionPool.Proofs.Custody.Lifetimes
import SessionPool.Proofs.Mock.Life
import SessionPool.Proofs.Script.Clients
import SessionPool.Proofs.Script.Loans
import SessionPool.Proofs.Script.Frames
import SessionPool.Proofs.Script.Leases
import SessionPool.Proofs.Script.Unleased
import SessionPool.Proofs.Script.Replacement
import SessionPool.Proofs.Script.Acts
import SessionPool.Proofs.Script.Holders
import SessionPool.Proofs.Script.Courses
import SessionPool.Proofs.Script.Commands
import SessionPool.Proofs.Script.Performed
import SessionPool.Proofs.Mock.Ledger
import SessionPool.Proofs.Script.Counted
import SessionPool.Proofs.Script.Outliving
import SessionPool.Proofs.Json.Spelling
import SessionPool.Proofs.Json.Numerals
import SessionPool.Proofs.Json.Quotations
import SessionPool.Proofs.Json.Grammar
import SessionPool.Proofs.Json.Deciding
import SessionPool.Proofs.Json.Written
import SessionPool.Proofs.Json.Objects
import SessionPool.Proofs.Json.Settings
import SessionPool.Proofs.Config.ObjectForm
import SessionPool.Proofs.Config.RoundTrip
import SessionPool.Proofs.Json.Alike
import SessionPool.Proofs.Config.Given
import SessionPool.Proofs.Config.Precedence
import SessionPool.Numbering
import SessionPool.Proofs.Numbering.Counting
import SessionPool.Proofs.Numbering.Orderly
import SessionPool.Proofs.Numbering.Alone
import SessionPool.Proofs.Entries
import SessionPool.Proofs.Registry.Table
import SessionPool.Proofs.Registry.History
import SessionPool.Proofs.Tcp.Sockets
import SessionPool.Proofs.Config.Usable
import SessionPool.Proofs.Stress.Posts
import SessionPool.Proofs.Stress.Accounts
import SessionPool.Registry.Call
import SessionPool.Registry.Shared
import SessionPool.Proofs.Registry.Steps
import SessionPool.Proofs.Registry.Once
import SessionPool.Proofs.Registry.Alone
import SessionPool.Proofs.Mock.Renaming
import SessionPool.Proofs.Script.Agreement
import SessionPool.Proofs.Script.Bystanders
import SessionPool.Proofs.Script.Alongside
import SessionPool.Proofs.Script.Undisturbed
import SessionPool.Proofs.Brackets
import SessionPool.Proofs.Watched
import SessionPool.Proofs.Session.Reuse
import SessionPool.Proofs.Stress.Alike
import SessionPool.Proofs.Session.Swept
import SessionPool.Proofs.Stress.Collected
import SessionPool.Proofs.Tool.Leftovers
import SessionPool.Proofs.CommandLine.Values
import SessionPool.Proofs.CommandLine.Rendering
import SessionPool.Proofs.Text.Trimming
import SessionPool.Proofs.Text.Numerals
import SessionPool.Proofs.Config.PortOverride
import SessionPool.Proofs.Registry.Remote
import SessionPool.Proofs.Registry.Closing
import SessionPool.Proofs.Session.Excess
import SessionPool.Proofs.Tcp.Connecting
import SessionPool.Proofs.Tcp.Connections
import SessionPool.Proofs.Tcp.Exchanges
