import PeerShare.Agent.Basic
import PeerShare.Agent.Run
import PeerShare.Agent.Script
import PeerShare.Agent.Tick
import PeerShare.Collection
import PeerShare.CommandLine.Arguments
import PeerShare.CommandLine.Machine
import PeerShare.CommandLine.Outcome
import PeerShare.CommandLine.Run
import PeerShare.Config.Load
import PeerShare.Config.Peer
import PeerShare.Config.Server
import PeerShare.Decimal
import PeerShare.Disk.Basic
import PeerShare.Disk.Path
import PeerShare.Disk.Replace
import PeerShare.Failure
import PeerShare.Identity
import PeerShare.Json.Access
import PeerShare.Json.Fault
import PeerShare.Json.Numeral
import PeerShare.Json.Reader
import PeerShare.Json.Scalar
import PeerShare.Json.Value
import PeerShare.Listing
import PeerShare.Main
import PeerShare.Outside.Files
import PeerShare.Outside.Network
import PeerShare.Outside.Serve
import PeerShare.Outside.Share
import PeerShare.Peer.Error
import PeerShare.Peer.Host
import PeerShare.Peer.Run
import PeerShare.Periodic
import PeerShare.Proofs.Age
import PeerShare.Proofs.Agent.Account
import PeerShare.Proofs.Agent.Calls
import PeerShare.Proofs.Agent.Convergence
import PeerShare.Proofs.Agent.Dealings
import PeerShare.Proofs.Agent.Follow
import PeerShare.Proofs.Agent.Heard
import PeerShare.Proofs.Agent.Loss
import PeerShare.Proofs.Agent.Outcome
import PeerShare.Proofs.Agent.Pass
import PeerShare.Proofs.Agent.Passes
import PeerShare.Proofs.Agent.Record
import PeerShare.Proofs.Agent.Retry
import PeerShare.Proofs.Agent.Run
import PeerShare.Proofs.Agent.Scene
import PeerShare.Proofs.Agent.Sessions
import PeerShare.Proofs.Agent.Stray
import PeerShare.Proofs.Agent.Undisturbed
import PeerShare.Proofs.Disk.Beside
import PeerShare.Proofs.Disk.Child
import PeerShare.Proofs.Disk.Folders
import PeerShare.Proofs.Disk.Interrupt
import PeerShare.Proofs.Disk.Replace
import PeerShare.Proofs.Disk.Ways
import PeerShare.Proofs.Identity
import PeerShare.Proofs.Json.Scalar
import PeerShare.Proofs.Json.Text
import PeerShare.Proofs.Json.Value
import PeerShare.Proofs.Keyed
import PeerShare.Proofs.Listing
import PeerShare.Proofs.Names
import PeerShare.Proofs.Peer.Departure
import PeerShare.Proofs.Peer.Run
import PeerShare.Proofs.Registry.Calls
import PeerShare.Proofs.Registry.History
import PeerShare.Proofs.Registry.Interleaving
import PeerShare.Proofs.Registry.Interruption
import PeerShare.Proofs.Registry.Liveness
import PeerShare.Proofs.Registry.Loading
import PeerShare.Proofs.Registry.Lookup
import PeerShare.Proofs.Registry.Operation
import PeerShare.Proofs.Registry.Ownership
import PeerShare.Proofs.Registry.Reach
import PeerShare.Proofs.Registry.Restart
import PeerShare.Proofs.Registry.Separation
import PeerShare.Proofs.Registry.Snapshot
import PeerShare.Proofs.Registry.Store
import PeerShare.Proofs.Registry.Substring
import PeerShare.Proofs.Registry.Upkeep
import PeerShare.Proofs.Remote.Answers
import PeerShare.Proofs.Remote.Refinement
import PeerShare.Proofs.Server.Exchange
import PeerShare.Proofs.Server.Lines
import PeerShare.Proofs.Server.Session
import PeerShare.Proofs.Share
import PeerShare.Proofs.Table.Aligned
import PeerShare.Proofs.Table.Holdings
import PeerShare.Proofs.Table.Renewal
import PeerShare.Proofs.Table.Statement
import PeerShare.Proofs.Table.WellFormed
import PeerShare.Proofs.Text.Blank
import PeerShare.Proofs.Text.LowerCase
import PeerShare.Proofs.Text.Utf8
import PeerShare.Proofs.Transfer.Answer
import PeerShare.Proofs.Transfer.Download
import PeerShare.Proofs.Transfer.Fetch
import PeerShare.Proofs.Transfer.Frame
import PeerShare.Proofs.Transfer.Slots
import PeerShare.Proofs.Wire.Request
import PeerShare.Proofs.Wire.Response
import PeerShare.Registry.Basic
import PeerShare.Registry.Error
import PeerShare.Registry.Snapshot
import PeerShare.Registry.Store
import PeerShare.Remote.Basic
import PeerShare.Server.Basic
import PeerShare.Server.Session
import PeerShare.Share
import PeerShare.Simulation
import PeerShare.Table
import PeerShare.Text.Basic
import PeerShare.Text.CaseTable
import PeerShare.Text.LowerCase
import PeerShare.Text.Quoted
import PeerShare.Text.Utf8
import PeerShare.Text.Width
import PeerShare.Time.Instant
import PeerShare.Time.Rfc3339
import PeerShare.Time.Span
import PeerShare.Transfer.Endpoint
import PeerShare.Transfer.Exchange
import PeerShare.Transfer.Frame
import PeerShare.Transfer.Slots
import PeerShare.Wire.Error
import PeerShare.Wire.Request
import PeerShare.Wire.Response
import PeerShare.Yaml.Cursor
import PeerShare.Yaml.Node
import PeerShare.Yaml.Printer
import PeerShare.Yaml.Scalar
import PeerShare.Yaml.Token
import PeerShare.Yaml.Typed
