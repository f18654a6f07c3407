import Corelink.Bytes
import Corelink.Client
import Corelink.CommandLine.Invocation
import Corelink.CommandLine.Options
import Corelink.CommandLine.Run
import Corelink.Connection.Address
import Corelink.Connection.Exchange
import Corelink.Connection.Failure
import Corelink.Decimal
import Corelink.Directory
import Corelink.Files.Path
import Corelink.Files.Tree
import Corelink.Gateway
import Corelink.Json.Document
import Corelink.Json.Reading
import Corelink.Json.Value
import Corelink.Main
import Corelink.Notice
import Corelink.OnlineUsers
import Corelink.Outcome
import Corelink.Port
import Corelink.Presence
import Corelink.Record
import Corelink.Rehearsal.Script
import Corelink.Rehearsal.World
import Corelink.Session.Alone
import Corelink.Session.Call
import Corelink.Session.KeepAlive
import Corelink.Session.Locks
import Corelink.Session.Manager
import Corelink.Settings.Basic
import Corelink.Settings.Document
import Corelink.Settings.Files
import Corelink.Settings.Overrides
import Corelink.Text.Blank
import Corelink.Text.Duration
import Corelink.Text.Quoted
import Corelink.Text.Utf8
import Corelink.Text.Visible
import Corelink.Toml.Document
import Corelink.Toml.Printer
import Corelink.Toml.Reading
import Corelink.Toml.Scalar
import Corelink.Toml.Value
import Corelink.Wire.Field
import Corelink.Wire.Frame
import Corelink.Wire.Header
import Corelink.Wire.Message
import Corelink.Wire.MessageType
import Corelink.Proofs.Session.Shift
import Corelink.Proofs.Wire.Header
import Corelink.Proofs.Wire.Stream
import Corelink.Proofs.Session.Gates
import Corelink.Proofs.Session.Turns
import Corelink.Proofs.Session.Upkeep
import Corelink.Proofs.Session.Custody
import Corelink.Proofs.Session.Removal
import Corelink.Proofs.Text.Utf8
import Corelink.Proofs.Wire.Field
import Corelink.Proofs.Wire.Message
import Corelink.Proofs.Wire.Framing
import Corelink.Proofs.Wire.Row
import Corelink.Proofs.Wire.Repair
import Corelink.Proofs.Wire.Layout
import Corelink.Proofs.Wire.Acceptance
import Corelink.Proofs.Wire.Blind
import Corelink.Proofs.Wire.Sizes
import Corelink.Proofs.Wire.First
import Corelink.Proofs.Connection.Reply
import Corelink.Proofs.Session.Shutdown
import Corelink.Proofs.Session.Countdown
import Corelink.Proofs.Session.Ledger
import Corelink.Proofs.Session.Closing
import Corelink.Proofs.Session.Handshake
import Corelink.Proofs.Session.History
import Corelink.Proofs.Session.Solo
import Corelink.Proofs.Session.Completion
import Corelink.Proofs.Session.Moves
import Corelink.Proofs.Session.Kept
import Corelink.Proofs.Session.Intake
import Corelink.Proofs.Session.Account
import Corelink.Proofs.Session.Fate
import Corelink.Proofs.Session.Served
import Corelink.Proofs.Session.Stream
import Corelink.Proofs.Decimal
import Corelink.Proofs.Json.Scalar
import Corelink.Proofs.Json.Document
import Corelink.Proofs.Json.Reading
import Corelink.Proofs.Toml.Text
import Corelink.Proofs.Toml.Scalar
import Corelink.Proofs.Toml.Document
import Corelink.Proofs.Files.Tree
import Corelink.Proofs.Record
import Corelink.Proofs.Settings.Saved
import Corelink.Proofs.Outcome
import Corelink.Proofs.Session.Sending
import Corelink.Proofs.Session.Hands
import Corelink.Proofs.Session.Whereabouts
import Corelink.Proofs.Session.Origin
import Corelink.Proofs.Session.Welcome
import Corelink.Proofs.Session.Sharing
import Corelink.Proofs.Session.Return
import Corelink.Proofs.Session.Concurrent
import Corelink.Proofs.Text.Order
import Corelink.Proofs.Connection.Exchange
import Corelink.Proofs.OnlineUsers
import Corelink.Proofs.Presence
import Corelink.Proofs.Connection.Fidelity
import Corelink.Proofs.Connection.Footprint
import Corelink.Proofs.Session.Withheld
import Corelink.Proofs.Session.Cancelling
import Corelink.Proofs.Session.Actions
import Corelink.Proofs.Session.Footprint
import Corelink.Proofs.Session.Alone
import Corelink.Proofs.Gateway
import Corelink.Proofs.Session.Locks
import Corelink.Proofs.Session.Deadlock
import Corelink.Proofs.Session.View
import Corelink.Proofs.Session.Separate
import Corelink.Proofs.Session.Users
import Corelink.Proofs.Wire.Refusal
import Corelink.Proofs.Settings.Overrides
import Corelink.Proofs.Connection.Shortfall
import Corelink.Proofs.Session.Shortfall
import Corelink.Proofs.Toml.Reading
import Corelink.Proofs.Members
import Corelink.Proofs.Settings.Partial
import Corelink.Proofs.Files.Parents
import Corelink.Proofs.Settings.Saving
import Corelink.Proofs.Json.Form
import Corelink.Proofs.Strictness
import Corelink.Proofs.Session.Overtaken
import Corelink.Proofs.Wire.Balance
import Corelink.Proofs.Wire.Reads
import Corelink.Proofs.Wire.Texts
import Corelink.Proofs.Settings.InForce
