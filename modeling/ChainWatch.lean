import ChainWatch.Abi.Codec
import ChainWatch.Abi.Contract
import ChainWatch.Abi.Source
import ChainWatch.Abi.Table
import ChainWatch.Abi.Type
import ChainWatch.Abi.Value
import ChainWatch.Address
import ChainWatch.Bytes
import ChainWatch.Concurrency.Activity
import ChainWatch.Concurrency.Poll
import ChainWatch.Concurrency.Progress
import ChainWatch.Concurrency.Run
import ChainWatch.Config.Basic
import ChainWatch.Config.Build
import ChainWatch.Config.Decode
import ChainWatch.Config.EnvFile
import ChainWatch.Config.Load
import ChainWatch.Cycle
import ChainWatch.Fleet.Endpoint
import ChainWatch.Fleet.Fault
import ChainWatch.Fleet.Health
import ChainWatch.Fleet.Quorum
import ChainWatch.Fleet.Reading
import ChainWatch.Http.Heartbeat
import ChainWatch.Http.Reply
import ChainWatch.Http.Status
import ChainWatch.Http.Url
import ChainWatch.Json.Basic
import ChainWatch.Json.Decode
import ChainWatch.Json.Parser
import ChainWatch.Json.Printer
import ChainWatch.Keccak
import ChainWatch.Main
import ChainWatch.Node.Docker
import ChainWatch.Node.JsonRpc
import ChainWatch.Offline
import ChainWatch.PortBinding
import ChainWatch.Proxy
import ChainWatch.Rehearsal.Batch
import ChainWatch.Rehearsal.Node
import ChainWatch.Rehearsal.Rule
import ChainWatch.Rehearsal.Stage
import ChainWatch.Rule.Basic
import ChainWatch.Rule.Batch
import ChainWatch.Rule.Engine
import ChainWatch.Rule.Entry
import ChainWatch.Rule.Spec
import ChainWatch.Rule.Sweep
import ChainWatch.Rule.Threshold
import ChainWatch.Signal
import ChainWatch.System
import ChainWatch.Text.Blank
import ChainWatch.Text.Digit
import ChainWatch.Text.Quoted
import ChainWatch.Text.Unprintable
import ChainWatch.Text.Utf8
import ChainWatch.Toml.Lexeme
import ChainWatch.Toml.Moment
import ChainWatch.Toml.Number
import ChainWatch.Toml.Parser
import ChainWatch.Toml.Tree
import ChainWatch.Transaction
import ChainWatch.Transaction.Line
import ChainWatch.Transaction.Outbox
import ChainWatch.Transaction.Queue
import ChainWatch.Watch
import ChainWatch.Word
import ChainWatch.Word.Text
import ChainWatch.Proofs.Text.Notation
import ChainWatch.Proofs.Concurrency.Shuffle
import ChainWatch.Proofs.Concurrency.Trace
import ChainWatch.Proofs.Concurrency.View
import ChainWatch.Proofs.Concurrency.Past
import ChainWatch.Proofs.Concurrency.Schedule
import ChainWatch.Proofs.Concurrency.Ending
import ChainWatch.Proofs.Concurrency.Waiting
import ChainWatch.Proofs.Concurrency.Sequence
import ChainWatch.Proofs.Batch.Fairness
import ChainWatch.Proofs.Concurrency.Alone
import ChainWatch.Proofs.Concurrency.Footprint
import ChainWatch.Proofs.Fleet.Endpoint
import ChainWatch.Proofs.Fleet.Bringup
import ChainWatch.Proofs.Fleet.Start
import ChainWatch.Proofs.Fleet.Freshness
import ChainWatch.Proofs.Fleet.Answers
import ChainWatch.Proofs.Fleet.Launch
import ChainWatch.Proofs.Fleet.LazyStart
import ChainWatch.Proofs.Fleet.Race
import ChainWatch.Proofs.Fleet.Replies
import ChainWatch.Proofs.Fleet.Failover
import ChainWatch.Proofs.Rule.Collection
import ChainWatch.Proofs.Fleet.Reset
import ChainWatch.Proofs.Fleet.Reads
import ChainWatch.Proofs.Fleet.Pointing
import ChainWatch.Proofs.Fleet.History
import ChainWatch.Proofs.Fleet.Recovery
import ChainWatch.Proofs.Fleet.Revival
import ChainWatch.Proofs.Fleet.Verdict
import ChainWatch.Proofs.Fleet.Flag
import ChainWatch.Proofs.Concurrency.Yield
import ChainWatch.Proofs.Rule.Makeup
import ChainWatch.Proofs.Rule.Findings
import ChainWatch.Proofs.Rule.Loading
import ChainWatch.Proofs.Abi.Lookups
import ChainWatch.Proofs.Rule.Report
import ChainWatch.Proofs.Concurrency.Mirror
import ChainWatch.Proofs.Cycle.Delivery
import ChainWatch.Proofs.Cycle.Signals
import ChainWatch.Proofs.Rule.Decision
import ChainWatch.Proofs.Cycle.Reload
import ChainWatch.Proofs.Json.ReadBack
import ChainWatch.Proofs.Transaction.Line
import ChainWatch.Proofs.Text.Utf8
import ChainWatch.Concurrency.Lock
import ChainWatch.Transaction.Sink
import ChainWatch.Proofs.Concurrency.Exclusion
import ChainWatch.Proofs.Transaction.Framing
import ChainWatch.Proofs.Transaction.Sink
import ChainWatch.Proofs.Abi.Overlap
import ChainWatch.Proofs.Config.Build
import ChainWatch.Proofs.Concurrency.Places
import ChainWatch.Proofs.Rule.Candidates
import ChainWatch.Proofs.Rule.Sweeping
import ChainWatch.Proofs.Rule.Watching
import ChainWatch.Proofs.Fleet.Choice
import ChainWatch.Proofs.Fleet.ViewCall
import ChainWatch.Proofs.Rule.Source
import ChainWatch.Proofs.Rule.Ceiling
import ChainWatch.Proofs.Text.Blank
import ChainWatch.Proofs.Text.Numeral
import ChainWatch.Proofs.Rule.Level
import ChainWatch.Proofs.Abi.Inline
import ChainWatch.Proofs.Rule.Action
import ChainWatch.Proofs.Text.Pieces
import ChainWatch.Proofs.Node.Listing
import ChainWatch.Proofs.Config.Addresses
import ChainWatch.Proofs.Transaction.Outbox
