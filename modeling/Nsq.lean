import Nsq.Octets
import Nsq.Text.Utf8
import Nsq.Text.Quoted
import Nsq.Text.Base64
import Nsq.Text.Blank
import Nsq.Text.Split
import Nsq.Number.Shortest
import Nsq.Number.Literal
import Nsq.Duration.Grammar
import Nsq.Name
import Nsq.Frame.Source
import Nsq.Message.Answered
import Nsq.Command.Reading
import Nsq.Command.Sink
import Nsq.Config.Basic
import Nsq.Json.Record
import Nsq.Json.Writer
import Nsq.Lookup.Exchange
import Nsq.Net.HostPort
import Nsq.Net.SocketAddress
import Nsq.Deflate.Inflater
import Nsq.Deflate.Stored
import Nsq.Failure.Outline
import Nsq.Session.Opening
import Nsq.Publisher.Run
import Nsq.Connection.Run
import Nsq.Consumer.Handling
import Nsq.Consumer.Subscription
import Nsq.Consumer.Credit
import Nsq.Consumer.Pace
import Nsq.Consumer.Spread
import Nsq.Consumer.Answering
import Nsq.Consumer.Delivery
import Nsq.Consumer.Stopping
import Nsq.Consumer.Connecting
import Nsq.Consumer.Outgoing
import Nsq.Tail.Basic
import Nsq.Feed.Basic
import Nsq.Shell.Socket
import Nsq.Failure.Complaint
import Nsq.Main
import Nsq.Proofs.Connection.Drain
import Nsq.Proofs.Consumer.Probe
import Nsq.Proofs.Consumer.Recovery
import Nsq.Proofs.Connection.Stranding
import Nsq.Proofs.Publisher.Outcomes
import Nsq.Proofs.Consumer.Budget
import Nsq.Proofs.Consumer.Told
import Nsq.Proofs.Octets
import Nsq.Proofs.Command.Decoding
import Nsq.Proofs.Frame.Decoding
import Nsq.Proofs.Consumer.Lines
import Nsq.Proofs.Consumer.Signs
import Nsq.Proofs.Consumer.Window
import Nsq.Proofs.Consumer.Level
import Nsq.Proofs.Publisher.Faults
import Nsq.Proofs.Consumer.Rebalancing
import Nsq.Proofs.Consumer.Shares
import Nsq.Proofs.Consumer.Starving
import Nsq.Proofs.Consumer.Range
import Nsq.Proofs.Consumer.Handled
import Nsq.Proofs.Connection.Pieces
import Nsq.Proofs.Message.Race
import Nsq.Proofs.Config.Assignments
import Nsq.Proofs.Config.Spelling
import Nsq.Proofs.Session.Times
import Nsq.Proofs.Consumer.Failing
import Nsq.Proofs.Lookup.Endpoints
import Nsq.Proofs.Consumer.Underway
import Nsq.Proofs.Consumer.Stopping
import Nsq.Proofs.Consumer.Arrivals
import Nsq.Proofs.Consumer.Uninterrupted
import Nsq.Proofs.Publisher.Severing
import Nsq.Proofs.Lookup.Envelope
import Nsq.Proofs.Duration
import Nsq.Proofs.Name
import Nsq.Proofs.Command.Handing
