import GameLink.Checksum.Sliced
import GameLink.Metrics
import GameLink.ReplayWindow
import GameLink.Header
import GameLink.Single
import GameLink.Buffer.Operation
import GameLink.Message.Server
import GameLink.Message.Client
import GameLink.Packing
import GameLink.Pool
import GameLink.IntegrityTable
import GameLink.Settings.Document
import GameLink.Settings.Environment
import GameLink.Client.Shared
import GameLink.Proofs.ReplayWindow
import GameLink.Proofs.ReplayHistory
import GameLink.Proofs.Block.WrittenForm
import GameLink.Proofs.Block.Search
import GameLink.Proofs.Block.RoundTrip
import GameLink.Proofs.Packing
import GameLink.Proofs.Session.Operations
import GameLink.Proofs.Session.Exchange
import GameLink.Proofs.Session.SendCounter
import GameLink.Proofs.Session.Renewal
import GameLink.Proofs.Client.Standing
import GameLink.Proofs.Client.Transitions
import GameLink.Proofs.Client.Consistency
import GameLink.Proofs.PlainDatagram
import GameLink.Proofs.Pool
import GameLink.Proofs.Client.Deliveries
import GameLink.Proofs.Text.Utf8
import GameLink.Proofs.Buffer.Cursor
import GameLink.Proofs.Buffer.Values
import GameLink.Proofs.Buffer.Bits
import GameLink.Proofs.Buffer.Items
import GameLink.Proofs.Buffer.Remaining
import GameLink.Proofs.Packet
import GameLink.Proofs.Quantization
import GameLink.Proofs.Message.Fields
import GameLink.Proofs.Message.Pipeline
import GameLink.Proofs.Message.Truncation
import GameLink.Proofs.Client.History
import GameLink.Proofs.Client.Lifecycle
import GameLink.Proofs.Header
import GameLink.Proofs.Client.Sealing
import GameLink.Proofs.Client.Framing
import GameLink.Proofs.Client.Reachable
import GameLink.Proofs.Client.Garbage
import GameLink.Proofs.Client.Passages
import GameLink.Proofs.Client.Outcome
import GameLink.Proofs.Client.Sending
import GameLink.Proofs.Client.Counter
import GameLink.Proofs.Client.Dispatch
import GameLink.Proofs.Buffer.Bounds
import GameLink.Proofs.Buffer.Steps
import GameLink.Proofs.PoolHistory
import GameLink.Proofs.Client.Footing
import GameLink.Proofs.Client.Overtaking
import GameLink.Proofs.Client.Interleaving
import GameLink.Proofs.Client.Staffing
import GameLink.Proofs.Client.AtRest
import GameLink.Client.Posting
import GameLink.Client.Threads
import GameLink.Proofs.Checksum.Linearity
import GameLink.Proofs.Checksum.Bursts
import GameLink.Proofs.Buffer.Signatures
import GameLink.Proofs.PoolThreads
import GameLink.Proofs.SignedPacket
import GameLink.Proofs.Client.Doings
import GameLink.Proofs.Client.Postings
import GameLink.Proofs.Metrics
import GameLink.Proofs.Client.Journal
import GameLink.Proofs.Client.Books
import GameLink.Proofs.Client.Readings
import GameLink.Proofs.Client.Chronicle
import GameLink.Proofs.Client.PoolUse
import GameLink.Proofs.Client.PoolAtRest
import GameLink.Proofs.Client.Signing
import GameLink.Proofs.Client.Accounting
import GameLink.Proofs.Client.Makings
import GameLink.Proofs.Client.Mailing
import GameLink.Client.Stages
import GameLink.Proofs.Client.Turns
import GameLink.Proofs.Client.Episodes
import GameLink.Proofs.Client.Carrying
import GameLink.Proofs.Client.Attempts
import GameLink.Block.Guarded
import GameLink.Proofs.Block.Grammar
import GameLink.Proofs.Block.Decoding
import GameLink.Proofs.Block.Capacity
import GameLink.Proofs.Client.Course
import GameLink.Proofs.Client.Trail
import GameLink.Proofs.Client.Cookies
import GameLink.Proofs.Client.Retries
import GameLink.Proofs.Checksum.Slices
import GameLink.Proofs.Buffer.Writes
import GameLink.Proofs.Buffer.Storage
import GameLink.Proofs.Buffer.Forgetting
import GameLink.Proofs.HeaderBinding
import GameLink.Proofs.Session.Directions
import GameLink.Proofs.Buffer.Rereading
import GameLink.Proofs.Settings.Kept
import GameLink.Proofs.Buffer.Numerals
