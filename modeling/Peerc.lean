import Peerc.Lib.Lists
import Peerc.Lib.Bytes
import Peerc.Lib.Str
import Peerc.Lib.Encoding
import Peerc.Lib.Table
import Peerc.Lib.Worklist
import Peerc.Lib.Double
import Peerc.Lib.Rounding
import Peerc.Lib.Crypto
import Peerc.Lib.Json.Basic
import Peerc.Lib.Json.Parse
import Peerc.Lib.Json.Tokens
import Peerc.Lib.Json.RoundTrip
import Peerc.Lib.Message
import Peerc.Lib.Refines
import Peerc.Lib.FileSystem
import Peerc.Lib.BufferedWriter
import Peerc.Lib.Machine
import Peerc.Lib.Json.Key
import Peerc.Lib.Path
import Peerc.Lib.PathNames
import Peerc.Lib.Realpath
import Peerc.Lib.FirstFree
import Peerc.Lib.Json.Render
import Peerc.Lib.Json.Indent
import Peerc.Lib.Json.Truncate
import Peerc.Lib.Journal
import Peerc.Lib.Json.Size
import Peerc.Lib.Uuid
import Peerc.Lib.Radix
import Peerc.Lib.Casing
import Peerc.Lib.Surrogates
import Peerc.Lib.Decimal
import Peerc.Lib.PyValue
import Peerc.Lib.Redact
import Peerc.Lib.Separated
import Peerc.Lib.Sort
import Peerc.Lib.Presence
import Peerc.Lib.Weight
import Peerc.Primitives
import Peerc.Protocol.Messages
import Peerc.Protocol.Frame
import Peerc.Protocol.Validation
import Peerc.Protocol.Binary
import Peerc.Protocol.Theorems.Chunks
import Peerc.Protocol.Theorems.Stream
import Peerc.Protocol.Builders
import Peerc.Protocol.Theorems.Accepted
import Peerc.Identity.Basic
import Peerc.Identity.KeyStore
import Peerc.Identity.File
import Peerc.Identity.Effect
import Peerc.Identity.Theorems.LastWrite
import Peerc.Identity.Theorems.Payload
import Peerc.Identity.Theorems.Crash
import Peerc.Security.Events
import Peerc.Security.Theorems.Redaction
import Peerc.Security.Theorems.Unambiguous
import Peerc.Trust.Store
import Peerc.Trust.Call
import Peerc.Trust.Effect
import Peerc.Trust.Chain
import Peerc.Trust.Theorems.Monotone
import Peerc.Trust.Theorems.Provenance
import Peerc.Trust.Theorems.ChainSound
import Peerc.Trust.Theorems.Component
import Peerc.Trust.Theorems.History
import Peerc.Handshake.Basic
import Peerc.Handshake.Keys
import Peerc.Handshake.Phases
import Peerc.Handshake.Perform
import Peerc.Handshake.System
import Peerc.Handshake.Outcome
import Peerc.Handshake.Dialogue
import Peerc.Handshake.Matched
import Peerc.Handshake.Theorems.Transcript
import Peerc.Handshake.Theorems.Replay
import Peerc.Handshake.Theorems.Separation
import Peerc.Handshake.Theorems.Agreement
import Peerc.Handshake.Theorems.Rollback
import Peerc.Handshake.Theorems.Pinning
import Peerc.Handshake.Theorems.Lineage
import Peerc.Handshake.Theorems.Binding
import Peerc.Handshake.Theorems.Completes
import Peerc.Handshake.Theorems.Errors
import Peerc.Handshake.Theorems.KeyAgreement
import Peerc.Transport.Basic
import Peerc.Transport.Effect
import Peerc.Transport.Session
import Peerc.Transport.Theorems.Prefix
import Peerc.Transport.Theorems.FailedSend
import Peerc.Transport.Theorems.Nonces
import Peerc.Transport.SecureSession
import Peerc.Transport.Theorems.EndToEnd
import Peerc.Transport.Manager
import Peerc.Transport.Theorems.Latest
import Peerc.Transfer.Receiver
import Peerc.Transfer.Effect
import Peerc.Transfer.Buffered
import Peerc.Transfer.Sender
import Peerc.Transfer.DestPath
import Peerc.Transfer.Resolve
import Peerc.Transfer.Manager
import Peerc.Transfer.Theorems.StateMachine
import Peerc.Transfer.Theorems.Resume
import Peerc.Transfer.Theorems.Limits
import Peerc.Transfer.Theorems.Reoffer
import Peerc.Transfer.Theorems.SafeName
import Peerc.Peer.Manager
import Peerc.Peer.Packet
import Peerc.Peer.Sessions
import Peerc.Peer.ReadLoop
import Peerc.Peer.Theorems.Ownership
import Peerc.Peer.Theorems.Limit
import Peerc.Peer.Theorems.Isolation
import Peerc.Peer.Theorems.Dispatch
import Peerc.Peer.Theorems.WellFormed
import Peerc.Chat.Basic
import Peerc.Chat.Effect
import Peerc.Chat.Theorems.Status
import Peerc.Chat.Exchange
import Peerc.Chat.Theorems.Exchange
import Peerc.Chat.Theorems.Reliable
import Peerc.FileTransfer.Basic
import Peerc.FileTransfer.Effect
import Peerc.FileTransfer.Invariant
import Peerc.FileTransfer.Upload
import Peerc.FileTransfer.Single
import Peerc.FileTransfer.Wire
import Peerc.FileTransfer.Exchange
import Peerc.FileTransfer.Stages
import Peerc.FileTransfer.Joint
import Peerc.FileTransfer.Theorems.Verified
import Peerc.FileTransfer.Theorems.Confined
import Peerc.FileTransfer.Theorems.OneStream
import Peerc.FileTransfer.Theorems.Replies
import Peerc.FileTransfer.Theorems.Receivers
import Peerc.FileTransfer.Theorems.Delivers
import Peerc.FileTransfer.Theorems.InPlace
import Peerc.Vault.RecoveryCode
import Peerc.Vault.Keyfile
import Peerc.Vault.Effect
import Peerc.Vault.Theorems.RoundTrip
import Peerc.Vault.Theorems.Checksum
import Peerc.Vault.Theorems.OneSpelling
import Peerc.Vault.Theorems.Lock
import Peerc.Discovery.Registry
import Peerc.Discovery.Packet
import Peerc.Discovery.Mdns
import Peerc.Discovery.Effect
import Peerc.Discovery.Theorems.Registry
import Peerc.Discovery.Theorems.Mdns
import Peerc.Discovery.Network
import Peerc.Discovery.Theorems.Network
import Peerc.Events.Bus
import Peerc.Events.Theorems.Delivery
