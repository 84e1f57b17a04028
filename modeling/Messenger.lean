import Messenger.Lib.Word
import Messenger.Lib.Reader
import Messenger.Lib.Stream
import Messenger.Lib.Table
import Messenger.Lib.Bijection
import Messenger.Lib.Chunks
import Messenger.Lib.Action
import Messenger.Lib.Concat
import Messenger.Lib.Exchange
import Messenger.Lib.Interleaving
import Messenger.Lib.Fifo
import Messenger.Lib.Fields
import Messenger.Lib.Run
import Messenger.Lib.Patch
import Messenger.Lib.Index
import Messenger.Lib.History
import Messenger.Lib.Depends
import Messenger.Lib.Wired
import Messenger.Model.Base
import Messenger.Model.Message
import Messenger.Model.Framing
import Messenger.Model.Transport
import Messenger.Model.Interest
import Messenger.Model.Command
import Messenger.Model.Parser
import Messenger.Model.Services
import Messenger.Model.Server
import Messenger.Model.Crypto
import Messenger.Model.Queue
import Messenger.Model.Ring
import Messenger.Model.Client
import Messenger.Model.Conversation
import Messenger.Model.Threads
import Messenger.Model.EventLoop
import Messenger.Model.ClientLoop
import Messenger.Model.Identity
import Messenger.Model.Datagram
import Messenger.Model.Peer
import Messenger.Model.MessagingPeer
import Messenger.Model.PeerNetwork
import Messenger.Model.Network
import Messenger.Spec.Wire
import Messenger.Spec.Lobby
import Messenger.Spec.Conversation
import Messenger.Spec.Transfer
import Messenger.Proof.Wire.Fields
import Messenger.Proof.Wire.Decode
import Messenger.Proof.Wire.Encode
import Messenger.Proof.Wire.Relay
import Messenger.Proof.Wire.Mutation
import Messenger.Proof.Wire.Command
import Messenger.Proof.Framing
import Messenger.Proof.Transport
import Messenger.Proof.Datagram
import Messenger.Proof.Flush
import Messenger.Proof.Interest
import Messenger.Proof.Server.Changes
import Messenger.Proof.Server.Requests
import Messenger.Proof.Server.Lobby
import Messenger.Proof.Server.Access
import Messenger.Proof.Server.Directory
import Messenger.Proof.Server.Bytes
import Messenger.Proof.Server.Broadcast
import Messenger.Proof.Server.Leaving
import Messenger.Proof.Server.Replies
import Messenger.Proof.Server.Footprint
import Messenger.Proof.Server.Commute
import Messenger.Proof.Server.Services
import Messenger.Proof.Server.Recipients
import Messenger.Proof.Server.Rooms
import Messenger.Proof.EventLoop.Handlers
import Messenger.Proof.EventLoop.Tables
import Messenger.Proof.EventLoop.Receive
import Messenger.Proof.EventLoop.Deeds
import Messenger.Proof.EventLoop.Application
import Messenger.Proof.EventLoop.Log
import Messenger.Proof.EventLoop.Writing
import Messenger.Proof.Peer.Registry
import Messenger.Proof.Peer.Events
import Messenger.Proof.Peer.Writing
import Messenger.Proof.Peer.Received
import Messenger.Proof.Peer.Names
import Messenger.Proof.Peer.Framed
import Messenger.Proof.Peer.Said
import Messenger.Proof.Peer.Lines
import Messenger.Proof.Peer.Network
import Messenger.Proof.Peer.Handshake
import Messenger.Proof.Parser.Tokens
import Messenger.Proof.Parser.Catalog
import Messenger.Proof.Parser.Text
import Messenger.Proof.Parser.Struct
import Messenger.Proof.Parser.Parse
import Messenger.Proof.Client.Handling
import Messenger.Proof.Client.Replay
import Messenger.Proof.Client.Trust
import Messenger.Proof.Client.Writes
import Messenger.Proof.Client.Bounds
import Messenger.Proof.Client.ChunkReplay
import Messenger.Proof.Client.Commands
import Messenger.Proof.Client.Lines
import Messenger.Proof.Client.Queue
import Messenger.Proof.Client.Ring
import Messenger.Proof.Client.RingThreads
import Messenger.Proof.Client.Salt
import Messenger.Proof.Client.Crypto
import Messenger.Proof.Client.Sending
import Messenger.Proof.Client.KeyResponse
import Messenger.Proof.Client.Threads
import Messenger.Proof.Client.Session
import Messenger.Proof.Client.Identity
import Messenger.Proof.Conversation.Packets
import Messenger.Proof.Conversation.Server
import Messenger.Proof.Conversation.Client
import Messenger.Proof.Conversation.Simulation
import Messenger.Proof.Conversation.Counters
import Messenger.Proof.Logins
import Messenger.Proof.Transfer.Clients
import Messenger.Proof.Transfer.Delivery
import Messenger.Proof.Transfer.Concurrent
