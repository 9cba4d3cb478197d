import GameNet.Lib.KeyedMap
import GameNet.Lib.Trace
import GameNet.Lib.RustInt
import GameNet.HostSource
import GameNet.Token
import GameNet.Lease
import GameNet.LeaseSpec
import GameNet.LeaseInv
import GameNet.LeaseRestore
import GameNet.LeaseSame
import GameNet.LeaseRun
import GameNet.Claim
import GameNet.PortLife
import GameNet.Recovery
import GameNet.Revoked
import GameNet.Restart
import GameNet.Hex
import GameNet.LeaseStore
import GameNet.ServerState
import GameNet.Durability
import GameNet.Protocol
import GameNet.Registration
import GameNet.Lib.Program
import GameNet.Identity
import GameNet.Commands
import GameNet.Clients
import GameNet.Machine
import GameNet.LeaseOrigin
import GameNet.KeyRing
import GameNet.Fleet
import GameNet.Rerun
import GameNet.Custody
import GameNet.Quota
import GameNet.Locality
import GameNet.Rotation
import GameNet.Lib.Serial
import GameNet.Serving
import GameNet.Registry
import GameNet.Atomicity
import GameNet.Lib.Bincode
import GameNet.Lib.ByteStream
import GameNet.Message
import GameNet.Lib.Json
import GameNet.StateText
import GameNet.Credential
import GameNet.StoreFiles
import GameNet.Startup
import GameNet.Legacy
import GameNet.Migration
import GameNet.HexText
import GameNet.PortScan
import GameNet.StateCodec
import GameNet.Lib.Semaphore
import GameNet.HostAdmission
import GameNet.PlayerSlots
import GameNet.SystemCalls
import GameNet.FirstUse
import GameNet.Lib.TryJoin
import GameNet.Bridge
import GameNet.Linearized
import GameNet.LockProgress
import GameNet.SessionPort
import GameNet.PublicPorts
import GameNet.Passage
import GameNet.FromQuic
import GameNet.Exchange
import GameNet.Conversation
import GameNet.Privacy
import GameNet.TunnelPair
import GameNet.WindDown
import GameNet.Hosting
import GameNet.Network
import GameNet.Lib.Framing
import GameNet.Wire
import GameNet.WireTunnel
