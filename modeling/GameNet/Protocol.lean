import GameNet.Token

/-!
# GameNet.Protocol

The control messages between a host and the relay (`crates/core/src/protocol.rs`).
-/

namespace GameNet

inductive Protocol where
  | tcp
  | udp
deriving DecidableEq

inductive ControlMessage where
  | register (protocol : Protocol) (localPort : UInt16) (token : TunnelToken) (recoveryId : Bytes32)
  | tunnelReady (publicPort : UInt16)
  | newConnection (streamId : UInt64)
  | error (message : String)
  | rotateIdentity (oldToken newToken : TunnelToken)
  /-- `none` means that the claim had expired. -/
  | identityRotated (publicPort : Option UInt16)
  | recoverIdentity (recoverySecret newToken : TunnelToken)
  | identityRecovered (publicPort : UInt16)
deriving DecidableEq

end GameNet
