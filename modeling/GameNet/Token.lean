import Mathlib.Data.Vector.Basic

/-!
# GameNet.Token

Bearer tokens and their fingerprints. A host keeps its 32-byte `TunnelToken`; the relay keeps
only the token's SHA-256 digest, a `TokenId`. The digest function is a parameter of everything
that hashes.
-/

namespace GameNet

/-- `[u8; 32]` -/
abbrev Bytes32 := List.Vector UInt8 32

abbrev TunnelToken := Bytes32

structure TokenId where
  bytes : Bytes32
deriving DecidableEq

def TokenId.fromToken (sha256 : Bytes32 → Bytes32) (token : TunnelToken) : TokenId :=
  ⟨sha256 token⟩

/-- The fingerprint whose 32 bytes are all `byte`, for runs on concrete tokens. -/
def TokenId.filled (byte : UInt8) : TokenId := ⟨.replicate 32 byte⟩

end GameNet
