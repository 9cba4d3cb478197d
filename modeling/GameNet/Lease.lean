import GameNet.Lib.KeyedMap
import GameNet.Lib.RustInt
import GameNet.HostSource
import GameNet.Token

/-!
# GameNet.Lease

The relay's lease table (`crates/server/src/lease.rs`). A claim is a table entry: a token's
fingerprint as the key and a `Lease` that reserves one public port, `active` while the host is
connected and `grace` until a deadline after that.

Every operation takes the table and returns its result together with the table it leaves, also
when the result is an error: most operations drop the expired leases before they check anything.
`endSession` is the source's `end`.
-/

namespace GameNet

def portStart : UInt16 := 10000
def portEnd : UInt16 := 10999
def maxTunnelsPerIp : Nat := 2
def graceMs : UInt64 := 300000
def maxRetiredIdentities : Nat := 8

structure SessionId where
  value : UInt64
deriving DecidableEq

inductive RotationResult where
  | transferred (port : UInt16)
  | unchanged (port : Option UInt16)
deriving DecidableEq

def RotationResult.port : RotationResult → Option UInt16
  | .transferred port => some port
  | .unchanged port => port

structure LeaseRecord where
  tokenId : TokenId
  retiredTokenIds : List TokenId
  recoveryId : Option TokenId
  port : UInt16
  lastIp : Option IpAddr
  expiresAtMs : UInt64
deriving DecidableEq

inductive LeaseStatus where
  | active (sessionId : SessionId)
  | grace (expiresAtMs : UInt64)
deriving DecidableEq

structure Lease where
  port : UInt16
  lastIp : Option IpAddr
  retiredTokenIds : List TokenId
  recoveryId : Option TokenId
  status : LeaseStatus
deriving DecidableEq

structure LeaseTable where
  leases : KeyedMap TokenId Lease
  nextSessionId : UInt64

structure RecoveryResult where
  port : UInt16
  displaced : Option (TokenId × SessionId)
  changed : Bool
deriving DecidableEq

inductive LeaseError where
  | claimRotated
  | alreadyActive
  | poolExhausted
  | portUnavailable
  | recoveryKeyOwned
  | recoveryKeyMismatch
  | sessionExhausted
  | sameIdentity
  | newOwnsClaim
  | newRotated
  | oldRotated
  | stillActive
  | rotatedOnce
  | noMatchingClaim
  | newRetired
  | tooManyTunnels (peerIp : IpAddr)
  | tooManyLeases
  | invalidPort
  | duplicatePort
  | duplicateToken
  | duplicateRecovery
  | tooManyRetired
  | retiresItself
  | duplicateRetired
  | activeRetiredOverlap

def LeaseError.message : LeaseError → String
  | .claimRotated => "This identity's port claim has been rotated"
  | .alreadyActive => "This identity already has an active tunnel"
  | .poolExhausted => "Port pool exhausted"
  | .portUnavailable => "Port is not available to this identity"
  | .recoveryKeyOwned => "Recovery key already owns another port claim"
  | .recoveryKeyMismatch => "Recovery key does not match this port claim"
  | .sessionExhausted => "Session ID exhausted"
  | .sameIdentity => "New identity must differ from old identity"
  | .newOwnsClaim => "New identity already owns a port claim"
  | .newRotated => "New identity was previously rotated"
  | .oldRotated => "Old identity's port claim was already rotated to another token"
  | .stillActive => "Stop the active host tunnel before rotating its identity"
  | .rotatedOnce => "This port claim has already been rotated once"
  | .noMatchingClaim => "No live port claim matches this recovery key"
  | .newRetired => "New identity was previously retired"
  | .tooManyTunnels peerIp =>
    "Too many tunnels from " ++ peerIp.toText ++ " (max " ++ toString maxTunnelsPerIp ++ ")"
  | .tooManyLeases => "Too many leases"
  | .invalidPort => "Invalid lease port"
  | .duplicatePort => "Duplicate lease port"
  | .duplicateToken => "Duplicate token ID"
  | .duplicateRecovery => "Duplicate recovery key fingerprint"
  | .tooManyRetired => "Too many retired identities"
  | .retiresItself => "Identity cannot retire itself"
  | .duplicateRetired => "Duplicate retired token ID"
  | .activeRetiredOverlap => "Active and retired token overlap"

/-- `lease.last_ip.map(HostSource::from)`: the source the lease is charged to. -/
def Lease.source (lease : Lease) : Option HostSource := lease.lastIp.map HostSource.ofIp

/-- The test of `reap_expired`: a grace lease whose deadline has come. -/
def Lease.expired (now : UInt64) (lease : Lease) : Bool :=
  match lease.status with
  | .active _ => false
  | .grace expiresAtMs => decide (expiresAtMs ≤ now)

/-- The deadline `snapshot` writes. -/
def Lease.savedDeadline (now : UInt64) (lease : Lease) : UInt64 :=
  match lease.status with
  | .active _ => now.saturatingAdd graceMs
  | .grace expiresAtMs => expiresAtMs

def portPool : List UInt16 :=
  (List.range' portStart.toNat (portEnd.toNat - portStart.toNat + 1)).map UInt16.ofNat

namespace LeaseTable

def new : LeaseTable := ⟨∅, 0⟩

def reapExpired (t : LeaseTable) (now : UInt64) : LeaseTable :=
  { t with leases := t.leases.retain fun _ lease => !lease.expired now }

/-- Some lease of the table lists `tokenId` as retired. -/
def isRetired (t : LeaseTable) (tokenId : TokenId) : Bool :=
  t.leases.values.any fun lease => lease.retiredTokenIds.contains tokenId

def sourceCount (t : LeaseTable) (source : HostSource) : Nat :=
  t.leases.values.countP fun lease => lease.source == some source

def checkIpQuota (t : LeaseTable) (peerIp : IpAddr) (alreadyCounted : Bool) :
    Except LeaseError Unit :=
  let count := t.sourceCount (HostSource.ofIp peerIp)
  if alreadyCounted || decide (count < maxTunnelsPerIp) then .ok ()
  else .error (.tooManyTunnels peerIp)

/-- The ports of the pool that no lease holds, in ascending order. -/
def freePorts (t : LeaseTable) : List UInt16 :=
  let occupied := t.leases.values.map fun lease => lease.port
  portPool.filter fun port => !occupied.contains port

/-- What `candidate_ports` computes once the expired leases are gone. -/
def offer (t : LeaseTable) (tokenId : TokenId) (peerIp : IpAddr) :
    Except LeaseError (List UInt16) :=
  if t.isRetired tokenId then .error .claimRotated
  else
    match t.leases.lookup tokenId with
    | some lease =>
      match lease.status with
      | .active _ => .error .alreadyActive
      | .grace _ =>
        match t.checkIpQuota peerIp (lease.source == some (HostSource.ofIp peerIp)) with
        | .error e => .error e
        | .ok () => .ok [lease.port]
    | none =>
      match t.checkIpQuota peerIp false with
      | .error e => .error e
      | .ok () => if t.freePorts.isEmpty then .error .poolExhausted else .ok t.freePorts

def candidatePorts (t : LeaseTable) (tokenId : TokenId) (peerIp : IpAddr) (now : UInt64) :
    Except LeaseError (List UInt16) × LeaseTable :=
  let t := t.reapExpired now
  (t.offer tokenId peerIp, t)

/-- A lease other than `tokenId`'s is enrolled with the presented recovery key. -/
def recoveryKeyOwned (t : LeaseTable) (tokenId : TokenId) (recoveryId : Option TokenId) : Bool :=
  match recoveryId with
  | none => false
  | some recoveryId =>
    t.leases.entries.any fun e => e.1 != tokenId && e.2.recoveryId == some recoveryId

/-- The lease is enrolled with another recovery key than the presented one. -/
def recoveryKeyMismatch (existing : Option Lease) (recoveryId : Option TokenId) : Bool :=
  match existing.bind Lease.recoveryId, recoveryId with
  | some enrolled, some presented => enrolled != presented
  | _, _ => false

def activateWithRecovery (t : LeaseTable) (tokenId : TokenId) (recoveryId : Option TokenId)
    (peerIp : IpAddr) (port : UInt16) (now : UInt64) : Except LeaseError SessionId × LeaseTable :=
  match t.candidatePorts tokenId peerIp now with
  | (.error e, t) => (.error e, t)
  | (.ok ports, t) =>
    if !ports.contains port then (.error .portUnavailable, t)
    else if t.recoveryKeyOwned tokenId recoveryId then (.error .recoveryKeyOwned, t)
    else
      let existing := t.leases.lookup tokenId
      if recoveryKeyMismatch existing recoveryId then (.error .recoveryKeyMismatch, t)
      else
        match t.nextSessionId.checkedAdd 1 with
        | none => (.error .sessionExhausted, t)
        | some nextSessionId =>
          let lease : Lease :=
            { port := port
              lastIp := some peerIp
              retiredTokenIds := (existing.map Lease.retiredTokenIds).getD []
              recoveryId := (existing.bind Lease.recoveryId).or recoveryId
              status := .active ⟨nextSessionId⟩ }
          (.ok ⟨nextSessionId⟩,
            { leases := t.leases.insert tokenId lease, nextSessionId := nextSessionId })

def endSession (t : LeaseTable) (tokenId : TokenId) (sessionId : SessionId) (now : UInt64) :
    Bool × LeaseTable :=
  match t.leases.lookup tokenId with
  | none => (false, t)
  | some lease =>
    if lease.status = .active sessionId then
      (true,
        { t with
          leases := t.leases.insert tokenId
            { lease with status := .grace (now.saturatingAdd graceMs) } })
    else (false, t)

/-- Remove the entry of `old` and insert `lease` under `new`. -/
def moveClaim (t : LeaseTable) (old new : TokenId) (lease : Lease) : LeaseTable :=
  { t with leases := (t.leases.erase old).insert new lease }

def rotateClaim (t : LeaseTable) (old new : TokenId) (now : UInt64) :
    Except LeaseError RotationResult × LeaseTable :=
  let t := t.reapExpired now
  if old = new then (.error .sameIdentity, t)
  else
    match t.leases.lookup new with
    | some lease =>
      if lease.retiredTokenIds.contains old then (.ok (.unchanged (some lease.port)), t)
      else (.error .newOwnsClaim, t)
    | none =>
      if t.isRetired new then (.error .newRotated, t)
      else if t.isRetired old then (.error .oldRotated, t)
      else
        match t.leases.lookup old with
        | none => (.ok (.unchanged none), t)
        | some lease =>
          match lease.status with
          | .active _ => (.error .stillActive, t)
          | .grace _ =>
            if lease.retiredTokenIds.isEmpty then
              (.ok (.transferred lease.port),
                t.moveClaim old new
                  { lease with retiredTokenIds := lease.retiredTokenIds ++ [old] })
            else (.error .rotatedOnce, t)

/-- `old` is pushed onto the retired list; past the cap the oldest entry is dropped. -/
def retire (retired : List TokenId) (old : TokenId) : List TokenId :=
  let retired := retired ++ [old]
  if maxRetiredIdentities < retired.length then retired.tail else retired

def recoverClaim (t : LeaseTable) (recoveryId new : TokenId) (peerIp : IpAddr) (now : UInt64) :
    Except LeaseError RecoveryResult × LeaseTable :=
  let t := t.reapExpired now
  match t.leases.find? fun _ lease => lease.recoveryId == some recoveryId with
  | none => (.error .noMatchingClaim, t)
  | some (old, lease) =>
    if old = new then (.ok { port := lease.port, displaced := none, changed := false }, t)
    else if new ∈ t.leases then (.error .newOwnsClaim, t)
    else if t.isRetired new then (.error .newRetired, t)
    else
      match t.checkIpQuota peerIp (lease.source == some (HostSource.ofIp peerIp)) with
      | .error e => (.error e, t)
      | .ok () =>
        let displaced :=
          match lease.status with
          | .active sessionId => some (old, sessionId)
          | .grace _ => none
        (.ok { port := lease.port, displaced := displaced, changed := true },
          t.moveClaim old new
            { lease with
              status := .grace (now.saturatingAdd graceMs)
              lastIp := some peerIp
              retiredTokenIds := retire lease.retiredTokenIds old })

/-! ## Saving and loading -/

def snapshot (t : LeaseTable) (now : UInt64) : List LeaseRecord :=
  t.leases.entries.map fun e =>
    { tokenId := e.1
      retiredTokenIds := e.2.retiredTokenIds
      recoveryId := e.2.recoveryId
      port := e.2.port
      lastIp := e.2.lastIp
      expiresAtMs := e.2.savedDeadline now }

end LeaseTable

/-- The lease a saved record is loaded as. -/
def LeaseRecord.toLease (record : LeaseRecord) : Lease :=
  { port := record.port
    lastIp := record.lastIp
    retiredTokenIds := record.retiredTokenIds
    recoveryId := record.recoveryId
    status := .grace record.expiresAtMs }

namespace LeaseTable

/-- The table under construction in `restore` and the sets it checks for duplicates, as lists in
the order of insertion. -/
structure Restoring where
  table : LeaseTable
  ports : List UInt16
  tokens : List TokenId
  retired : List TokenId
  recoveryIds : List TokenId

/-- The inner loop of `restore`, over the retired ids of the record of `tokenId`. -/
def restoreRetired (tokenId : TokenId) :
    List TokenId → List TokenId → Except LeaseError (List TokenId)
  | retired, [] => .ok retired
  | retired, old :: rest =>
    if old = tokenId then .error .retiresItself
    else if retired.contains old then .error .duplicateRetired
    else restoreRetired tokenId (retired ++ [old]) rest

/-- One pass of the loop of `restore`. -/
def restoreRecord (now : UInt64) (s : Restoring) (record : LeaseRecord) :
    Except LeaseError Restoring :=
  if ¬(portStart ≤ record.port ∧ record.port ≤ portEnd) then .error .invalidPort
  else if s.ports.contains record.port then .error .duplicatePort
  else if s.tokens.contains record.tokenId then .error .duplicateToken
  else if record.recoveryId.any s.recoveryIds.contains then .error .duplicateRecovery
  else if maxRetiredIdentities < record.retiredTokenIds.length then .error .tooManyRetired
  else
    match restoreRetired record.tokenId s.retired record.retiredTokenIds with
    | .error e => .error e
    | .ok retired =>
      .ok
        { table :=
            if record.expiresAtMs ≤ now then s.table
            else
              { s.table with leases := s.table.leases.insert record.tokenId record.toLease }
          ports := s.ports ++ [record.port]
          tokens := s.tokens ++ [record.tokenId]
          retired := retired
          recoveryIds := s.recoveryIds ++ record.recoveryId.toList }

def restoreRecords (now : UInt64) : Restoring → List LeaseRecord → Except LeaseError Restoring
  | s, [] => .ok s
  | s, record :: rest =>
    match restoreRecord now s record with
    | .error e => .error e
    | .ok s => restoreRecords now s rest

def restore (records : List LeaseRecord) (now : UInt64) : Except LeaseError LeaseTable :=
  if (portEnd - portStart + 1).toNat < records.length then .error .tooManyLeases
  else
    match restoreRecords now ⟨new, [], [], [], []⟩ records with
    | .error e => .error e
    | .ok s =>
      if s.tokens.any s.retired.contains then .error .activeRetiredOverlap else .ok s.table

end LeaseTable
end GameNet
