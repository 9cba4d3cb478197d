import GameNet.ServerState
import GameNet.StateText
import Mathlib.Order.Bounds.Defs

/-!
# GameNet.PortScan

The port a registration gets when other programs hold some of the ports.

`register_with_recovery` asks the table for the candidates, tries them in order and checks the
one that could be bound a second time, when the lease is made. A token with a lease in grace has
one candidate, the port of that lease; any other token has all ports of the pool that no live
lease holds. The two never mix: `scan_ports`.
-/

namespace GameNet

namespace LeaseTable

variable {t : LeaseTable} {tokenId : TokenId} {peerIp : IpAddr} {now : UInt64} {port : UInt16}
  {presented : Option TokenId} {ports : List UInt16} {lease : Lease}

theorem portPool_sorted : portPool.Pairwise (· < ·) := by
  refine List.pairwise_map.mpr (List.Pairwise.imp_of_mem ?_ List.pairwise_lt_range')
  intro a b ha hb hlt
  rw [List.mem_range'_1] at ha hb
  have hs : portStart.toNat = 10000 := rfl
  have he : portEnd.toNat = 10999 := rfl
  have hsize : UInt16.size = 65536 := rfl
  rw [UInt16.lt_iff_toNat_lt, UInt16.toNat_ofNat_of_lt' (by omega),
    UInt16.toNat_ofNat_of_lt' (by omega)]
  exact hlt

theorem freePorts_sorted : t.freePorts.Pairwise (· < ·) := by
  unfold freePorts
  exact portPool_sorted.filter _

/-- What is offered to a token with a lease is the port of that lease. -/
theorem offer_reserved (hl : t.leases.lookup tokenId = some lease)
    (ho : t.offer tokenId peerIp = .ok ports) :
    (∃ deadline, lease.status = .grace deadline) ∧ ports = [lease.port] := by
  obtain ⟨-, ⟨lease', e, hl', hs, -, rfl⟩ | ⟨hn, -⟩⟩ := offer_eq_ok.mp ho
  · rw [hl] at hl'
    cases hl'
    exact ⟨⟨e, hs⟩, rfl⟩
  · rw [hl] at hn
    cases hn

/-- What is offered to a token without a lease is every free port. -/
theorem offer_fresh (hl : t.leases.lookup tokenId = none)
    (ho : t.offer tokenId peerIp = .ok ports) : ports = t.freePorts := by
  obtain ⟨-, ⟨lease, e, hl', -⟩ | ⟨-, -, -, rfl⟩⟩ := offer_eq_ok.mp ho
  · rw [hl] at hl'
    cases hl'
  · rfl

/-- The second check lets every offered port pass: what can still fail is the recovery key, or
the session counter. -/
theorem activate_offered {e : LeaseError}
    (ho : (t.reapExpired now).offer tokenId peerIp = .ok ports) (hp : port ∈ ports)
    (h : (t.activateWithRecovery tokenId presented peerIp port now).1 = .error e) :
    e = .recoveryKeyOwned ∨ e = .recoveryKeyMismatch ∨ e = .sessionExhausted := by
  have hp : ports.contains port = true := List.contains_iff_mem.mpr hp
  simp only [activateWithRecovery, candidatePorts_eq, ho, hp, Bool.not_true, Bool.false_eq_true,
    if_false] at h
  split at h
  · cases h
    exact .inl rfl
  · split at h
    · cases h
      exact .inr (.inl rfl)
    · split at h
      · cases h
        exact .inr (.inr rfl)
      · cases h

end LeaseTable

namespace ServerState

open LeaseTable

variable {Conn : Type} {J : SerdeJson} {sha256 : Bytes32 → Bytes32} {s s' : ServerState Conn}
  {token : TunnelToken} {tokenId : TokenId} {recoveryId : Option TokenId} {key : Option Bytes32}
  {peerIp : IpAddr} {now : UInt64} {connection : Option Conn} {bind : UInt16 → BindOutcome}
  {io : SaveOutcome} {port : UInt16} {live after : LeaseTable}

/-- The ports that a host without a lease could get: in the pool, held by no live lease, and not
in use. -/
def Available (live : LeaseTable) (bind : UInt16 → BindOutcome) (port : UInt16) : Prop :=
  (portStart ≤ port ∧ port ≤ portEnd) ∧ ¬live.Occupied port ∧ bind port ≠ .addrInUse

/-- What a registration that is given `port` has done, from the live leases to the leases after
it. -/
structure Scans (live : LeaseTable) (tokenId : TokenId) (peerIp : IpAddr)
    (bind : UInt16 → BindOutcome) (port : UInt16) (after : LeaseTable) : Prop where
  bound : bind port = .bound
  held : ∃ lease, after.leases.lookup tokenId = some lease ∧ lease.port = port
  exclusive : ∀ other lease, after.leases.lookup other = some lease → lease.port = port →
    other = tokenId
  reserved : ∀ lease, live.leases.lookup tokenId = some lease →
    (∃ deadline, lease.status = .grace deadline) ∧ port = lease.port
  smallest : live.leases.lookup tokenId = none → IsLeast {q | Available live bind q} port
  tried : ∃ before rest, live.offer tokenId peerIp = .ok (before ++ port :: rest) ∧
    ∀ q ∈ before, bind q = .addrInUse

/-- Nothing before the port that is bound was free and not in use. -/
theorem isLeast_of_scan {before rest : List UInt16}
    (hfree : live.freePorts = before ++ port :: rest)
    (hbefore : ∀ q ∈ before, bind q = .addrInUse) (hbound : bind port = .bound) :
    IsLeast {q | Available live bind q} port := by
  have hsorted := freePorts_sorted (t := live)
  rw [hfree, List.pairwise_append] at hsorted
  obtain ⟨-, hrest, -⟩ := hsorted
  have hmem : port ∈ live.freePorts := by rw [hfree]; simp
  obtain ⟨hpool, hno⟩ := mem_freePorts.mp hmem
  refine ⟨⟨hpool, hno, by rw [hbound]; intro h; cases h⟩, ?_⟩
  rintro q ⟨hq, hnq, huse⟩
  have hq : q ∈ before ++ port :: rest := by rw [← hfree]; exact mem_freePorts.mpr ⟨hq, hnq⟩
  rcases List.mem_append.mp hq with hq | hq
  · exact absurd (hbefore q hq) huse
  · rcases List.mem_cons.mp hq with rfl | hq
    · exact UInt16.le_rfl
    · exact UInt16.le_of_lt (List.rel_of_pairwise_cons hrest hq)

theorem Registers.scans {before rest : List UInt16} {sessionId : SessionId}
    (hw : s.leases.WellFormed)
    (ho : (s.leases.reapExpired now).offer tokenId peerIp = .ok (before ++ port :: rest))
    (hbefore : ∀ q ∈ before, bind q = .addrInUse) (hbound : bind port = .bound)
    (h : s.Registers J tokenId recoveryId peerIp now connection port io sessionId s') :
    Scans (s.leases.reapExpired now) tokenId peerIp bind port s'.leases := by
  obtain ⟨_, he, -⟩ | ⟨id, hid, ha, htable⟩ := activateWithRecovery_cases h.activated
  · cases he
  have hlookup : s'.leases.leases.lookup tokenId =
      some (activeLease ((s.leases.reapExpired now).leases.lookup tokenId) recoveryId peerIp port
        id) := by
    rw [htable]
    rw [KeyedMap.lookup_insert, if_pos rfl]
  have hw' : s'.leases.WellFormed := hw.activateWithRecovery h.activated
  constructor
  · exact hbound
  · exact ⟨_, hlookup, rfl⟩
  · intro other lease hl hp
    exact hw'.portUnique hl hlookup hp
  · intro lease hl
    exact ⟨(offer_reserved hl ho).1, ha.port_eq hl⟩
  · intro hl
    exact isLeast_of_scan (offer_fresh hl ho).symm hbefore hbound
  · exact ⟨before, rest, ho, hbefore⟩

/-- With all candidates in use nothing is registered. -/
theorem registerLoop_inUse {ports : List UInt16} (h : ∀ q ∈ ports, bind q = .addrInUse) :
    s.registerLoop J tokenId recoveryId peerIp now connection bind io ports =
      (.error .noBindablePort, s) := by
  induction ports with
  | nil => rfl
  | cons port rest ih =>
    obtain ⟨hport, hrest⟩ := List.forall_mem_cons.mp h
    simp only [registerLoop, hport]
    exact ih hrest

theorem registerWithRecovery_inUse {ports : List UInt16} (hh : s.persistenceHealthy = true)
    (ho : (s.leases.reapExpired now).offer (.fromToken sha256 token) peerIp = .ok ports)
    (h : ∀ q ∈ ports, bind q = .addrInUse) :
    s.registerWithRecovery J sha256 token key peerIp now connection bind io =
      (.error .noBindablePort, s.reaped now) := by
  have hbegin : s.beginRegistration sha256 token peerIp now = (.ok ports, s.reaped now) := by
    simp only [beginRegistration, hh, Bool.not_true, Bool.false_eq_true, if_false,
      candidatePorts_eq, ho, reaped]
  simp only [registerWithRecovery, hbegin]
  exact registerLoop_inUse h

/-- A registration that fails leaves the live leases as they are. -/
theorem registerWithRecovery_error {e : ServerError} (hh : s.persistenceHealthy = true)
    (h : s.registerWithRecovery J sha256 token key peerIp now connection bind io =
      (.error e, s')) : s'.leases = s.leases.reapExpired now := by
  rcases registerWithRecovery_cases h with
    ⟨-, ⟨hno, -⟩ | rfl | ⟨store, rfl⟩⟩ | ⟨_, _, _, _, -, -, -, -, -, he⟩
  · rw [hh] at hno
    cases hno
  · rfl
  · rfl
  · cases he

/-- **A registration gets its own port, or the first that is free.** One that succeeds was given the
token's own port, if it has a lease in grace, and else the smallest port that is free and not in use;
every port tried before it was in use. If the reserved port is in use, or all candidates are, the
registration fails and the live leases stay as they are. No port that was offered fails the second
check for lack of availability or quota. -/
theorem scan_ports (J : SerdeJson) (sha256 : Bytes32 → Bytes32) (s s' : ServerState Conn)
    (token : TunnelToken) (key : Option Bytes32) (peerIp : IpAddr) (now : UInt64)
    (connection : Option Conn) (bind : UInt16 → BindOutcome) (io : SaveOutcome)
    (answer : Except ServerError Registration) (hh : s.persistenceHealthy = true)
    (hw : s.leases.WellFormed)
    (hr : s.registerWithRecovery J sha256 token key peerIp now connection bind io = (answer, s')) :
    let live := s.leases.reapExpired now
    let tokenId := TokenId.fromToken sha256 token
    (∀ registration, answer = .ok registration →
      Scans live tokenId peerIp bind registration.publicPort s'.leases) ∧
    (∀ lease, live.leases.lookup tokenId = some lease → bind lease.port = .addrInUse →
      (∃ e, answer = .error e) ∧ s'.leases = live ∧
        s'.leases.leases.lookup tokenId = some lease) ∧
    (∀ ports, live.offer tokenId peerIp = .ok ports → (∀ q ∈ ports, bind q = .addrInUse) →
      answer = .error .noBindablePort ∧ s'.leases = live) ∧
    ∀ ports port e, live.offer tokenId peerIp = .ok ports → port ∈ ports →
      (live.activateWithRecovery tokenId (key.map TokenId.mk) peerIp port now).1 = .error e →
      e = .recoveryKeyOwned ∨ e = .recoveryKeyMismatch ∨ e = .sessionExhausted := by
  intro live tokenId
  have hok : ∀ registration, answer = .ok registration →
      Scans live tokenId peerIp bind registration.publicPort s'.leases := by
    rintro registration rfl
    rcases registerWithRecovery_cases hr with
      ⟨⟨_, he⟩, -⟩ | ⟨before, port, rest, sessionId, ho, hbefore, hbound, -, hreg, he⟩
    · cases he
    · cases he
      exact hreg.scans hw ho hbefore hbound
  refine ⟨hok, ?_, ?_, ?_⟩
  · intro lease hl hbusy
    cases answer with
    | ok registration =>
      -- the port would be the reserved one, which could not be bound
      have hs := hok registration rfl
      have hbound := hs.bound
      rw [(hs.reserved lease hl).2, hbusy] at hbound
      cases hbound
    | error e =>
      have hlive := registerWithRecovery_error hh hr
      exact ⟨⟨e, rfl⟩, hlive, by rw [hlive]; exact hl⟩
  · intro ports ho hbusy
    rw [registerWithRecovery_inUse hh ho hbusy] at hr
    cases hr
    exact ⟨rfl, rfl⟩
  · intro ports port e ho hp he
    rw [activateWithRecovery_reapExpired] at he
    exact activate_offered ho hp he

/-! ## Three hosts

The first host has left and waits for its deadline, the second one is connected, and a third one
comes. Other programs have the port of the first host and the first port that is free. -/

def hostToken (n : UInt8) : TunnelToken := .replicate 32 n

def hostId (n : UInt8) : TokenId := .fromToken sampleSha256 (hostToken n)

def hostAddress (n : UInt8) : IpAddr := .v4 ⟨.replicate 4 n⟩

def firstKey : TokenId := .filled 101

def thirdKey : TokenId := .filled 103

def crowdedTable : LeaseTable :=
  let first := (LeaseTable.new.activateWithRecovery (hostId 1) (some firstKey) (hostAddress 1)
    10000 1000).2
  let both := (first.activateWithRecovery (hostId 2) none (hostAddress 2) 10001 1000).2
  (both.endSession (hostId 1) ⟨1⟩ 2000).2

def crowded : ServerState Unit := ⟨crowdedTable, ⟨none, .absent⟩, true, ∅⟩

def otherPrograms (port : UInt16) : BindOutcome :=
  if port = 10000 ∨ port = 10002 then .addrInUse else .bound

/-- The third host has a lease too. -/
def joinedTable : LeaseTable :=
  (crowdedTable.activateWithRecovery (hostId 3) (some thirdKey) (hostAddress 3) 10003 3000).2

/-- `serde_json` on the state that is saved then. -/
def joinedJson : SerdeJson := .printing [savedState (joinedTable.snapshot 3000)]

theorem crowdedTable_wellFormed : crowdedTable.WellFormed :=
  ((wellFormed_new.activateWithRecovery Prod.mk.eta.symm).activateWithRecovery
    Prod.mk.eta.symm).endSession Prod.mk.eta.symm

/-- The first port that the third host is offered is in use, and it gets the next one. -/
theorem register_crowded : ∃ s',
    crowded.registerWithRecovery joinedJson sampleSha256 (hostToken 3) (some thirdKey.bytes)
      (hostAddress 3) 3000 none otherPrograms .saved = (.ok ⟨10003, hostId 3, ⟨3⟩⟩, s') := by
  obtain ⟨rest, hbegin⟩ : ∃ rest, crowded.beginRegistration sampleSha256 (hostToken 3)
      (hostAddress 3) 3000 = (.ok (10002 :: 10003 :: rest), crowded) := ⟨_, rfl⟩
  have hactivate : crowded.leases.activateWithRecovery (hostId 3) (some thirdKey) (hostAddress 3)
      10003 3000 = (.ok ⟨3⟩, joinedTable) := rfl
  have hjoined : joinedTable.WellFormed := crowdedTable_wellFormed.activateWithRecovery hactivate
  have hprint : joinedJson.toVecPretty (savedState (joinedTable.snapshot 3000)) =
      some (savedState (joinedTable.snapshot 3000)).toJson.toBytes :=
    if_pos (List.mem_singleton.mpr rfl)
  have hsave := LeaseStore.save_printed hprint (length_savedState_le (hjoined.snapshot_valid 3000))
    crowded.store .saved
  have htaken : otherPrograms 10002 = .addrInUse := rfl
  have hbound : otherPrograms 10003 = .bound := rfl
  obtain ⟨s', hcommit⟩ : ∃ s', crowded.commitRegistration joinedJson (hostId 3) (some thirdKey)
      (hostAddress 3) 3000 none 10003 .saved = (.ok ⟨10003, hostId 3, ⟨3⟩⟩, s') := by
    simp only [commitRegistration, hactivate, hsave]
    exact ⟨_, rfl⟩
  refine ⟨s', ?_⟩
  simp only [registerWithRecovery, hbegin, registerLoop, htaken, hbound]
  exact hcommit

/-- The third host gets the smallest port that no lease holds and that is not in use. The first one
is refused while its port is in use, and the third one when all ports are; the leases stay. -/
theorem scan_ports_crowded :
    (∃ s' : ServerState Unit,
      Scans crowdedTable (hostId 3) (hostAddress 3) otherPrograms 10003 s'.leases) ∧
    (let back := crowded.registerWithRecovery joinedJson sampleSha256 (hostToken 1)
      (some firstKey.bytes) (hostAddress 1) 3000 none otherPrograms .saved
    (∃ e, back.1 = .error e) ∧ back.2.leases = crowdedTable ∧
      back.2.leases.leases.lookup (hostId 1) =
        some ⟨10000, some (hostAddress 1), [], some firstKey, .grace 302000⟩) ∧
    (let full := crowded.registerWithRecovery joinedJson sampleSha256 (hostToken 3)
      (some thirdKey.bytes) (hostAddress 3) 3000 none (fun _ => .addrInUse) .saved
    full.1 = .error .noBindablePort ∧ full.2.leases = crowdedTable) := by
  obtain ⟨s', hr⟩ := register_crowded
  refine ⟨⟨s', ?_⟩, ?_, ?_⟩
  · exact (scan_ports _ _ _ _ _ _ _ _ _ _ _ _ rfl crowdedTable_wellFormed hr).1 _ rfl
  · obtain ⟨-, hreserved, -⟩ := scan_ports joinedJson sampleSha256 crowded _ (hostToken 1)
      (some firstKey.bytes) (hostAddress 1) 3000 none otherPrograms .saved _ rfl
      crowdedTable_wellFormed Prod.mk.eta.symm
    exact hreserved _ rfl rfl
  · obtain ⟨rest, hoffer⟩ : ∃ rest, crowdedTable.offer (hostId 3) (hostAddress 3) =
        .ok (10002 :: rest) := ⟨_, rfl⟩
    obtain ⟨-, -, hfull, -⟩ := scan_ports joinedJson sampleSha256 crowded _ (hostToken 3)
      (some thirdKey.bytes) (hostAddress 3) 3000 none (fun _ => .addrInUse) .saved _ rfl
      crowdedTable_wellFormed Prod.mk.eta.symm
    exact hfull _ hoffer fun _ _ => rfl

end ServerState
end GameNet
