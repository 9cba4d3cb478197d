import GameNet.LeaseStore
import GameNet.StateText

/-!
# GameNet.Legacy

Legacy state files list raw tokens with their ports. `migrate_legacy` makes a lease in grace of
each entry (`migratedTable_migrated`), the state that is saved of them fits the limit on the file
(`length_migratedState_le`), and what is loaded of it later is the same leases but for those that
have expired (`restore_migrated`).
-/

namespace GameNet

/-- The entries of a legacy file, with their tokens read, satisfy what the migration asks for. -/
structure LegacyState.Validates (sha256 : Bytes32 → Bytes32) (legacy : LegacyState)
    (entries : List (TunnelToken × UInt16)) : Prop where
  parses : List.Forall₂ (fun text entry => parseHex32 text.1 = .ok entry.1 ∧ text.2 = entry.2)
    legacy.tokenPorts entries
  length : entries.length ≤ 1000
  inRange : ∀ entry ∈ entries, portStart ≤ entry.2 ∧ entry.2 ≤ portEnd
  ports : (entries.map Prod.snd).Nodup
  tokens : (entries.map Prod.fst).Nodup
  injective : Set.InjOn sha256 {token | token ∈ entries.map Prod.fst}

/-- A lease with nothing but its port and its deadline. -/
def bareRecord (tokenId : TokenId) (port : UInt16) (expiresAtMs : UInt64) : LeaseRecord :=
  { tokenId := tokenId, retiredTokenIds := [], recoveryId := none, port := port, lastIp := none
    expiresAtMs := expiresAtMs }

/-- The record of an entry that is migrated at `now`. -/
def legacyRecord (sha256 : Bytes32 → Bytes32) (now : UInt64) (entry : TunnelToken × UInt16) :
    LeaseRecord :=
  bareRecord (.fromToken sha256 entry.1) entry.2 (now.saturatingAdd graceMs)

/-- One lease for each entry, as saved at `savedAt`, if it has not expired `now`. -/
def Migrated (sha256 : Bytes32 → Bytes32) (entries : List (TunnelToken × UInt16))
    (savedAt now : UInt64) (table : LeaseTable) : Prop :=
  ∀ tokenId lease, table.leases.lookup tokenId = some lease ↔
    ∃ entry ∈ entries, tokenId = .fromToken sha256 entry.1 ∧
      now < savedAt.saturatingAdd graceMs ∧
      lease = { port := entry.2, lastIp := none, retiredTokenIds := [], recoveryId := none
                status := .grace (savedAt.saturatingAdd graceMs) }

namespace LegacyState

variable {sha256 : Bytes32 → Bytes32} {legacy : LegacyState}
  {entries : List (TunnelToken × UInt16)} {now savedAt : UInt64} {table : LeaseTable}

/-- The loop of `migrate_legacy` on entries that parse, with the ports and tokens it has seen. -/
theorem legacyRecords_ok {texts : List (String × UInt16)}
    (hparse : List.Forall₂ (fun text entry => parseHex32 text.1 = .ok entry.1 ∧ text.2 = entry.2)
      texts entries)
    (hrange : ∀ entry ∈ entries, portStart ≤ entry.2 ∧ entry.2 ≤ portEnd) :
    ∀ {ports : List UInt16} {tokens : List Bytes32}, (ports ++ entries.map Prod.snd).Nodup →
      (tokens ++ entries.map Prod.fst).Nodup →
      LeaseStore.legacyRecords sha256 now ports tokens texts =
        .ok (entries.map (legacyRecord sha256 now)) := by
  induction hparse with
  | nil =>
    intro ports tokens _ _
    rfl
  | @cons text entry texts entries hhead _ ih =>
    intro ports tokens hports htokens
    obtain ⟨hex, port⟩ := text
    obtain ⟨token, _⟩ := entry
    obtain ⟨hhex, rfl⟩ := hhead
    obtain ⟨hport, hrange⟩ := List.forall_mem_cons.mp hrange
    have hnewPort : ¬port ∈ ports := by
      intro hm
      exact (List.nodup_append.mp hports).2.2 port hm port List.mem_cons_self rfl
    have hnewToken : ¬token ∈ tokens := by
      intro hm
      exact (List.nodup_append.mp htokens).2.2 token hm token List.mem_cons_self rfl
    rw [List.map_cons, List.append_cons] at hports htokens
    dsimp only at hhex hport hports htokens
    simp only [LeaseStore.legacyRecords, hport, and_self, not_true_eq_false, if_false, hhex,
      List.contains_iff_mem, hnewPort, hnewToken, ih hrange hports htokens]
    rfl

namespace Validates

theorem valid (h : legacy.Validates sha256 entries) (now : UInt64) :
    LeaseTable.Valid (entries.map (legacyRecord sha256 now)) := by
  have hnone : ∀ f : LeaseRecord → List TokenId, (∀ entry, f (legacyRecord sha256 now entry) = []) →
      ((entries.map (legacyRecord sha256 now)).flatMap f).Nodup := by
    intro f hf
    rw [List.flatMap_map, List.flatMap_eq_nil_iff.mpr fun entry _ => hf entry]
    exact List.nodup_nil
  have htokens : ((entries.map Prod.fst).map (TokenId.fromToken sha256)).Nodup := by
    refine h.tokens.map_on fun token hm token' hm' he => ?_
    exact h.injective hm hm' (congrArg TokenId.bytes he)
  constructor
  · rw [List.length_map]
    exact h.length
  · intro record hrecord
    obtain ⟨entry, hentry, rfl⟩ := List.mem_map.mp hrecord
    exact ⟨h.inRange entry hentry, Nat.zero_le _, List.not_mem_nil⟩
  · rw [← List.map_eq_flatMap, List.map_map]
    exact h.ports
  · rw [← List.map_eq_flatMap, List.map_map]
    rwa [List.map_map] at htokens
  · exact hnone _ fun _ => rfl
  · exact hnone _ fun _ => rfl
  · intro record _ record' hrecord'
    obtain ⟨entry, _, rfl⟩ := List.mem_map.mp hrecord'
    exact List.not_mem_nil

/-- A validated file is migrated. -/
theorem migrateLegacy (h : legacy.Validates sha256 entries) (now : UInt64) :
    LeaseStore.migrateLegacy sha256 legacy now =
      .ok (LeaseTable.load now .new (entries.map (legacyRecord sha256 now))) := by
  have hlen : ¬1000 < legacy.tokenPorts.length := by
    rw [h.parses.length_eq]
    exact Nat.not_lt.mpr h.length
  have hrecords : LeaseStore.legacyRecords sha256 now [] [] legacy.tokenPorts =
      .ok (entries.map (legacyRecord sha256 now)) :=
    legacyRecords_ok h.parses h.inRange h.ports h.tokens
  have hrestore : LeaseTable.restore (entries.map (legacyRecord sha256 now)) now =
      .ok (LeaseTable.load now .new (entries.map (legacyRecord sha256 now))) :=
    LeaseTable.restore_eq_ok.mpr ⟨h.valid now, rfl⟩
  simp only [LeaseStore.migrateLegacy, hlen, if_false, hrecords, hrestore]

end Validates

end LegacyState

/-! ## The table and the state it is saved as -/

section table

variable {J : SerdeJson} {sha256 : Bytes32 → Bytes32} {legacy : LegacyState}
  {entries : List (TunnelToken × UInt16)} {now savedAt : UInt64} {table : LeaseTable}
  {record : LeaseRecord} {records : List LeaseRecord}

/-- What `migrate_legacy` returns (`migrateLegacy`). -/
def migratedTable (sha256 : Bytes32 → Bytes32) (entries : List (TunnelToken × UInt16))
    (now : UInt64) : LeaseTable :=
  LeaseTable.load now .new (entries.map (legacyRecord sha256 now))

/-- The state that is saved by a migration at `now`. -/
def migratedState (sha256 : Bytes32 → Bytes32) (entries : List (TunnelToken × UInt16))
    (now : UInt64) : PersistedV2 :=
  savedState ((migratedTable sha256 entries now).snapshot now)

/-- Entries have leases of their own. -/
theorem migratedTable_migrated (h : legacy.Validates sha256 entries) (now : UInt64) :
    Migrated sha256 entries now now (migratedTable sha256 entries now) := by
  intro tokenId lease
  rw [migratedTable, LeaseTable.lookup_load_new (h.valid now).tokens]
  constructor
  · rintro ⟨record, hrecord, rfl, hlt, rfl⟩
    obtain ⟨entry, hentry, rfl⟩ := List.mem_map.mp hrecord
    exact ⟨entry, hentry, rfl, hlt, rfl⟩
  · rintro ⟨entry, hentry, rfl, hlt, rfl⟩
    exact ⟨_, List.mem_map_of_mem hentry, rfl, hlt, rfl⟩

/-- A snapshot has the entries' records, whenever it is taken. -/
theorem Migrated.mem_snapshot (h : Migrated sha256 entries savedAt now table) (at_ : UInt64) :
    record ∈ table.snapshot at_ ↔
      now < savedAt.saturatingAdd graceMs ∧
        ∃ entry ∈ entries, record = legacyRecord sha256 savedAt entry := by
  rw [LeaseTable.mem_snapshot]
  constructor
  · rintro ⟨tokenId, lease, hl, rfl⟩
    obtain ⟨entry, hentry, rfl, hlt, rfl⟩ := (h tokenId lease).mp hl
    exact ⟨hlt, entry, hentry, rfl⟩
  · rintro ⟨hlt, entry, hentry, rfl⟩
    exact ⟨_, _, (h _ _).mpr ⟨entry, hentry, rfl, hlt, rfl⟩, rfl⟩

/-- What was saved at `savedAt` is loaded `now`, but for the leases that have expired. -/
theorem restore_migrated (h : legacy.Validates sha256 entries) (hle : savedAt ≤ now)
    (hr : records.Perm ((migratedTable sha256 entries savedAt).snapshot savedAt)) :
    ∃ table, LeaseTable.restore records now = .ok table ∧
      Migrated sha256 entries savedAt now table := by
  have hmigrated := migratedTable_migrated h savedAt
  have hvalid : LeaseTable.Valid records :=
    ((h.valid savedAt).wellFormed.snapshot_valid savedAt).perm hr.symm
  refine ⟨_, LeaseTable.restore_eq_ok.mpr ⟨hvalid, rfl⟩, fun tokenId lease => ?_⟩
  rw [LeaseTable.lookup_load_new hvalid.tokens]
  constructor
  · rintro ⟨record, hrecord, rfl, hlt, rfl⟩
    obtain ⟨-, entry, hentry, rfl⟩ := (hmigrated.mem_snapshot savedAt).mp (hr.mem_iff.mp hrecord)
    exact ⟨entry, hentry, rfl, hlt, rfl⟩
  · rintro ⟨entry, hentry, rfl, hlt, rfl⟩
    refine ⟨legacyRecord sha256 savedAt entry, hr.mem_iff.mpr ?_, rfl, hlt, rfl⟩
    refine (hmigrated.mem_snapshot savedAt).mpr ⟨?_, entry, hentry, rfl⟩
    exact UInt64.lt_of_le_of_lt hle hlt

/-- It fits the limit on the file. -/
theorem length_migratedState_le (h : legacy.Validates sha256 entries)
    (hp : J.Prints (migratedState sha256 entries now)) :
    ∃ bytes, J.toVecPretty (migratedState sha256 entries now) = some bytes ∧
      bytes.length ≤ maxStateBytes := by
  refine ⟨_, hp, ?_⟩
  rw [migratedState, savedState_sorted]
  have hperm := List.mergeSort_perm ((migratedTable sha256 entries now).snapshot now)
    fun a b => decide (a.port ≤ b.port)
  have hvalid : LeaseTable.Valid ((migratedTable sha256 entries now).snapshot now) :=
    LeaseTable.WellFormed.snapshot_valid (h.valid now).wellFormed now
  exact length_toBytes_le (hvalid.perm hperm.symm)

end table

end GameNet
