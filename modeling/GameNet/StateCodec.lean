import GameNet.StateText
import GameNet.LeaseRun
import GameNet.ServerState

/-!
# GameNet.StateCodec

How the state file is read: what `#[derive(Deserialize)]` makes of the structs of
`crates/server/src/lease_store.rs`, with the fields that may be left out and their defaults.
`PersistedLease.toJson` leaves some of them out; reading gives them back (`ofJson_toJson`).

A table that is reached fits the limit on the file in whatever way its leases are printed
(`save_fits`): a file within the limit fails to load for its contents only (`loadOrCreate_error`).
What is saved of the table is loaded as the table that is restored of its snapshot
(`codec_round_trip`).
-/

namespace GameNet

/-! ## Reading -/

def PersistedLease.fieldNames : List String :=
  ["token_id", "retired_token_id", "retired_token_ids", "recovery_id", "port", "last_ip",
    "expires_at_ms"]

/-- `parseIp` is `IpAddr::from_str`. A missing `Option` is `None`, with or without
`serde(default)`. -/
def PersistedLease.ofJson (parseIp : String → Option IpAddr) (value : Json) :
    Option PersistedLease := do
  let fields ← value.asStruct fieldNames
  let tokenId ← Json.field fields "token_id" none Json.asString
  let retiredTokenId ←
    Json.field fields "retired_token_id" (some none) (Json.asOption Json.asString)
  let retiredTokenIds ←
    Json.field fields "retired_token_ids" (some []) (Json.asList Json.asString)
  let recoveryId ← Json.field fields "recovery_id" (some none) (Json.asOption Json.asString)
  let port ← Json.field fields "port" none (Json.asNat (2 ^ 16))
  let lastIp ←
    Json.field fields "last_ip" (some none) (Json.asOption fun ip => ip.asString.bind parseIp)
  let expiresAtMs ← Json.field fields "expires_at_ms" none (Json.asNat (2 ^ 64))
  pure
    { tokenId := tokenId
      retiredTokenId := retiredTokenId
      retiredTokenIds := retiredTokenIds
      recoveryId := recoveryId
      port := .ofNat port
      lastIp := lastIp
      expiresAtMs := .ofNat expiresAtMs }

def PersistedV2.ofJson (parseIp : String → Option IpAddr) (value : Json) : Option PersistedV2 := do
  let fields ← value.asStruct ["version", "leases"]
  let version ← Json.field fields "version" none (Json.asNat (2 ^ 8))
  let leases ← Json.field fields "leases" none (Json.asList (PersistedLease.ofJson parseIp))
  pure { version := .ofNat version, leases := leases }

/-- An entry of `token_ports`. -/
def LegacyState.entryOfJson : Json → Option (String × UInt16)
  | .arr [hex, port] => do
    let hex ← hex.asString
    let port ← port.asNat (2 ^ 16)
    pure (hex, .ofNat port)
  | _ => none

def LegacyState.ofJson (value : Json) : Option LegacyState := do
  let fields ← value.asStruct ["token_ports"]
  let tokenPorts ← Json.field fields "token_ports" none (Json.asList entryOfJson)
  pure { tokenPorts := tokenPorts }

/-- The parsers the state file is read with: `serde_json::from_slice` to a `Value`, and
`IpAddr::from_str`. -/
structure StateParser where
  parse : List UInt8 → Option Json
  parseIp : String → Option IpAddr

/-- `serde_json` with the derived readers and writers. -/
def StateParser.serdeJson (parser : StateParser) : SerdeJson where
  Value := Json
  fromSlice := parser.parse
  hasVersion value := (value.get "version").isSome
  toPersistedV2 := PersistedV2.ofJson parser.parseIp
  toLegacyState := LegacyState.ofJson
  toVecPretty state := some state.toJson.toBytes

/-- What is printed of the state is parsed as what was printed, and so are its addresses. -/
structure StateParser.Reads (parser : StateParser) (state : PersistedV2) : Prop where
  text : parser.parse state.toJson.toBytes = some state.toJson
  addresses : ∀ lease ∈ state.leases, ∀ ip ∈ lease.lastIp, parser.parseIp ip.toText = some ip

section ofJson

variable {parser : StateParser} {parseIp : String → Option IpAddr} {lease : PersistedLease}
  {state : PersistedV2}

theorem asStruct_toJson (lease : PersistedLease) : ∃ fields, lease.toJson = .obj fields ∧
    lease.toJson.asStruct PersistedLease.fieldNames = some fields := by
  refine ⟨_, rfl, ?_⟩
  rw [PersistedLease.toJson, Json.asStruct, if_pos]
  simp only [List.all_append, List.all_map]
  cases lease.retiredTokenId <;> cases lease.recoveryId <;> by_cases h : lease.retiredTokenIds = []
  all_goals simp [h, PersistedLease.fieldNames]

/-- The fields of a lease's text, some of which may be left out. -/
theorem lookup_toJson {fields : List (String × Json)} (h : lease.toJson = .obj fields) :
    fields.lookup "token_id" = some (.str lease.tokenId) ∧
    fields.lookup "retired_token_id" = lease.retiredTokenId.map .str ∧
    fields.lookup "retired_token_ids" =
      (if lease.retiredTokenIds = [] then none else some (.arr (lease.retiredTokenIds.map .str))) ∧
    fields.lookup "recovery_id" = lease.recoveryId.map .str ∧
    fields.lookup "port" = some (.num lease.port.toNat) ∧
    fields.lookup "last_ip" =
      some (match lease.lastIp with | none => .null | some ip => .str ip.toText) ∧
    fields.lookup "expires_at_ms" = some (.num lease.expiresAtMs.toNat) := by
  obtain rfl := Json.obj.inj h
  cases lease.retiredTokenId <;> cases lease.recoveryId <;> cases lease.lastIp <;>
    by_cases hids : lease.retiredTokenIds = []
  all_goals simp [hids, List.lookup_cons]

/-- Every lease reads back as it is, with what is left out of its text. -/
theorem PersistedLease.ofJson_toJson (h : ∀ ip ∈ lease.lastIp, parseIp ip.toText = some ip) :
    ofJson parseIp lease.toJson = some lease := by
  obtain ⟨fields, hfields, hstruct⟩ := asStruct_toJson lease
  obtain ⟨htokenId, hretired, hids, hrecovery, hport, hlastIp, hexpires⟩ := lookup_toJson hfields
  have hretired : Json.field fields "retired_token_id" (some none)
      (Json.asOption Json.asString) = some lease.retiredTokenId := by
    rw [Json.field, hretired]
    cases lease.retiredTokenId <;> rfl
  have hids : Json.field fields "retired_token_ids" (some [])
      (Json.asList Json.asString) = some lease.retiredTokenIds := by
    rw [Json.field, hids]
    by_cases hnil : lease.retiredTokenIds = []
    · rw [if_pos hnil, hnil]
    · have hmap : Json.asList Json.asString (.arr (lease.retiredTokenIds.map .str)) =
          some (lease.retiredTokenIds.map id) := Json.asList_map fun _ _ => rfl
      rw [List.map_id] at hmap
      rw [if_neg hnil]
      exact hmap
  have hrecovery : Json.field fields "recovery_id" (some none)
      (Json.asOption Json.asString) = some lease.recoveryId := by
    rw [Json.field, hrecovery]
    cases lease.recoveryId <;> rfl
  have hport : Json.field fields "port" none (Json.asNat (2 ^ 16)) = some lease.port.toNat := by
    rw [Json.field, hport]
    exact if_pos lease.port.toNat_lt
  have hlastIp : Json.field fields "last_ip" (some none)
      (Json.asOption fun ip => ip.asString.bind parseIp) = some lease.lastIp := by
    rw [Json.field, hlastIp]
    cases hip : lease.lastIp with
    | none => rfl
    | some ip =>
      simp only [Json.asOption, Json.asString, Option.bind_some, h ip hip, Option.map_some]
  have hexpires : Json.field fields "expires_at_ms" none (Json.asNat (2 ^ 64)) =
      some lease.expiresAtMs.toNat := by
    rw [Json.field, hexpires]
    exact if_pos lease.expiresAtMs.toNat_lt
  have htokenId : Json.field fields "token_id" none Json.asString = some lease.tokenId := by
    rw [Json.field, htokenId]
    rfl
  simp only [ofJson, hstruct, htokenId, hretired, hids, hrecovery, hport, hlastIp, hexpires,
    Option.bind_eq_bind, Option.bind_some, Option.pure_def, UInt16.ofNat_toNat,
    UInt64.ofNat_toNat]

theorem PersistedV2.ofJson_toJson
    (h : ∀ lease ∈ state.leases, ∀ ip ∈ lease.lastIp, parseIp ip.toText = some ip) :
    ofJson parseIp state.toJson = some state := by
  have hversion : (Json.num state.version.toNat).asNat (2 ^ 8) = some state.version.toNat :=
    if_pos state.version.toNat_lt
  have hleases : Json.asList (PersistedLease.ofJson parseIp)
      (.arr (state.leases.map (·.toJson))) = some (state.leases.map id) :=
    Json.asList_map fun lease hlease => PersistedLease.ofJson_toJson (h lease hlease)
  rw [List.map_id] at hleases
  have hstruct : state.toJson.asStruct ["version", "leases"] = some
      [("version", .num state.version.toNat), ("leases", .arr (state.leases.map (·.toJson)))] := by
    simp [toJson, Json.asStruct]
  have hkey : ("leases" == "version") = false := by decide
  simp only [ofJson, hstruct, Json.field, List.lookup_cons, beq_self_eq_true, hkey, hversion,
    hleases, Option.bind_eq_bind, Option.bind_some, Option.pure_def, UInt8.ofNat_toNat]

end ofJson

/-! ## Which errors a load fails with -/

/-- The errors of `intoRecords`. -/
def StoreError.ofRecords : StoreError → Bool
  | .hex _ | .invalidFingerprint => true
  | _ => false

/-- The errors of `migrateLegacy`. -/
def StoreError.ofMigration : StoreError → Bool
  | .hex _ | .lease _ | .tooManyLegacy | .invalidLegacyPort | .duplicateLegacyPort
  | .duplicateLegacyToken => true
  | _ => false

/-- The errors of `backupLegacy`. -/
def StoreError.ofBackup : StoreError → Bool
  | .io | .backupNotRegular | .backupDiffers => true
  | _ => false

/-- The errors of `save`. -/
def StoreError.ofSave : StoreError → Bool
  | .io | .json | .stateTooLarge => true
  | _ => false

/-- The errors of `loadOrCreate` on a file within the limit. -/
def StoreError.ofContents : StoreError → Bool
  | .unsupportedVersion => true
  | e => e.ofRecords || e.ofMigration || e.ofBackup || e.ofSave

section errors

variable {e : StoreError}

theorem StoreError.ofContents_of (h : e.ofRecords = true ∨ e.ofMigration = true ∨
    e.ofBackup = true ∨ e.ofSave = true) : e.ofContents = true := by
  unfold ofContents
  split
  · rfl
  · simpa only [Bool.or_eq_true, or_assoc] using h

theorem parseTokenId_error {hex : String} (h : parseTokenId hex = .error e) :
    e.ofRecords = true := by
  unfold parseTokenId at h
  split at h
  · cases h; rfl
  · cases h

theorem parseTokenIds_error {hexes : List String} (h : parseTokenIds hexes = .error e) :
    e.ofRecords = true := by
  induction hexes with
  | nil => cases h
  | cons hex rest ih =>
    unfold parseTokenIds at h
    split at h
    · cases h
      exact parseTokenId_error ‹_›
    · split at h
      · cases h
        exact ih ‹_›
      · cases h

theorem intoRecord_error {lease : PersistedLease} (h : lease.intoRecord = .error e) :
    e.ofRecords = true := by
  unfold PersistedLease.intoRecord at h
  split at h
  · cases h; rfl
  split at h
  · cases h
    exact parseTokenId_error ‹_›
  split at h
  · cases h
    exact parseTokenIds_error ‹_›
  split at h
  · cases h
    exact parseTokenIds_error ‹_›
  · cases h

theorem intoRecords_error {leases : List PersistedLease} (h : intoRecords leases = .error e) :
    e.ofRecords = true := by
  induction leases with
  | nil => cases h
  | cons lease rest ih =>
    unfold intoRecords at h
    split at h
    · cases h
      exact intoRecord_error ‹_›
    · split at h
      · cases h
        exact ih ‹_›
      · cases h

end errors

/-! ## What is saved of a table -/

namespace LeaseStore

variable {J : SerdeJson} {sha256 : Bytes32 → Bytes32} {store store' : LeaseStore} {now : UInt64}
  {e : StoreError} {loadIo : LoadIo} {parser : StateParser} {records : List LeaseRecord} {table : LeaseTable}

theorem legacyRecords_error {ports : List UInt16} {tokens : List Bytes32}
    {entries : List (String × UInt16)}
    (h : legacyRecords sha256 now ports tokens entries = .error e) : e.ofMigration = true := by
  induction entries generalizing ports tokens with
  | nil => cases h
  | cons entry rest ih =>
    unfold legacyRecords at h
    split at h
    · cases h; rfl
    split at h
    · cases h; rfl
    split at h
    · cases h; rfl
    split at h
    · cases h; rfl
    split at h
    · cases h
      exact ih ‹_›
    · cases h

theorem migrateLegacy_error {legacy : LegacyState}
    (h : migrateLegacy sha256 legacy now = .error e) : e.ofMigration = true := by
  unfold migrateLegacy at h
  split at h
  · cases h; rfl
  split at h
  · cases h
    exact legacyRecords_error ‹_›
  split at h
  · cases h; rfl
  · cases h

theorem backupLegacy_error {bytes : List UInt8} {create : CreateOutcome} {replace : SaveOutcome}
    (h : store.backupLegacy bytes create replace = (.error e, store')) : e.ofBackup = true := by
  unfold backupLegacy at h
  split at h
  · cases h; rfl
  · split at h
    · cases h; rfl
    · split at h
      · cases replace <;> cases h <;> rfl
      · cases replace <;> cases h <;> rfl
  · cases create <;> cases h <;> rfl

theorem save_error {io : SaveOutcome} (h : store.save J records io = (.error e, store')) :
    e.ofSave = true := by
  unfold save at h
  simp only at h
  split at h
  · cases h; rfl
  split at h
  · cases h; rfl
  · cases io <;> cases h <;> rfl

theorem loadCurrent_error {value : J.Value} (h : loadCurrent J value now = .error e) :
    e.ofContents = true := by
  unfold loadCurrent at h
  split at h
  · cases h; rfl
  split at h
  · cases h; rfl
  split at h
  · cases h
    exact StoreError.ofContents_of (.inl (intoRecords_error ‹_›))
  split at h
  · cases h; rfl
  · cases h

theorem loadLegacy_error {bytes : List UInt8} {value : J.Value}
    (h : store.loadLegacy J sha256 bytes value now loadIo = (.error e, store')) :
    e.ofContents = true := by
  unfold loadLegacy at h
  split at h
  · cases h; rfl
  split at h
  · cases h
    exact StoreError.ofContents_of (.inr (.inl (migrateLegacy_error ‹_›)))
  split at h
  · cases h
    exact StoreError.ofContents_of (.inr (.inr (.inl (backupLegacy_error ‹_›))))
  split at h
  · cases h
    exact StoreError.ofContents_of (.inr (.inr (.inr (save_error ‹_›))))
  · cases h

/-- A file within the limit passes its check, whatever else is wrong with it. -/
theorem loadOrCreate_error
    (hsize : ∀ bytes, store.file = some bytes → bytes.length ≤ maxStateBytes)
    (h : store.loadOrCreate J sha256 now loadIo = (.error e, store')) : e.ofContents = true := by
  unfold loadOrCreate at h
  split at h
  · cases h
  rename_i bytes hfile
  rw [if_neg (Nat.not_lt.mpr (hsize bytes hfile))] at h
  split at h
  · cases h; rfl
  split at h
  · exact loadCurrent_error (congrArg Prod.fst h)
  · exact loadLegacy_error h

/-- **What is saved fits the limit.** This is so for every table that is reached, in whatever order
its leases come: the save does not fail for its size, and the file that it leaves passes the check
of the next load. -/
theorem save_fits (parser : StateParser) (sha256 : Bytes32 → Bytes32) (s : LeaseTable.RunState)
    (h : LeaseTable.Reachable s) (savedAt : UInt64) (records : List LeaseRecord)
    (hr : records.Perm (s.table.snapshot savedAt)) (store : LeaseStore) (io : SaveOutcome) :
    (savedState records).toJson.toBytes.length ≤ 1048576 ∧
    (store.save parser.serdeJson records io).1 ≠ .error .stateTooLarge ∧
    (io ≠ .keptOld → (store.save parser.serdeJson records io).2 =
      { store with file := some (savedState records).toJson.toBytes }) ∧
    ∀ now loadIo, io ≠ .keptOld →
      ((store.save parser.serdeJson records io).2.loadOrCreate parser.serdeJson sha256 now loadIo).1 ≠
        .error .fileTooLarge := by
  have hv : LeaseTable.Valid records :=
    ((LeaseTable.reachable_wellFormed h).snapshot_valid savedAt).perm hr.symm
  have hlen := length_savedState_le hv
  have hprint : parser.serdeJson.toVecPretty (savedState records) =
      some (savedState records).toJson.toBytes := rfl
  have hsave := save_printed hprint hlen store io
  have hfile : io ≠ .keptOld → (store.save parser.serdeJson records io).2 =
      { store with file := some (savedState records).toJson.toBytes } := by
    intro hio
    rw [hsave]
    cases io with
    | saved => rfl
    | keptOld => exact absurd rfl hio
    | replacedUnsynced => rfl
  refine ⟨hlen, ?_, hfile, ?_⟩
  · rw [hsave]
    cases io <;> simp
  · intro now loadIo hio he
    have hsize : ∀ bytes, (store.save parser.serdeJson records io).2.file = some bytes →
        bytes.length ≤ maxStateBytes := by
      intro bytes hbytes
      rw [hfile hio] at hbytes
      cases hbytes
      exact hlen
    exact absurd (loadOrCreate_error hsize (Prod.ext he rfl)) (by decide)

/-- A save that succeeds leaves a file that loads as the records restored. -/
theorem loadOrCreate_saved (hv : LeaseTable.Valid records) (hread : parser.Reads (savedState records))
    (sha256 : Bytes32 → Bytes32) (store : LeaseStore) (now : UInt64) (loadIo : LoadIo) :
    ∃ store' loaded, store.save parser.serdeJson records .saved = (.ok (), store') ∧
      store'.loadOrCreate parser.serdeJson sha256 now loadIo = (.ok loaded, store') ∧
      loaded.Same (LeaseTable.load now .new records) ∧ loaded.nextSessionId = 0 := by
  let sorted := records.mergeSort fun a b => decide (a.port ≤ b.port)
  have hperm : sorted.Perm records := List.mergeSort_perm records _
  have hlen := length_savedState_le hv
  have hprint : parser.serdeJson.toVecPretty (savedState records) =
      some (savedState records).toJson.toBytes := rfl
  have hleases : intoRecords (savedState records).leases = .ok sorted := by
    rw [savedState_sorted]
    exact intoRecords_fromRecord sorted
  have hstores : Stores parser.serdeJson
      { store with file := some (savedState records).toJson.toBytes } sorted :=
    ⟨hlen, (savedState records).toJson, savedState records, hread.text, rfl,
      PersistedV2.ofJson_toJson hread.addresses, rfl, hleases⟩
  have hrestore : LeaseTable.restore sorted now = .ok (LeaseTable.load now .new sorted) :=
    LeaseTable.restore_eq_ok.mpr ⟨hv.perm hperm.symm, rfl⟩
  refine ⟨_, LeaseTable.load now .new sorted, save_printed hprint hlen store .saved, ?_,
    .load (hv.perm hperm.symm) hperm, LeaseTable.load_nextSessionId⟩
  rw [hstores.load, hrestore]

/-- A table that was just restored is restored again of its snapshot. -/
theorem load_snapshot (hv : LeaseTable.Valid records)
    (ht : table = LeaseTable.load now .new records) :
    (LeaseTable.load now .new (table.snapshot now)).Same table := by
  subst ht
  have hv' : LeaseTable.Valid ((LeaseTable.load now .new records).snapshot now) :=
    LeaseTable.WellFormed.snapshot_valid hv.wellFormed now
  refine ⟨fun k => Option.ext fun lease => ?_⟩
  rw [LeaseTable.lookup_load_new hv'.tokens, LeaseTable.lookup_load_new hv.tokens]
  constructor
  · rintro ⟨record, hrecord, rfl, hlt, rfl⟩
    obtain ⟨k, lease, hl, rfl⟩ := LeaseTable.mem_snapshot.mp hrecord
    obtain ⟨original, horiginal, rfl, hlt', rfl⟩ := (LeaseTable.lookup_load_new hv.tokens).mp hl
    exact ⟨original, horiginal, rfl, hlt', rfl⟩
  · rintro ⟨record, hrecord, rfl, hlt, rfl⟩
    have hl : (LeaseTable.load now .new records).leases.lookup record.tokenId =
        some record.toLease :=
      (LeaseTable.lookup_load_new hv.tokens).mpr ⟨record, hrecord, rfl, hlt, rfl⟩
    exact ⟨_, LeaseTable.mem_snapshot.mpr ⟨_, _, hl, rfl⟩, rfl, hlt, rfl⟩

/-- **What is saved is loaded.** Records survive their text form, and leases their JSON form with
fields left out. A table that is reached is saved and loaded as it is restored of its snapshot; one
that was loaded of a file, with the old single field or without, is saved and loaded again as it
is. -/
theorem codec_round_trip (parser : StateParser) (sha256 : Bytes32 → Bytes32) :
    (∀ record, (PersistedLease.fromRecord record).intoRecord = .ok record) ∧
    (∀ lease : PersistedLease, (∀ ip ∈ lease.lastIp, parser.parseIp ip.toText = some ip) →
      PersistedLease.ofJson parser.parseIp lease.toJson = some lease) ∧
    (∀ (s : LeaseTable.RunState) (savedAt now : UInt64) (records : List LeaseRecord)
      (store : LeaseStore) (loadIo : LoadIo), LeaseTable.Reachable s →
      records.Perm (s.table.snapshot savedAt) → parser.Reads (savedState records) →
      ∃ store' loaded restored, store.save parser.serdeJson records .saved = (.ok (), store') ∧
        store'.loadOrCreate parser.serdeJson sha256 now loadIo = (.ok loaded, store') ∧
        LeaseTable.restore (s.table.snapshot savedAt) now = .ok restored ∧
        loaded.Same restored ∧ loaded.nextSessionId = restored.nextSessionId) ∧
    ∀ (store store' : LeaseStore) (now : UInt64) (loadIo : LoadIo) (table : LeaseTable)
      (records : List LeaseRecord),
      store.loadOrCreate parser.serdeJson sha256 now loadIo = (.ok table, store') →
      records.Perm (table.snapshot now) → parser.Reads (savedState records) →
      ∃ saved loaded, store'.save parser.serdeJson records .saved = (.ok (), saved) ∧
        saved.loadOrCreate parser.serdeJson sha256 now loadIo = (.ok loaded, saved) ∧
        loaded.Same table ∧ loaded.nextSessionId = table.nextSessionId := by
  refine ⟨intoRecord_fromRecord, fun lease => PersistedLease.ofJson_toJson, ?_, ?_⟩
  · intro s savedAt now records store loadIo hs hr hread
    have hv := (LeaseTable.reachable_wellFormed hs).snapshot_valid savedAt
    obtain ⟨store', loaded, hsave, hload, hsame, hnext⟩ :=
      loadOrCreate_saved (hv.perm hr.symm) hread sha256 store now loadIo
    have hrestore : LeaseTable.restore (s.table.snapshot savedAt) now =
        .ok (LeaseTable.load now .new (s.table.snapshot savedAt)) :=
      LeaseTable.restore_eq_ok.mpr ⟨hv, rfl⟩
    refine ⟨store', loaded, _, hsave, hload, hrestore, ?_, ?_⟩
    · exact hsame.trans (.load (hv.perm hr.symm) hr)
    · rw [hnext, LeaseTable.load_nextSessionId]
      rfl
  · intro store store' now loadIo table records hload hr hread
    obtain ⟨original, horiginal⟩ : ∃ original, LeaseTable.restore original now = .ok table := by
      rcases loadOrCreate_restored hload with rfl | h
      · exact ⟨[], rfl⟩
      · exact h
    obtain ⟨hv, htable⟩ := LeaseTable.restore_eq_ok.mp horiginal
    have hv' : LeaseTable.Valid (table.snapshot now) :=
      (LeaseTable.restore_wellFormed horiginal).snapshot_valid now
    obtain ⟨saved, loaded, hsave, hload, hsame, hnext⟩ :=
      loadOrCreate_saved (hv'.perm hr.symm) hread sha256 store' now loadIo
    refine ⟨saved, loaded, hsave, hload, ?_, ?_⟩
    · exact (hsame.trans (.load (hv'.perm hr.symm) hr)).trans (load_snapshot hv htable)
    · rw [hnext, htable, LeaseTable.load_nextSessionId]
      rfl

end LeaseStore

/-! ## One lease -/

/-- The parsers on the text of that one lease. -/
def sampleParser : StateParser where
  parse bytes := if bytes = sampleState.toJson.toBytes then some sampleState.toJson else none
  parseIp text := if text = "10.10.10.10" then some sampleIp else none

theorem sample_savedState : savedState [sampleRecord] = sampleState :=
  congrArg (PersistedV2.mk 2) (List.mergeSort_singleton _)

theorem sample_reads : sampleParser.Reads (savedState [sampleRecord]) := by
  rw [sample_savedState]
  have hip : sampleIp.toText = "10.10.10.10" := by decide +kernel
  constructor
  · simp only [sampleParser, if_true]
  · intro lease hlease ip hm
    obtain rfl := List.mem_singleton.mp hlease
    cases hm
    simp only [sampleParser, hip, if_true]

theorem sample_reachable : LeaseTable.Reachable ⟨ServerState.sampleTable, 1000⟩ :=
  (LeaseTable.reachable_new 0).next
    (.of_perform .new 0 (.activateWithRecovery ⟨sampleDigest⟩ (some sampleKey) sampleIp 10000) 1000
      (by decide) (by decide))

namespace LeaseStore

theorem save_fits_one_host :
    (savedState [sampleRecord]).toJson.toBytes.length ≤ 1048576 ∧
    (save sampleParser.serdeJson ⟨none, .absent⟩ [sampleRecord] .saved).1 ≠
      .error .stateTooLarge := by
  have h := save_fits sampleParser sampleSha256 ⟨ServerState.sampleTable, 1000⟩ sample_reachable
    1000 [sampleRecord] (.refl _) ⟨none, .absent⟩ .saved
  exact ⟨h.1, h.2.1⟩

/-- One host is saved, and loaded a second later. -/
theorem codec_round_trip_one_host : ∃ store loaded restored,
    save sampleParser.serdeJson ⟨none, .absent⟩ [sampleRecord] .saved = (.ok (), store) ∧
    store.loadOrCreate sampleParser.serdeJson sampleSha256 2000 ⟨.created, .saved, .saved⟩ =
      (.ok loaded, store) ∧
    LeaseTable.restore [sampleRecord] 2000 = .ok restored ∧ loaded.Same restored := by
  obtain ⟨-, -, h, -⟩ := codec_round_trip sampleParser sampleSha256
  obtain ⟨store, loaded, restored, hsave, hload, hrestore, hsame, -⟩ :=
    h ⟨ServerState.sampleTable, 1000⟩ 1000 2000 [sampleRecord] ⟨none, .absent⟩
      ⟨.created, .saved, .saved⟩ sample_reachable (.refl _) sample_reads
  exact ⟨store, loaded, restored, hsave, hload, hrestore, hsame⟩

end LeaseStore

end GameNet
