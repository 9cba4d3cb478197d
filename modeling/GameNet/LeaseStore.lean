import GameNet.Hex
import GameNet.LeaseSame

/-!
# GameNet.LeaseStore

The relay's state file (`crates/server/src/lease_store.rs`). A `LeaseStore` is what is on disk at
the store's path and at the path of the backup of a legacy file.

JSON is `serde_json`'s: `SerdeJson` is its interface, and the one law used of it is that what it
prints it reads back (`SerdeJson.Lawful`). A write goes to a temporary file that replaces the old
one in a single step; `SaveOutcome` says whether and where the file system failed.
-/

namespace GameNet

def maxStateBytes : Nat := 1024 * 1024

structure PersistedLease where
  tokenId : String
  retiredTokenId : Option String
  retiredTokenIds : List String
  recoveryId : Option String
  port : UInt16
  lastIp : Option IpAddr
  expiresAtMs : UInt64
deriving DecidableEq

structure PersistedV2 where
  version : UInt8
  leases : List PersistedLease
deriving DecidableEq

structure LegacyState where
  tokenPorts : List (String × UInt16)

/-- The part of `serde_json` the store uses. -/
structure SerdeJson where
  Value : Type
  /-- `from_slice` -/
  fromSlice : List UInt8 → Option Value
  /-- `value.get("version").is_some()` -/
  hasVersion : Value → Bool
  /-- `from_value` -/
  toPersistedV2 : Value → Option PersistedV2
  /-- `from_value` -/
  toLegacyState : Value → Option LegacyState
  toVecPretty : PersistedV2 → Option (List UInt8)

/-- What is printed reads back, as an object with a version. -/
structure SerdeJson.Lawful (J : SerdeJson) : Prop where
  roundTrip : ∀ {state bytes}, J.toVecPretty state = some bytes →
    ∃ value, J.fromSlice bytes = some value ∧ J.hasVersion value = true ∧
      J.toPersistedV2 value = some state

inductive StoreError where
  /-- An error of the file system. -/
  | io
  /-- An error of `serde_json`. -/
  | json
  | hex (e : HexError)
  | lease (e : LeaseError)
  | fileTooLarge
  | stateTooLarge
  | unsupportedVersion
  | invalidFingerprint
  | tooManyLegacy
  | invalidLegacyPort
  | duplicateLegacyPort
  | duplicateLegacyToken
  | backupNotRegular
  | backupDiffers

/-- The texts of the store's own errors. -/
def StoreError.message : StoreError → Option String
  | .io => none
  | .json => none
  | .hex e => some e.message
  | .lease e => some e.message
  | .fileTooLarge => some "Lease state file exceeds 1 MiB"
  | .stateTooLarge => some "Lease state exceeds 1 MiB"
  | .unsupportedVersion => some "Unsupported lease state version"
  | .invalidFingerprint => some "Invalid token fingerprint"
  | .tooManyLegacy => some "Too many legacy reservations"
  | .invalidLegacyPort => some "Invalid legacy port"
  | .duplicateLegacyPort => some "Duplicate legacy port"
  | .duplicateLegacyToken => some "Duplicate legacy token"
  | .backupNotRegular => some "Legacy backup is not a regular file"
  | .backupDiffers => some "Existing legacy backup differs from source state"

/-! ## Records as text -/

def PersistedLease.fromRecord (record : LeaseRecord) : PersistedLease :=
  { tokenId := hex32 record.tokenId.bytes
    retiredTokenId := none
    retiredTokenIds := record.retiredTokenIds.map fun id => hex32 id.bytes
    recoveryId := record.recoveryId.map fun id => hex32 id.bytes
    port := record.port
    lastIp := record.lastIp
    expiresAtMs := record.expiresAtMs }

/-- `is_ascii_hexdigit` and not `is_ascii_uppercase` -/
def isLowerHex (c : Char) : Bool :=
  decide ('0' ≤ c ∧ c ≤ '9') || decide ('a' ≤ c ∧ c ≤ 'f')

/-- `parse_hex_32(&id).map(TokenId)` -/
def parseTokenId (hex : String) : Except StoreError TokenId :=
  match parseHex32 hex with
  | .error e => .error (.hex e)
  | .ok bytes => .ok ⟨bytes⟩

def parseTokenIds : List String → Except StoreError (List TokenId)
  | [] => .ok []
  | hex :: rest =>
    match parseTokenId hex with
    | .error e => .error e
    | .ok id =>
      match parseTokenIds rest with
      | .error e => .error e
      | .ok ids => .ok (id :: ids)

def PersistedLease.intoRecord (lease : PersistedLease) : Except StoreError LeaseRecord :=
  if !lease.tokenId.toList.all isLowerHex then .error .invalidFingerprint
  else
    match parseTokenId lease.tokenId with
    | .error e => .error e
    | .ok tokenId =>
      match parseTokenIds (lease.retiredTokenIds ++ lease.retiredTokenId.toList) with
      | .error e => .error e
      | .ok retiredTokenIds =>
        match parseTokenIds lease.recoveryId.toList with
        | .error e => .error e
        | .ok recoveryId =>
          .ok
            { tokenId := tokenId
              retiredTokenIds := retiredTokenIds
              recoveryId := recoveryId.head?
              port := lease.port
              lastIp := lease.lastIp
              expiresAtMs := lease.expiresAtMs }

def intoRecords : List PersistedLease → Except StoreError (List LeaseRecord)
  | [] => .ok []
  | lease :: rest =>
    match lease.intoRecord with
    | .error e => .error e
    | .ok record =>
      match intoRecords rest with
      | .error e => .error e
      | .ok records => .ok (record :: records)

/-! ## The files -/

inductive Backup where
  | absent
  | file (bytes : List UInt8)
  | notRegular

structure LeaseStore where
  file : Option (List UInt8)
  backup : Backup

/-- What the file system does with a file that is replaced in one step: the new content is there
and synced; or the call fails and the old content stays; or the call fails after the new content
is there, when the directory is synced. -/
inductive SaveOutcome where
  | saved
  | keptOld
  | replacedUnsynced
deriving DecidableEq

/-- The same for a file that is created and then written: `partly n` is a failure with the first
`n` bytes written. -/
inductive CreateOutcome where
  | created
  | absent
  | partly (n : Nat)

/-- How the file system serves one run of `load_or_create`. -/
structure LoadIo where
  create : CreateOutcome
  replace : SaveOutcome
  save : SaveOutcome

namespace LeaseStore

def save (J : SerdeJson) (store : LeaseStore) (records : List LeaseRecord) (io : SaveOutcome) :
    Except StoreError Unit × LeaseStore :=
  let leases := records.map PersistedLease.fromRecord
  let leases := leases.mergeSort fun a b => decide (a.port ≤ b.port)
  match J.toVecPretty { version := 2, leases := leases } with
  | none => (.error .json, store)
  | some bytes =>
    if maxStateBytes < bytes.length then (.error .stateTooLarge, store)
    else
      match io with
      | .saved => (.ok (), { store with file := some bytes })
      | .keptOld => (.error .io, store)
      | .replacedUnsynced => (.error .io, { store with file := some bytes })

/-- The loop of `migrate_legacy`. -/
def legacyRecords (sha256 : Bytes32 → Bytes32) (now : UInt64) (ports : List UInt16)
    (tokens : List Bytes32) : List (String × UInt16) → Except StoreError (List LeaseRecord)
  | [] => .ok []
  | (hex, port) :: rest =>
    if ¬(portStart ≤ port ∧ port ≤ portEnd) then .error .invalidLegacyPort
    else if ports.contains port then .error .duplicateLegacyPort
    else
      match parseHex32 hex with
      | .error e => .error (.hex e)
      | .ok token =>
        if tokens.contains token then .error .duplicateLegacyToken
        else
          match legacyRecords sha256 now (ports ++ [port]) (tokens ++ [token]) rest with
          | .error e => .error e
          | .ok records =>
            .ok
              ({ tokenId := .fromToken sha256 token
                 retiredTokenIds := []
                 recoveryId := none
                 port := port
                 lastIp := none
                 expiresAtMs := now.saturatingAdd graceMs } :: records)

def migrateLegacy (sha256 : Bytes32 → Bytes32) (legacy : LegacyState) (now : UInt64) :
    Except StoreError LeaseTable :=
  if 1000 < legacy.tokenPorts.length then .error .tooManyLegacy
  else
    match legacyRecords sha256 now [] [] legacy.tokenPorts with
    | .error e => .error e
    | .ok records =>
      match LeaseTable.restore records now with
      | .error e => .error (.lease e)
      | .ok table => .ok table

def backupLegacy (store : LeaseStore) (bytes : List UInt8) (create : CreateOutcome)
    (replace : SaveOutcome) : Except StoreError Unit × LeaseStore :=
  match store.backup with
  | .notRegular => (.error .backupNotRegular, store)
  | .file existing =>
    if !existing.isPrefixOf bytes then (.error .backupDiffers, store)
    else if existing.length = bytes.length then
      match replace with
      | .saved => (.ok (), store)
      | _ => (.error .io, store)
    else
      match replace with
      | .saved => (.ok (), { store with backup := .file bytes })
      | .keptOld => (.error .io, store)
      | .replacedUnsynced => (.error .io, { store with backup := .file bytes })
  | .absent =>
    match create with
    | .created => (.ok (), { store with backup := .file bytes })
    | .absent => (.error .io, store)
    | .partly n => (.error .io, { store with backup := .file (bytes.take n) })

/-- `load_or_create` on a parsed file with a version. -/
def loadCurrent (J : SerdeJson) (value : J.Value) (now : UInt64) : Except StoreError LeaseTable :=
  match J.toPersistedV2 value with
  | none => .error .json
  | some persisted =>
    if persisted.version ≠ 2 then .error .unsupportedVersion
    else
      match intoRecords persisted.leases with
      | .error e => .error e
      | .ok records =>
        match LeaseTable.restore records now with
        | .error e => .error (.lease e)
        | .ok table => .ok table

/-- `load_or_create` on a parsed file without a version, read from `bytes`. -/
def loadLegacy (J : SerdeJson) (sha256 : Bytes32 → Bytes32) (store : LeaseStore)
    (bytes : List UInt8) (value : J.Value) (now : UInt64) (io : LoadIo) :
    Except StoreError LeaseTable × LeaseStore :=
  match J.toLegacyState value with
  | none => (.error .json, store)
  | some legacy =>
    match migrateLegacy sha256 legacy now with
    | .error e => (.error e, store)
    | .ok table =>
      match store.backupLegacy bytes io.create io.replace with
      | (.error e, store) => (.error e, store)
      | (.ok (), store) =>
        match store.save J (table.snapshot now) io.save with
        | (.error e, store) => (.error e, store)
        | (.ok (), store) => (.ok table, store)

/-- The size is checked on the metadata and on the bytes read: a file that can be read passes
both or neither. -/
def loadOrCreate (J : SerdeJson) (sha256 : Bytes32 → Bytes32) (store : LeaseStore) (now : UInt64)
    (io : LoadIo) : Except StoreError LeaseTable × LeaseStore :=
  match store.file with
  | none => (.ok .new, store)
  | some bytes =>
    if maxStateBytes < bytes.length then (.error .fileTooLarge, store)
    else
      match J.fromSlice bytes with
      | none => (.error .json, store)
      | some value =>
        if J.hasVersion value then (loadCurrent J value now, store)
        else store.loadLegacy J sha256 bytes value now io

end LeaseStore

/-! ## What is saved is loaded -/

theorem parseTokenId_hex32 (id : TokenId) : parseTokenId (hex32 id.bytes) = .ok id := by
  simp only [parseTokenId, parseHex32_hex32]

theorem parseTokenIds_hex32 (ids : List TokenId) :
    parseTokenIds (ids.map fun id => hex32 id.bytes) = .ok ids := by
  induction ids with
  | nil => rfl
  | cons id rest ih => simp only [List.map_cons, parseTokenIds, parseTokenId_hex32, ih]

theorem hex32_lower (bytes : Bytes32) : (hex32 bytes).toList.all isLowerHex = true := by
  refine List.all_eq_true.mpr (forall_mem_hex32 (fun {d} hd => ?_) bytes)
  simpa [isLowerHex] using hexChar_lower hd

/-- Every record survives the trip through its text form. -/
theorem intoRecord_fromRecord (record : LeaseRecord) :
    (PersistedLease.fromRecord record).intoRecord = .ok record := by
  obtain ⟨tokenId, retired, recoveryId, port, lastIp, expires⟩ := record
  have hrec : parseTokenIds (recoveryId.map fun id => hex32 id.bytes).toList =
      .ok recoveryId.toList := by
    cases recoveryId with
    | none => rfl
    | some id => exact parseTokenIds_hex32 [id]
  have hhead : recoveryId.toList.head? = recoveryId := by cases recoveryId <;> rfl
  simp only [PersistedLease.intoRecord, PersistedLease.fromRecord, hex32_lower, Bool.not_true,
    Bool.false_eq_true, if_false, parseTokenId_hex32, Option.toList_none, List.append_nil,
    parseTokenIds_hex32, hrec, hhead]

theorem intoRecords_fromRecord (records : List LeaseRecord) :
    intoRecords (records.map PersistedLease.fromRecord) = .ok records := by
  induction records with
  | nil => rfl
  | cons record rest ih => simp only [List.map_cons, intoRecords, intoRecord_fromRecord, ih]

namespace LeaseStore

variable {J : SerdeJson} {sha256 : Bytes32 → Bytes32} {store store' : LeaseStore}
  {records : List LeaseRecord} {now : UInt64} {io : SaveOutcome} {loadIo : LoadIo}

/-- The file holds these records in the current format; no file holds no records. -/
def Stores (J : SerdeJson) (store : LeaseStore) (records : List LeaseRecord) : Prop :=
  match store.file with
  | none => records = []
  | some bytes =>
    bytes.length ≤ maxStateBytes ∧ ∃ value persisted, J.fromSlice bytes = some value ∧
      J.hasVersion value = true ∧ J.toPersistedV2 value = some persisted ∧
      persisted.version = 2 ∧ intoRecords persisted.leases = .ok records

/-- Loading a file of the current format restores its records and leaves the disk alone. -/
theorem Stores.load (h : Stores J store records) :
    store.loadOrCreate J sha256 now loadIo =
      (match LeaseTable.restore records now with
        | .error e => .error (.lease e)
        | .ok table => .ok table, store) := by
  unfold Stores at h
  unfold loadOrCreate
  split at h
  · subst h
    rfl
  · obtain ⟨hlen, value, persisted, hv, hver, hp, h2, hr⟩ := h
    simp only [Nat.not_lt.mpr hlen, if_false, hv, hver, if_true, loadCurrent, hp, h2, ne_eq,
      not_true_eq_false, hr]

/-- A save that reports success wrote the records, in some order; one that reports an error wrote
them or left the file alone. -/
theorem save_cases {r : Except StoreError Unit} (hJ : J.Lawful)
    (h : store.save J records io = (r, store')) :
    (r = .ok () ∧ ∃ sorted : List LeaseRecord, sorted.Perm records ∧ Stores J store' sorted) ∨
      ((∃ e, r = .error e) ∧
        (store' = store ∨
          ∃ sorted : List LeaseRecord, sorted.Perm records ∧ Stores J store' sorted)) := by
  -- sorting the text records by port sorts the records
  have hsort : (records.map PersistedLease.fromRecord).mergeSort
      (fun a b => decide (a.port ≤ b.port)) =
      (records.mergeSort fun a b => decide (a.port ≤ b.port)).map PersistedLease.fromRecord :=
    (List.map_mergeSort (f := PersistedLease.fromRecord) fun _ _ _ _ => rfl).symm
  have hperm := List.mergeSort_perm records fun a b => decide (a.port ≤ b.port)
  have hinto := intoRecords_fromRecord (records.mergeSort fun a b => decide (a.port ≤ b.port))
  unfold save at h
  simp only [hsort] at h
  split at h
  · cases h
    exact .inr ⟨⟨_, rfl⟩, .inl rfl⟩
  · rename_i bytes hb
    obtain ⟨value, hv, hver, hp⟩ := hJ.roundTrip hb
    split at h
    · cases h
      exact .inr ⟨⟨_, rfl⟩, .inl rfl⟩
    · rename_i hlen
      have hstores : ∀ b, Stores J ⟨some bytes, b⟩
          (records.mergeSort fun a b => decide (a.port ≤ b.port)) :=
        fun b => ⟨by omega, value, _, hv, hver, hp, rfl, hinto⟩
      cases io with
      | saved =>
        cases h
        exact .inl ⟨rfl, _, hperm, hstores _⟩
      | keptOld =>
        cases h
        exact .inr ⟨⟨_, rfl⟩, .inl rfl⟩
      | replacedUnsynced =>
        cases h
        exact .inr ⟨⟨_, rfl⟩, .inr ⟨_, hperm, hstores _⟩⟩

/-- The file is absent or has a version, so it is not a legacy file. -/
def Current (J : SerdeJson) (store : LeaseStore) : Prop :=
  ∀ bytes value, store.file = some bytes → J.fromSlice bytes = some value →
    J.hasVersion value = true

/-- A current file that loads holds records that are restored; nothing is written. -/
theorem loadOrCreate_cases {table : LeaseTable} (hc : Current J store)
    (h : store.loadOrCreate J sha256 now loadIo = (.ok table, store')) :
    store' = store ∧ ∃ records, Stores J store records ∧
      LeaseTable.restore records now = .ok table := by
  unfold loadOrCreate at h
  split at h
  · rename_i hf
    cases h
    exact ⟨rfl, [], by simp only [Stores, hf], rfl⟩
  · rename_i bytes hf
    split at h
    · cases h
    · rename_i hlen
      split at h
      · cases h
      · rename_i value hv
        have hver := hc bytes value hf hv
        simp only [hver, if_true, loadCurrent] at h
        split at h
        · cases h
        · rename_i persisted hp
          split at h
          · cases h
          · rename_i h2
            split at h
            · cases h
            · rename_i records hr
              split at h
              · cases h
              · rename_i restored hres
                cases h
                refine ⟨rfl, records, ?_, hres⟩
                simp only [Stores, hf]
                exact ⟨by omega, value, persisted, hv, hver, hp, by simpa using h2, hr⟩

theorem migrateLegacy_restored {legacy : LegacyState} {table : LeaseTable}
    (h : migrateLegacy sha256 legacy now = .ok table) :
    ∃ records, LeaseTable.restore records now = .ok table := by
  unfold migrateLegacy at h
  split at h
  · cases h
  · split at h
    · cases h
    · split at h
      · cases h
      · cases h
        exact ⟨_, ‹_›⟩

theorem loadCurrent_restored {value : J.Value} {table : LeaseTable}
    (h : loadCurrent J value now = .ok table) :
    ∃ records, LeaseTable.restore records now = .ok table := by
  unfold loadCurrent at h
  split at h
  · cases h
  · split at h
    · cases h
    · split at h
      · cases h
      · split at h
        · cases h
        · cases h
          exact ⟨_, ‹_›⟩

theorem loadLegacy_restored {bytes : List UInt8} {value : J.Value} {table : LeaseTable}
    (h : store.loadLegacy J sha256 bytes value now loadIo = (.ok table, store')) :
    ∃ records, LeaseTable.restore records now = .ok table := by
  unfold loadLegacy at h
  split at h
  · cases h
  · split at h
    · cases h
    · rename_i hm
      split at h
      · cases h
      · split at h
        · cases h
        · cases h
          exact migrateLegacy_restored hm

/-- Whatever file was read, in whatever format, the table is empty or restored from records. -/
theorem loadOrCreate_restored {table : LeaseTable}
    (h : store.loadOrCreate J sha256 now loadIo = (.ok table, store')) :
    table = .new ∨ ∃ records, LeaseTable.restore records now = .ok table := by
  unfold loadOrCreate at h
  split at h
  · cases h
    exact .inl rfl
  · split at h
    · cases h
    · split at h
      · cases h
      · split at h
        · exact .inr (loadCurrent_restored (Prod.mk.inj h).1)
        · exact .inr (loadLegacy_restored h)

end LeaseStore

/-! ## One host -/

/-- The SHA-256 digest of the token of 32 bytes 7. -/
def sampleDigest : Bytes32 :=
  ⟨[75, 176, 111, 142, 78, 58, 119, 21, 210, 1, 213, 115, 208, 170, 66, 55, 98, 229, 93, 171, 214,
    26, 44, 2, 39, 143, 165, 108, 198, 210, 148, 224], rfl⟩

/-- The digests of some tokens whose bytes are all the same. -/
def sampleDigests : List (Bytes32 × Bytes32) :=
  [(.replicate 32 1, ⟨[114, 205, 110, 132, 34, 196, 7, 251, 109, 9, 134, 144, 241, 19, 11, 125,
      237, 126, 194, 247, 245, 225, 211, 11, 217, 213, 33, 240, 21, 54, 55, 147], rfl⟩),
    (.replicate 32 2, ⟨[117, 135, 123, 180, 29, 57, 59, 95, 184, 69, 92, 230, 14, 205, 141, 218,
      0, 29, 6, 49, 100, 150, 177, 77, 250, 127, 137, 86, 86, 238, 202, 74], rfl⟩),
    (.replicate 32 3, ⟨[100, 138, 165, 197, 121, 251, 48, 243, 138, 247, 68, 217, 125, 110, 200,
      64, 199, 169, 18, 119, 164, 153, 160, 215, 128, 243, 231, 49, 78, 202, 9, 11], rfl⟩),
    (.replicate 32 7, ⟨[75, 176, 111, 142, 78, 58, 119, 21, 210, 1, 213, 115, 208, 170, 66, 55,
      98, 229, 93, 171, 214, 26, 44, 2, 39, 143, 165, 108, 198, 210, 148, 224], rfl⟩),
    (.replicate 32 8, ⟨[37, 120, 204, 248, 100, 91, 45, 29, 193, 12, 70, 94, 255, 132, 53, 133,
      151, 15, 58, 126, 34, 41, 106, 146, 202, 213, 93, 72, 154, 39, 32, 114], rfl⟩),
    (.replicate 32 9, ⟨[140, 12, 193, 122, 4, 148, 44, 196, 248, 224, 254, 11, 48, 38, 6, 211, 16,
      136, 96, 193, 38, 66, 139, 162, 206, 235, 95, 158, 212, 28, 43, 5], rfl⟩),
    (.replicate 32 100, ⟨[251, 187, 182, 222, 42, 167, 76, 60, 149, 112, 210, 216, 219, 29, 227,
      30, 173, 182, 97, 19, 201, 96, 52, 167, 173, 178, 18, 67, 117, 77, 118, 131], rfl⟩)]

/-- SHA-256 on these tokens. -/
def sampleSha256 (token : Bytes32) : Bytes32 := (sampleDigests.lookup token).getD token

example : sampleSha256 (.replicate 32 7) = sampleDigest := by decide

def sampleKey : TokenId := .filled 8

def sampleIp : IpAddr := .v4 ⟨.replicate 4 10⟩

/-- The lease of that token, enrolled with `sampleKey`, hosted from 10.10.10.10 and saved at
1000. -/
def sampleRecord : LeaseRecord :=
  { tokenId := ⟨sampleDigest⟩, retiredTokenIds := [], recoveryId := some sampleKey, port := 10000
    lastIp := some sampleIp, expiresAtMs := 301000 }

def sampleText : String :=
  "\x7b\n  \"version\": 2,\n  \"leases\": [\n    \x7b\n" ++
  "      \"token_id\": \"4bb06f8e4e3a7715d201d573d0aa423762e55dabd61a2c02278fa56cc6d294e0\",\n" ++
  "      \"recovery_id\": \"0808080808080808080808080808080808080808080808080808080808080808\",\n" ++
  "      \"port\": 10000,\n      \"last_ip\": \"10.10.10.10\",\n      \"expires_at_ms\": 301000\n" ++
  "    \x7d\n  ]\n\x7d"

def sampleBytes : List UInt8 := sampleText.toUTF8.toList

def sampleState : PersistedV2 := ⟨2, [PersistedLease.fromRecord sampleRecord]⟩

/-- `serde_json` on that one state. -/
def sampleJson : SerdeJson where
  Value := PersistedV2
  fromSlice bytes := if bytes = sampleBytes then some sampleState else none
  hasVersion _ := true
  toPersistedV2 := some
  toLegacyState _ := none
  toVecPretty state := if state = sampleState then some sampleBytes else none

theorem sampleJson_lawful : sampleJson.Lawful where
  roundTrip {state bytes} h := by
    simp only [sampleJson, Option.ite_none_right_eq_some, Option.some.injEq] at h ⊢
    obtain ⟨rfl, rfl⟩ := h
    exact ⟨sampleState, by simp, trivial, rfl⟩

theorem LeaseStore.save_singleton {J : SerdeJson} {record : LeaseRecord} {bytes : List UInt8}
    (hprint : J.toVecPretty ⟨2, [PersistedLease.fromRecord record]⟩ = some bytes)
    (hlen : ¬maxStateBytes < bytes.length) (store : LeaseStore) (io : SaveOutcome) :
    store.save J [record] io =
    match io with
    | .saved => (.ok (), { store with file := some bytes })
    | .keptOld => (.error .io, store)
    | .replacedUnsynced => (.error .io, { store with file := some bytes }) := by
  have hsort : [PersistedLease.fromRecord record].mergeSort
      (fun a b => decide (a.port ≤ b.port)) = [PersistedLease.fromRecord record] :=
    List.mergeSort_singleton _
  simp only [save, List.map_cons, List.map_nil, hsort, hprint, hlen, if_false]

theorem sample_save (io : SaveOutcome) :
    LeaseStore.save sampleJson ⟨none, .absent⟩ [sampleRecord] io =
    match io with
    | .saved => (.ok (), ⟨some sampleBytes, .absent⟩)
    | .keptOld => (.error .io, ⟨none, .absent⟩)
    | .replacedUnsynced => (.error .io, ⟨some sampleBytes, .absent⟩) := by
  have hlen : ¬maxStateBytes < sampleBytes.length := by decide +kernel
  have hprint : sampleJson.toVecPretty ⟨2, [PersistedLease.fromRecord sampleRecord]⟩ =
      some sampleBytes := by simp [sampleJson, sampleState]
  exact LeaseStore.save_singleton hprint hlen _ io

end GameNet
