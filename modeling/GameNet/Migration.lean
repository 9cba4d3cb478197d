import GameNet.Legacy
import GameNet.Startup

/-!
# GameNet.Migration

The one-time migration of a legacy state file. The first start that succeeds writes a file of the
current format and keeps the legacy bytes in the backup.

The files are always in one of two states: the legacy file is in place and the backup is a prefix
of it (`Original`), or the new file is in place and the backup is complete (`Saved`). A start takes
`Original` to `Original` or to `Saved`, and changes nothing in `Saved`.
-/

namespace GameNet

/-! ## The files -/

/-- `source` is a legacy file of at most 1 MiB with valid entries. -/
structure LegacyFile (J : SerdeJson) (sha256 : Bytes32 → Bytes32)
    (entries : List (TunnelToken × UInt16)) (source : List UInt8) : Prop where
  length : source.length ≤ maxStateBytes
  parses : ∃ value legacy, J.fromSlice source = some value ∧ J.hasVersion value = false ∧
    J.toLegacyState value = some legacy ∧ legacy.Validates sha256 entries

/-- There is no backup, or one with the first of these bytes. -/
def Backup.PrefixOf (source : List UInt8) : Backup → Prop
  | .absent => True
  | .file bytes => bytes <+: source
  | .notRegular => False

namespace LeaseStore

/-- The migration has not taken place. -/
structure Original (source : List UInt8) (store : LeaseStore) : Prop where
  file : store.file = some source
  backup : store.backup.PrefixOf source

/-- The migration took place at `savedAt`. -/
structure Saved (J : SerdeJson) (sha256 : Bytes32 → Bytes32)
    (entries : List (TunnelToken × UInt16)) (source : List UInt8) (savedAt : UInt64)
    (store : LeaseStore) : Prop where
  file : ∃ bytes, store.file = some bytes ∧
    J.toVecPretty (migratedState sha256 entries savedAt) = some bytes
  backup : store.backup = .file source

variable {J : SerdeJson} {sha256 : Bytes32 → Bytes32} {entries : List (TunnelToken × UInt16)}
  {source : List UInt8} {now savedAt : UInt64} {store store' : LeaseStore} {loadIo : LoadIo}
  {create : CreateOutcome} {replace : SaveOutcome} {r : Except StoreError LeaseTable}
  {records : List LeaseRecord} {bytes : List UInt8} {io : SaveOutcome}

theorem save_eq (hb : J.toVecPretty (savedState records) = some bytes)
    (hlen : bytes.length ≤ maxStateBytes) : store.save J records io =
      match io with
      | .saved => (.ok (), store.put bytes .state)
      | .keptOld => (.error .io, store)
      | .replacedUnsynced => (.error .io, store.put bytes .state) := by
  rw [LeaseStore.save_printed hb hlen]
  rfl

theorem stores_saved (hJ : J.Lawful) (hb : J.toVecPretty (savedState records) = some bytes)
    (hlen : bytes.length ≤ maxStateBytes) (hf : store.file = some bytes) :
    ∃ sorted : List LeaseRecord, sorted.Perm records ∧ Stores J store sorted := by
  have hsave : store.save J records .saved = (.ok (), store.put bytes .state) := by
    rw [save_eq hb hlen]
  have hput : store.put bytes .state = store := by
    obtain ⟨state, backup⟩ := store
    cases hf
    rfl
  rw [hput] at hsave
  rcases save_cases hJ hsave with ⟨-, hstores⟩ | ⟨⟨e, he⟩, -⟩
  · exact hstores
  · cases he

/-- A backup that is a prefix is completed, or fails and stays a prefix. -/
theorem backupLegacy_prefix (h : store.backup.PrefixOf source) :
    store.backupLegacy source create replace = (.ok (), store.put source .backup) ∨
      ∃ store', store.backupLegacy source create replace = (.error .io, store') ∧
        store'.file = store.file ∧ store'.backup.PrefixOf source := by
  cases hb : store.backup with
  | notRegular => rw [hb] at h; exact h.elim
  | absent =>
    rw [backupLegacy_absent hb]
    cases create with
    | created => exact .inl rfl
    | absent =>
      refine .inr ⟨store, rfl, rfl, ?_⟩
      rw [hb]
      trivial
    | partly n => exact .inr ⟨_, rfl, rfl, List.take_prefix n source⟩
  | file existing =>
    rw [hb] at h
    by_cases hlen : existing.length = source.length
    · obtain rfl := List.IsPrefix.eq_of_length h hlen
      have hput : store.put existing .backup = store := by
        obtain ⟨state, backup⟩ := store
        cases hb
        rfl
      rw [backupLegacy_complete hb, hput]
      by_cases hr : replace = .saved
      · rw [if_pos hr]
        exact .inl rfl
      · rw [if_neg hr]
        refine .inr ⟨store, rfl, rfl, ?_⟩
        rw [hb]
        exact List.prefix_rfl
    · rw [backupLegacy_incomplete hb h hlen]
      cases replace with
      | saved => exact .inl rfl
      | keptOld =>
        refine .inr ⟨store, rfl, rfl, ?_⟩
        rw [hb]
        exact h
      | replacedUnsynced => exact .inr ⟨_, rfl, rfl, List.prefix_rfl⟩

/-- Nothing that could fail does. -/
theorem backupLegacy_prefix_saved (h : store.backup.PrefixOf source) :
    store.backupLegacy source .created .saved = (.ok (), store.put source .backup) := by
  rcases backupLegacy_prefix h with hok | ⟨store', herror, -⟩
  · exact hok
  · cases hb : store.backup with
    | notRegular => rw [hb] at h; exact h.elim
    | absent =>
      rw [backupLegacy_absent hb] at herror
      cases herror
    | file existing =>
      rw [hb] at h
      by_cases hlen : existing.length = source.length
      · obtain rfl := List.IsPrefix.eq_of_length h hlen
        rw [backupLegacy_complete hb] at herror
        cases herror
      · rw [backupLegacy_incomplete hb h hlen] at herror
        cases herror

/-- A start that finds the legacy file. -/
theorem loadOrCreate_legacy (hl : LegacyFile J sha256 entries source)
    (hf : store.file = some source) :
    store.loadOrCreate J sha256 now loadIo =
      match store.backupLegacy source loadIo.create loadIo.replace with
      | (.error e, store) => (.error e, store)
      | (.ok (), store) =>
        match store.save J ((migratedTable sha256 entries now).snapshot now) loadIo.save with
        | (.error e, store) => (.error e, store)
        | (.ok (), store) => (.ok (migratedTable sha256 entries now), store) := by
  obtain ⟨value, legacy, hv, hver, hlegacy, hvalid⟩ := hl.parses
  simp only [loadOrCreate, hf, Nat.not_lt.mpr hl.length, if_false, hv, hver, Bool.false_eq_true,
    loadLegacy, hlegacy, hvalid.migrateLegacy]
  rfl

/-- A start before the migration leaves it undone or done, however it goes. -/
theorem Original.kept (h : Original source store) (hl : LegacyFile J sha256 entries source)
    (hp : J.Prints (migratedState sha256 entries now)) (loadIo : LoadIo) :
    Original source (store.loadOrCreate J sha256 now loadIo).2 ∨
      Saved J sha256 entries source now (store.loadOrCreate J sha256 now loadIo).2 := by
  obtain ⟨value, legacy, hv, hver, hlegacy, hvalid⟩ := hl.parses
  obtain ⟨bytes, hb, hlen⟩ := length_migratedState_le hvalid hp
  rw [loadOrCreate_legacy hl h.file]
  rcases backupLegacy_prefix h.backup with hbackup | ⟨store', hbackup, hfile, hprefix⟩
  · rw [hbackup]
    dsimp only
    rw [save_eq hb hlen]
    cases loadIo.save with
    | saved => exact .inr ⟨⟨bytes, rfl, hb⟩, rfl⟩
    | keptOld => exact .inl ⟨h.file, List.prefix_rfl⟩
    | replacedUnsynced => exact .inr ⟨⟨bytes, rfl, hb⟩, rfl⟩
  · rw [hbackup]
    exact .inl ⟨hfile.trans h.file, hprefix⟩

/-- When nothing fails it is done. -/
theorem Original.result (h : Original source store) (hl : LegacyFile J sha256 entries source)
    (hp : J.Prints (migratedState sha256 entries now))
    (hr : store.loadOrCreate J sha256 now ⟨.created, .saved, .saved⟩ = (r, store')) :
    r = .ok (migratedTable sha256 entries now) ∧
      Saved J sha256 entries source now store' := by
  obtain ⟨value, legacy, hv, hver, hlegacy, hvalid⟩ := hl.parses
  obtain ⟨bytes, hb, hlen⟩ := length_migratedState_le hvalid hp
  rw [loadOrCreate_legacy hl h.file, backupLegacy_prefix_saved h.backup] at hr
  dsimp only at hr
  rw [save_eq hb hlen] at hr
  cases hr
  exact ⟨rfl, ⟨bytes, rfl, hb⟩, rfl⟩

/-- A start after the migration loads what it saved and writes nothing. -/
theorem Saved.load (h : Saved J sha256 entries source savedAt store) (hJ : J.Lawful)
    (hl : LegacyFile J sha256 entries source)
    (hp : J.Prints (migratedState sha256 entries savedAt)) (hle : savedAt ≤ now) :
    ∃ table, store.loadOrCreate J sha256 now loadIo = (.ok table, store) ∧
      Migrated sha256 entries savedAt now table := by
  obtain ⟨value, legacy, hv, hver, hlegacy, hvalid⟩ := hl.parses
  obtain ⟨bytes, hb, hlen⟩ := length_migratedState_le hvalid hp
  obtain ⟨bytes', hf, hb'⟩ := h.file
  obtain rfl : bytes = bytes' := Option.some.inj (hb.symm.trans hb')
  obtain ⟨records, hperm, hstores⟩ := stores_saved hJ hb hlen hf
  obtain ⟨table, hrestore, hmigrated⟩ := restore_migrated hvalid hle hperm
  refine ⟨table, ?_, hmigrated⟩
  rw [hstores.load, hrestore]

/-- A backup of something else stops every start before it writes anything. -/
theorem loadOrCreate_differs (hl : LegacyFile J sha256 entries source)
    (hf : store.file = some source) {existing : List UInt8} (hb : store.backup = .file existing)
    (hp : ¬existing <+: source) :
    store.loadOrCreate J sha256 now loadIo = (.error .backupDiffers, store) := by
  rw [loadOrCreate_legacy hl hf, backupLegacy_differs hb hp]

end LeaseStore

/-! ## Runs -/

namespace Startup

open LeaseStore (Original Saved)

variable {J : SerdeJson} {sha256 : Bytes32 → Bytes32} {entries : List (TunnelToken × UInt16)}
  {source existing : List UInt8} {savedAt now : UInt64} {store : LeaseStore} {s s' : Startup}
  {es : List Event}

/-- The migration is not done, or it was done at some time. -/
def Migrating (J : SerdeJson) (sha256 : Bytes32 → Bytes32) (entries : List (TunnelToken × UInt16))
    (source : List UInt8) (now : UInt64) (store : LeaseStore) : Prop :=
  Original source store ∨ ∃ savedAt ≤ now,
    J.Prints (migratedState sha256 entries savedAt) ∧ Saved J sha256 entries source savedAt store

/-- The result of a start has the leases that were saved at `savedAt`. -/
def Loads (sha256 : Bytes32 → Bytes32) (entries : List (TunnelToken × UInt16))
    (savedAt now : UInt64) (result : Except StoreError LeaseTable) : Prop :=
  ∃ table, result = .ok table ∧ Migrated sha256 entries savedAt now table

/-- The migration is done, and the result has its leases. -/
def LoadsSaved (J : SerdeJson) (sha256 : Bytes32 → Bytes32)
    (entries : List (TunnelToken × UInt16)) (source : List UInt8) (now : UInt64)
    (result : Except StoreError LeaseTable) (store : LeaseStore) : Prop :=
  ∃ savedAt ≤ now, J.Prints (migratedState sha256 entries savedAt) ∧
    Saved J sha256 entries source savedAt store ∧ Loads sha256 entries savedAt now result

theorem keeps_migrating (hJ : J.Lawful) (hl : LegacyFile J sha256 entries source) :
    Keeps J sha256 (fun now => J.Prints (migratedState sha256 entries now))
      (Migrating J sha256 entries source) (LoadsSaved J sha256 entries source) where
  later := by
    rintro store now now' hle (ho | ⟨savedAt, hs, hrest⟩)
    · exact .inl ho
    · exact .inr ⟨savedAt, UInt64.le_trans hs hle, hrest⟩
  kept := by
    rintro store now hp (ho | ⟨savedAt, hle, hprints, hs⟩) io
    · rcases ho.kept hl hp io with ho | hs
      · exact .inl ho
      · exact .inr ⟨now, UInt64.le_refl _, hp, hs⟩
    · obtain ⟨table, hload, -⟩ := hs.load hJ hl hprints hle
      rw [hload]
      exact .inr ⟨savedAt, hle, hprints, hs⟩
  result := by
    rintro store store' now r hp (ho | ⟨savedAt, hle, hprints, hs⟩) hr
    · obtain ⟨rfl, hs⟩ := ho.result hl hp hr
      obtain ⟨_, _, _, _, _, hvalid⟩ := hl.parses
      exact ⟨now, UInt64.le_refl _, hp, hs, _, rfl, migratedTable_migrated hvalid now⟩
    · obtain ⟨table, hload, hmigrated⟩ := hs.load hJ hl hprints hle
      rw [hload] at hr
      cases hr
      exact ⟨savedAt, hle, hprints, hs, table, rfl, hmigrated⟩

theorem keeps_saved (hJ : J.Lawful) (hl : LegacyFile J sha256 entries source)
    (hp : J.Prints (migratedState sha256 entries savedAt)) :
    Keeps J sha256 (fun _ => True)
      (fun now store => savedAt ≤ now ∧ Saved J sha256 entries source savedAt store)
      fun now result _ => Loads sha256 entries savedAt now result where
  later := fun hle h => ⟨UInt64.le_trans h.1 hle, h.2⟩
  kept := by
    rintro store now - ⟨hle, hs⟩ io
    obtain ⟨table, hload, -⟩ := hs.load hJ hl hp hle
    rw [hload]
    exact ⟨hle, hs⟩
  result := by
    rintro store store' now r - ⟨hle, hs⟩ hr
    obtain ⟨table, hload, hmigrated⟩ := hs.load hJ hl hp hle
    rw [hload] at hr
    cases hr
    exact ⟨table, rfl, hmigrated⟩

theorem keeps_differs (hl : LegacyFile J sha256 entries source) (hf : store.file = some source)
    (hb : store.backup = .file existing) (hp : ¬existing <+: source) :
    Keeps J sha256 (fun _ => True) (fun _ store' => store' = store)
      fun _ result _ => result = .error .backupDiffers where
  later := fun _ h => h
  kept := by
    rintro _ now - rfl io
    rw [LeaseStore.loadOrCreate_differs hl hf hb hp]
  result := by
    rintro _ store' now r - rfl hr
    rw [LeaseStore.loadOrCreate_differs hl hf hb hp] at hr
    cases hr
    rfl

/-- A result leaves no run going on. -/
theorem Step.idle {result : Except StoreError LeaseTable}
    (h : Step J sha256 s (.finished now result) s') : s'.running = none := by
  cases h with
  | finish => rfl
  | refuse => rfl

/-- From the first result on, what every start loads was saved at one time. -/
theorem Sound.migrated (hJ : J.Lawful) (hl : LegacyFile J sha256 entries source)
    (h : Sound (Migrating J sha256 entries source) (LoadsSaved J sha256 entries source) s)
    (hrun : Trace (Step J sha256) s es s')
    (hprint : ∀ now, .started now ∈ es → J.Prints (migratedState sha256 entries now)) :
    (Original source s'.disk.store ∧ ∀ now result, .finished now result ∉ es) ∨
      ∃ savedAt ≤ s'.clock, Saved J sha256 entries source savedAt s'.disk.store ∧
        ∀ now result, .finished now result ∈ es → Loads sha256 entries savedAt now result := by
  induction hrun with
  | refl =>
    rcases h.kept with ho | ⟨savedAt, hle, -, hs⟩
    · exact .inl ⟨ho, fun _ _ => List.not_mem_nil⟩
    · exact .inr ⟨savedAt, hle, hs, nofun⟩
  | @cons s s₁ s' e es hstep hrest ih =>
    obtain ⟨h₁, hresult⟩ := h.step (keeps_migrating hJ hl) hstep fun now he =>
      hprint now (he ▸ List.mem_cons_self)
    by_cases hfinished : ∃ now result, e = .finished now result
    · -- the first result: the rest of the run is about the time it was saved at
      obtain ⟨now, result, rfl⟩ := hfinished
      obtain ⟨rfl, savedAt, hle, hp, hs, hloads⟩ := hresult now result rfl
      have hsaved := Sound.idle (R := fun now result _ => Loads sha256 entries savedAt now result)
        (I := fun now store => savedAt ≤ now ∧ Saved J sha256 entries source savedAt store)
        ⟨hle, hs⟩ hstep.idle
      obtain ⟨h', hresults⟩ := hsaved.trace (keeps_saved hJ hl hp) hrest fun _ _ => trivial
      refine .inr ⟨savedAt, h'.kept.1, h'.kept.2, fun now' result' hm => ?_⟩
      rcases List.mem_cons.mp hm with he | hm
      · cases he
        exact hloads
      · obtain ⟨_, hloads'⟩ := hresults now' result' hm
        exact hloads'
    · have htail : ∀ now result, .finished now result ∈ e :: es → .finished now result ∈ es := by
        intro now result hm
        rcases List.mem_cons.mp hm with he | hm
        · exact absurd ⟨now, result, he.symm⟩ hfinished
        · exact hm
      rcases ih h₁ fun now hm => hprint now (List.mem_cons_of_mem _ hm) with
        ⟨ho, hno⟩ | ⟨savedAt, hle, hs, hresults⟩
      · exact .inl ⟨ho, fun now result hm => hno now result (htail now result hm)⟩
      · exact .inr ⟨savedAt, hle, hs, fun now result hm =>
          hresults now result (htail now result hm)⟩

/-- **The migration is crash-safe.** Starts from a legacy file, any of which may stop at any call,
keep the legacy file until the new file and the complete backup are in place. Every start with a
result, so also the first, has the leases that were saved, and one that nothing stops has a result.
With a backup of something else every start fails and writes nothing. -/
theorem crash_safe (hJ : J.Lawful) (hl : LegacyFile J sha256 entries source)
    (hfile : s.disk.store.file = some source) (hidle : s.running = none)
    (hrun : Trace (Step J sha256) s es s')
    (hprint : ∀ now, .started now ∈ es → J.Prints (migratedState sha256 entries now)) :
    (s.disk.store.backup.PrefixOf source →
      ((Original source s'.disk.store ∧ ∀ now result, .finished now result ∉ es) ∨
        ∃ savedAt ≤ s'.clock, Saved J sha256 entries source savedAt s'.disk.store ∧
          ∀ now result, .finished now result ∈ es → Loads sha256 entries savedAt now result) ∧
      (s'.running = none → ∀ now, s'.clock ≤ now → J.Prints (migratedState sha256 entries now) →
        ∃ table s'', Completes J sha256 s' now (.ok table) s'')) ∧
    (∀ existing, s.disk.store.backup = .file existing → ¬existing <+: source →
      s'.disk.store = s.disk.store ∧
      (∀ now result, .finished now result ∈ es → result = .error .backupDiffers) ∧
      (s'.running = none → ∀ now, s'.clock ≤ now →
        ∃ s'', Completes J sha256 s' now (.error .backupDiffers) s'')) := by
  constructor
  · intro hprefix
    have hk := keeps_migrating hJ hl
    have hsound : Sound (Migrating J sha256 entries source) (LoadsSaved J sha256 entries source) s :=
      .idle (.inl ⟨hfile, hprefix⟩) hidle
    refine ⟨hsound.migrated hJ hl hrun hprint, fun hidle' now hclock hp => ?_⟩
    obtain ⟨result, s'', hcompletes, savedAt, -, -, -, table, rfl, -⟩ :=
      (hsound.trace hk hrun hprint).1.completes hk hidle' hp hclock
    exact ⟨table, s'', hcompletes⟩
  · intro existing hb hp
    have hk : Keeps J sha256 _ _ _ := keeps_differs hl hfile hb hp
    have hsound : Sound (fun _ store => store = s.disk.store)
        (fun _ result _ => result = .error .backupDiffers) s := .idle rfl hidle
    obtain ⟨hsound', hresults⟩ := hsound.trace hk hrun fun _ _ => trivial
    refine ⟨hsound'.kept, fun now result hm => ?_, fun hidle' now hclock => ?_⟩
    · obtain ⟨_, hresult⟩ := hresults now result hm
      exact hresult
    · obtain ⟨result, s'', hcompletes, rfl⟩ := hsound'.completes hk hidle' trivial hclock
      exact ⟨s'', hcompletes⟩

/-! ## One entry -/

/-- A legacy file with the token of 32 bytes 7. -/
def sampleLegacyText : String :=
  "\x7b\"token_ports\":[[" ++
    "\"0707070707070707070707070707070707070707070707070707070707070707\",10000]]\x7d"

def sampleLegacyBytes : List UInt8 := sampleLegacyText.toUTF8.data.toList

def sampleLegacy : LegacyState := ⟨[(hex32 (.replicate 32 7), 10000)]⟩

def sampleEntries : List (TunnelToken × UInt16) := [(.replicate 32 7, 10000)]

/-- The state of that one lease. -/
def sampleMigrated (now : UInt64) : PersistedV2 :=
  ⟨2, [PersistedLease.fromRecord (legacyRecord (fun _ => sampleDigest) now (.replicate 32 7, 10000))]⟩

/-- `serde_json` on the legacy file and on the state saved at 1000 or at 2000. -/
def sampleLegacyJson : SerdeJson where
  Value := Option PersistedV2
  fromSlice bytes :=
    if bytes = sampleLegacyBytes then some none
    else if bytes = (sampleMigrated 1000).toJson.toBytes then some (some (sampleMigrated 1000))
    else if bytes = (sampleMigrated 2000).toJson.toBytes then some (some (sampleMigrated 2000))
    else none
  hasVersion value := value.isSome
  toPersistedV2 value := value
  toLegacyState value := if value = none then some sampleLegacy else none
  toVecPretty state :=
    if state = sampleMigrated 1000 ∨ state = sampleMigrated 2000 then some state.toJson.toBytes
    else none

theorem sampleLegacyJson_lawful : sampleLegacyJson.Lawful where
  roundTrip {state bytes} h := by
    have h₁ : (sampleMigrated 1000).toJson.toBytes ≠ sampleLegacyBytes := by decide +kernel
    have h₂ : (sampleMigrated 2000).toJson.toBytes ≠ sampleLegacyBytes := by decide +kernel
    have h₃ : (sampleMigrated 2000).toJson.toBytes ≠ (sampleMigrated 1000).toJson.toBytes := by
      decide +kernel
    simp only [sampleLegacyJson, Option.ite_none_right_eq_some, Option.some.injEq] at h
    obtain ⟨rfl | rfl, rfl⟩ := h
    · refine ⟨some (sampleMigrated 1000), ?_, rfl, rfl⟩
      simp only [sampleLegacyJson, if_neg h₁, if_true]
    · refine ⟨some (sampleMigrated 2000), ?_, rfl, rfl⟩
      simp only [sampleLegacyJson, if_neg h₂, if_neg h₃, if_true]

theorem sampleLegacy_validates : sampleLegacy.Validates (fun _ => sampleDigest) sampleEntries where
  parses := .cons ⟨parseHex32_hex32 _, rfl⟩ .nil
  length := by decide
  inRange := List.forall_mem_singleton.mpr ⟨by decide, by decide⟩
  ports := List.nodup_singleton _
  tokens := List.nodup_singleton _
  injective := by
    intro token hm token' hm' _
    exact (List.mem_singleton.mp hm).trans (List.mem_singleton.mp hm').symm

theorem sampleLegacy_file :
    LegacyFile sampleLegacyJson (fun _ => sampleDigest) sampleEntries sampleLegacyBytes where
  length := by decide +kernel
  parses := by
    refine ⟨none, sampleLegacy, ?_, rfl, rfl, sampleLegacy_validates⟩
    simp only [sampleLegacyJson, if_true]

theorem sampleMigrated_eq {now : UInt64} (hlt : now < now.saturatingAdd graceMs) :
    migratedState (fun _ => sampleDigest) sampleEntries now = sampleMigrated now := by
  have hsnapshot : (migratedTable (fun _ => sampleDigest) sampleEntries now).snapshot now =
      [legacyRecord (fun _ => sampleDigest) now (.replicate 32 7, 10000)] := by
    have hle : ¬now.saturatingAdd graceMs ≤ now := UInt64.not_le.mpr hlt
    simp only [migratedTable, sampleEntries, List.map_cons, List.map_nil, LeaseTable.load,
      List.foldl_cons, List.foldl_nil, legacyRecord, bareRecord, hle, if_false]
    rfl
  rw [migratedState, savedState, hsnapshot]
  exact congrArg (PersistedV2.mk 2) (List.mergeSort_singleton _)

theorem sampleLegacy_prints {now : UInt64} (h : now = 1000 ∨ now = 2000) :
    sampleLegacyJson.Prints (migratedState (fun _ => sampleDigest) sampleEntries now) := by
  have hlt : now < now.saturatingAdd graceMs := by
    rcases h with rfl | rfl
    · decide
    · decide
  rw [sampleMigrated_eq hlt, SerdeJson.Prints]
  have hprinted : sampleMigrated now = sampleMigrated 1000 ∨
      sampleMigrated now = sampleMigrated 2000 := by
    rcases h with rfl | rfl
    · exact .inl rfl
    · exact .inr rfl
  simp only [sampleLegacyJson, hprinted, if_true]

/-- The first start is stopped at once; the second finds half a backup and completes. -/
theorem crash_safe_one_entry : ∃ es s' savedAt result,
    Trace (Step sampleLegacyJson fun _ => sampleDigest)
      ⟨⟨⟨some sampleLegacyBytes, .file (sampleLegacyBytes.take 40)⟩, []⟩, 0, none⟩
      (.started 1000 :: .stopped :: es) s' ∧
    s'.disk.store.backup = .file sampleLegacyBytes ∧ .finished 2000 result ∈ es ∧
    Loads (fun _ => sampleDigest) sampleEntries savedAt 2000 result := by
  have hfile := sampleLegacy_file
  have hJ := sampleLegacyJson_lawful
  let s : Startup := ⟨⟨⟨some sampleLegacyBytes, .file (sampleLegacyBytes.take 40)⟩, []⟩, 0, none⟩
  have hprefix : Backup.PrefixOf sampleLegacyBytes (.file (sampleLegacyBytes.take 40)) :=
    List.take_prefix 40 _
  have hcrash : Trace (Step sampleLegacyJson fun _ => sampleDigest) s [.started 1000, .stopped]
      { s with clock := 1000 } := .cons (.start rfl (by decide)) (.single (.stop rfl))
  have hprint : ∀ now, .started now ∈ [Event.started 1000, .stopped] →
      sampleLegacyJson.Prints (migratedState (fun _ => sampleDigest) sampleEntries now) := by
    intro now hm
    simp only [List.mem_cons, Event.started.injEq, reduceCtorEq, List.not_mem_nil, or_false] at hm
    exact sampleLegacy_prints (.inl hm)
  obtain ⟨table, s', calls, hcompletes⟩ :=
    ((crash_safe hJ hfile (s := s) rfl rfl hcrash hprint).1 hprefix).2 rfl 2000 (by decide)
      (sampleLegacy_prints (.inr rfl))
  have hrun := hcrash.trans hcompletes
  have hprint' : ∀ now, .started now ∈ [Event.started 1000, .stopped] ++
      (.started 2000 :: calls.map .called ++ [.finished 2000 (.ok table)]) →
      sampleLegacyJson.Prints (migratedState (fun _ => sampleDigest) sampleEntries now) := by
    intro now hm
    refine sampleLegacy_prints ?_
    simpa using hm
  have hlast : Event.finished 2000 (.ok table) ∈
      .started 2000 :: calls.map .called ++ [.finished 2000 (.ok table)] := by simp
  rcases ((crash_safe hJ hfile (s := s) rfl rfl hrun hprint').1 hprefix).1 with
    ⟨-, hno⟩ | ⟨savedAt, -, hsaved, hloads⟩
  · exact absurd (List.mem_append_right _ hlast) (hno 2000 _)
  · exact ⟨_, s', savedAt, _, hrun, hsaved.backup, hlast,
      hloads _ _ (List.mem_append_right _ hlast)⟩

end Startup

end GameNet
