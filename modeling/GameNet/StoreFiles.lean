import GameNet.LeaseStore
import GameNet.Lib.Program

/-!
# GameNet.StoreFiles

Loading and saving the relay's state (`crates/server/src/lease_store.rs`), one file-system call at
a time. A run can end at any call: the process crashes there, or the call fails. A rename takes
place in one step, a write in as many steps as the system likes, in order.

`LeaseStore.loadOrCreate` takes the whole run as one step that is told how it goes. It is what the
calls amount to: at every call the two files are as after some such step, and a run that gets to
its end has the result of the step in which nothing fails (`obeys_loadOrCreate`).
-/

namespace GameNet

inductive StorePath where
  | state
  | backup
deriving DecidableEq

/-- A file that is open for writing: a `NamedTempFile`, or the backup. -/
inductive StoreFile where
  | temp
  | backup
deriving DecidableEq

inductive StoreCall where
  /-- `fs::metadata` of the state file -/
  | metadata
  /-- `fs::symlink_metadata` of the backup -/
  | symlinkMetadata
  /-- `fs::read` -/
  | read (path : StorePath)
  /-- `NamedTempFile::new_in` -/
  | createTemp
  /-- `OpenOptions::open` of the backup, with `create_new` -/
  | createNew
  | setOwnerOnly (file : StoreFile)
  /-- One `write`, which may take fewer bytes than it is given. -/
  | write (file : StoreFile) (bytes : List UInt8)
  | syncAll (file : StoreFile)
  /-- `NamedTempFile::persist` -/
  | persist (path : StorePath)
  | syncDirectory

/-- What a call returns: a length and `is_file`, if there is a file; what is read; how many bytes
are written. -/
abbrev StoreAnswer : StoreCall → Type
  | .metadata => Option Nat
  | .symlinkMetadata => Option Bool
  | .read _ => List UInt8
  | .write _ _ => Nat
  | .createTemp => Unit
  | .createNew => Unit
  | .setOwnerOnly _ => Unit
  | .syncAll _ => Unit
  | .persist _ => Unit
  | .syncDirectory => Unit

abbrev StoreProg := Program StoreCall StoreAnswer StoreError

namespace StoreProg

open Program (perform fail)

abbrev metadata : StoreProg (Option Nat) := perform StoreCall.metadata
abbrev symlinkMetadata : StoreProg (Option Bool) := perform StoreCall.symlinkMetadata
abbrev read (path : StorePath) : StoreProg (List UInt8) := perform (StoreCall.read path)
abbrev createTemp : StoreProg Unit := perform StoreCall.createTemp
abbrev createNew : StoreProg Unit := perform StoreCall.createNew
abbrev setOwnerOnly (file : StoreFile) : StoreProg Unit := perform (StoreCall.setOwnerOnly file)
abbrev write (file : StoreFile) (bytes : List UInt8) : StoreProg Nat :=
  perform (StoreCall.write file bytes)
abbrev syncAll (file : StoreFile) : StoreProg Unit := perform (StoreCall.syncAll file)
abbrev persist (path : StorePath) : StoreProg Unit := perform (StoreCall.persist path)
abbrev syncDirectory : StoreProg Unit := perform StoreCall.syncDirectory

/-- `write_all` -/
def writeAll (file : StoreFile) (bytes : List UInt8) : StoreProg Unit :=
  if bytes = [] then pure ()
  else do
    let n ← write file bytes
    if n = 0 then fail .io
    else writeAll file (bytes.drop n)
termination_by bytes.length
decreasing_by
  rename_i hbytes hn
  have := List.length_pos_iff.mpr hbytes
  rw [List.length_drop]
  omega

/-- A file is written to a temporary file that takes its place. -/
def replace (path : StorePath) (bytes : List UInt8) : StoreProg Unit := do
  createTemp
  setOwnerOnly .temp
  writeAll .temp bytes
  syncAll .temp
  persist path
  syncDirectory

def save (J : SerdeJson) (records : List LeaseRecord) : StoreProg Unit :=
  let leases := records.map PersistedLease.fromRecord
  let leases := leases.mergeSort fun a b => decide (a.port ≤ b.port)
  match J.toVecPretty { version := 2, leases := leases } with
  | none => fail .json
  | some bytes =>
    if maxStateBytes < bytes.length then fail .stateTooLarge
    else replace .state bytes

def backupLegacy (bytes : List UInt8) : StoreProg Unit := do
  match ← symlinkMetadata with
  | some false => fail .backupNotRegular
  | some true =>
    let existing ← read .backup
    if !existing.isPrefixOf bytes then fail .backupDiffers
    else if existing.length = bytes.length then
      setOwnerOnly .backup
      syncAll .backup
      syncDirectory
    else replace .backup bytes
  | none =>
    createNew
    writeAll .backup bytes
    syncAll .backup
    syncDirectory

def loadLegacy (J : SerdeJson) (sha256 : Bytes32 → Bytes32) (bytes : List UInt8) (value : J.Value)
    (now : UInt64) : StoreProg LeaseTable :=
  match J.toLegacyState value with
  | none => fail .json
  | some legacy =>
    match LeaseStore.migrateLegacy sha256 legacy now with
    | .error e => fail e
    | .ok table => do
      backupLegacy bytes
      save J (table.snapshot now)
      pure table

/-- `load_or_create` on the bytes of the file. -/
def loadBytes (J : SerdeJson) (sha256 : Bytes32 → Bytes32) (bytes : List UInt8) (now : UInt64) :
    StoreProg LeaseTable :=
  if maxStateBytes < bytes.length then fail .fileTooLarge
  else
    match J.fromSlice bytes with
    | none => fail .json
    | some value =>
      if J.hasVersion value then
        match LeaseStore.loadCurrent J value now with
        | .error e => fail e
        | .ok table => pure table
      else loadLegacy J sha256 bytes value now

def loadOrCreate (J : SerdeJson) (sha256 : Bytes32 → Bytes32) (now : UInt64) :
    StoreProg LeaseTable := do
  match ← metadata with
  | none => pure .new
  | some length =>
    if maxStateBytes < length then fail .fileTooLarge
    else
      let bytes ← read .state
      loadBytes J sha256 bytes now

end StoreProg

/-! ## The disk -/

/-- `symlink_metadata`, and of that `file_type().is_file()` -/
def Backup.isFile : Backup → Option Bool
  | .absent => none
  | .file _ => some true
  | .notRegular => some false

/-- There is a file at the path, with these bytes. -/
def LeaseStore.put (store : LeaseStore) (bytes : List UInt8) : StorePath → LeaseStore
  | .state => { store with file := some bytes }
  | .backup => { store with backup := .file bytes }

/-- The files of the store, and what is written to the temporary file. -/
structure Disk where
  store : LeaseStore
  temp : List UInt8

namespace Disk

def append (disk : Disk) (bytes : List UInt8) : StoreFile → Disk
  | .temp => { disk with temp := disk.temp ++ bytes }
  | .backup =>
    match disk.store.backup with
    | .file written => { disk with store := disk.store.put (written ++ bytes) .backup }
    | _ => disk

/-- The answer of a call and the disk it leaves, `n` being how much is written. A call that fails
has no answer. -/
def serve (disk : Disk) (n : Nat) : (c : StoreCall) → Option (StoreAnswer c × Disk)
  | .metadata => some (disk.store.file.map List.length, disk)
  | .symlinkMetadata => some (disk.store.backup.isFile, disk)
  | .read .state =>
    match disk.store.file with
    | none => none
    | some bytes => some (bytes, disk)
  | .read .backup =>
    match disk.store.backup with
    | .file bytes => some (bytes, disk)
    | _ => none
  | .createTemp => some ((), { disk with temp := [] })
  | .createNew =>
    match disk.store.backup with
    | .absent => some ((), { disk with store := disk.store.put [] .backup })
    | _ => none
  | .setOwnerOnly _ => some ((), disk)
  | .write file bytes =>
    if 0 < n ∧ n ≤ bytes.length then some (n, disk.append (bytes.take n) file) else none
  | .syncAll _ => some ((), disk)
  | .persist path => some ((), { store := disk.store.put disk.temp path, temp := [] })
  | .syncDirectory => some ((), disk)

@[simp] theorem append_nil (disk : Disk) (file : StoreFile) : disk.append [] file = disk := by
  obtain ⟨⟨state, backup⟩, temp⟩ := disk
  cases file with
  | temp => simp [append]
  | backup => cases backup <;> simp [append, LeaseStore.put]

@[simp] theorem append_append (disk : Disk) (bytes bytes' : List UInt8) (file : StoreFile) :
    (disk.append bytes file).append bytes' file = disk.append (bytes ++ bytes') file := by
  obtain ⟨⟨state, backup⟩, temp⟩ := disk
  cases file with
  | temp => simp [append]
  | backup => cases backup <;> simp [append, LeaseStore.put]

@[simp] theorem append_temp (disk : Disk) (bytes : List UInt8) :
    (disk.append bytes .temp).store = disk.store := rfl

end Disk

/-! ## The cases of the backup -/

namespace LeaseStore

variable {store : LeaseStore} {bytes existing : List UInt8} {create : CreateOutcome}
  {replace : SaveOutcome}

theorem backupLegacy_notRegular (h : store.backup = .notRegular) :
    store.backupLegacy bytes create replace = (.error .backupNotRegular, store) := by
  obtain ⟨state, backup⟩ := store
  cases h
  rfl

theorem backupLegacy_differs (h : store.backup = .file existing) (hp : ¬existing <+: bytes) :
    store.backupLegacy bytes create replace = (.error .backupDiffers, store) := by
  obtain ⟨state, backup⟩ := store
  cases h
  have hp : (!existing.isPrefixOf bytes) = true := by
    rwa [← List.isPrefixOf_iff_prefix, Bool.not_eq_true, ← Bool.not_eq_true'] at hp
  exact if_pos hp

/-- A complete backup stays as it is. -/
theorem backupLegacy_complete (h : store.backup = .file bytes) :
    store.backupLegacy bytes create replace =
      (if replace = .saved then .ok () else .error .io, store) := by
  obtain ⟨state, backup⟩ := store
  cases h
  have hp : ¬(!bytes.isPrefixOf bytes) = true := by simp
  refine (if_neg hp).trans ((if_pos rfl).trans ?_)
  cases replace <;> rfl

/-- A partial backup is replaced. -/
theorem backupLegacy_incomplete (h : store.backup = .file existing) (hp : existing <+: bytes)
    (hlen : existing.length ≠ bytes.length) :
    store.backupLegacy bytes create replace =
      match replace with
      | .saved => (.ok (), store.put bytes .backup)
      | .keptOld => (.error .io, store)
      | .replacedUnsynced => (.error .io, store.put bytes .backup) := by
  obtain ⟨state, backup⟩ := store
  cases h
  have hp : ¬(!existing.isPrefixOf bytes) = true := by
    simpa [← List.isPrefixOf_iff_prefix] using hp
  refine (if_neg hp).trans ((if_neg hlen).trans ?_)
  cases replace <;> rfl

theorem backupLegacy_absent (h : store.backup = .absent) :
    store.backupLegacy bytes create replace =
      match create with
      | .created => (.ok (), store.put bytes .backup)
      | .absent => (.error .io, store)
      | .partly n => (.error .io, store.put (bytes.take n) .backup) := by
  obtain ⟨state, backup⟩ := store
  cases h
  cases create <;> rfl

/-- When nothing is written the files stay as they are. -/
theorem backupLegacy_quiet (store : LeaseStore) (bytes : List UInt8) :
    (store.backupLegacy bytes .absent .keptOld).2 = store := by
  cases hb : store.backup with
  | absent => rw [backupLegacy_absent hb]
  | notRegular => rw [backupLegacy_notRegular hb]
  | file existing =>
    by_cases hp : existing <+: bytes
    · by_cases hlen : existing.length = bytes.length
      · obtain rfl := hp.eq_of_length hlen
        rw [backupLegacy_complete hb]
      · rw [backupLegacy_incomplete hb hp hlen]
    · rw [backupLegacy_differs hb hp]

theorem save_quiet (J : SerdeJson) (store : LeaseStore) (records : List LeaseRecord) :
    (store.save J records .keptOld).2 = store := by
  unfold save
  dsimp only
  split
  · rfl
  · split <;> rfl

theorem loadLegacy_quiet (J : SerdeJson) (sha256 : Bytes32 → Bytes32) (store : LeaseStore)
    (bytes : List UInt8) (value : J.Value) (now : UInt64) :
    (store.loadLegacy J sha256 bytes value now ⟨.absent, .keptOld, .keptOld⟩).2 = store := by
  unfold loadLegacy
  split
  · rfl
  · split
    · rfl
    · rename_i table _
      have hbackup := backupLegacy_quiet store bytes
      split
      · rename_i hb
        rwa [hb] at hbackup
      · rename_i store₁ hb
        rw [hb] at hbackup
        have hsave := save_quiet J store₁ (table.snapshot now)
        split
        · rename_i hs
          rw [hs] at hsave
          exact hsave.trans hbackup
        · rename_i hs
          rw [hs] at hsave
          exact hsave.trans hbackup

theorem loadOrCreate_quiet (J : SerdeJson) (sha256 : Bytes32 → Bytes32) (store : LeaseStore)
    (now : UInt64) :
    (store.loadOrCreate J sha256 now ⟨.absent, .keptOld, .keptOld⟩).2 = store := by
  unfold loadOrCreate
  split
  · rfl
  · split
    · rfl
    · split
      · rfl
      · split
        · rfl
        · exact loadLegacy_quiet ..

end LeaseStore

/-! ## Calls on a disk -/

/-- `P` holds of the files at every call, and the call can be answered. -/
def onDisk (P : LeaseStore → Prop) : Program.Contract StoreCall StoreAnswer Disk where
  allowed disk c := P disk.store ∧ ∃ n answer disk', disk.serve n c = some (answer, disk')
  next disk c answer disk' := ∃ n, disk.serve n c = some (answer, disk')

namespace StoreProg

open Program (obeys_bind obeys_pure obeys_fail)

variable {J : SerdeJson} {sha256 : Bytes32 → Bytes32} {P : LeaseStore → Prop} {disk : Disk}
  {E : StoreError → Disk → Prop} {bytes : List UInt8}

/-- A call whose answer does not depend on how much is written. -/
theorem obeys_served {c : StoreCall} {answer : StoreAnswer c} {disk' : Disk}
    {Q : StoreAnswer c → Disk → Prop} (h : ∀ n, disk.serve n c = some (answer, disk')) :
    (Program.perform c : StoreProg (StoreAnswer c)).Obeys (onDisk P) Q E disk ↔
      P disk.store ∧ Q answer disk' := by
  constructor
  · rintro ⟨⟨hP, -⟩, hQ⟩
    exact ⟨hP, hQ _ _ ⟨0, h 0⟩⟩
  · rintro ⟨hP, hQ⟩
    refine ⟨⟨hP, 0, _, _, h 0⟩, ?_⟩
    rintro answer₁ disk₁ ⟨n, hn⟩
    rw [h n] at hn
    cases hn
    exact hQ

@[simp] theorem obeys_metadata {Q : Option Nat → Disk → Prop} :
    metadata.Obeys (onDisk P) Q E disk ↔
      P disk.store ∧ Q (disk.store.file.map List.length) disk := obeys_served fun _ => rfl

@[simp] theorem obeys_symlinkMetadata {Q : Option Bool → Disk → Prop} :
    symlinkMetadata.Obeys (onDisk P) Q E disk ↔
      P disk.store ∧ Q disk.store.backup.isFile disk := obeys_served fun _ => rfl

@[simp] theorem obeys_createTemp {Q : Unit → Disk → Prop} :
    createTemp.Obeys (onDisk P) Q E disk ↔ P disk.store ∧ Q () { disk with temp := [] } :=
  obeys_served fun _ => rfl

@[simp] theorem obeys_setOwnerOnly {file : StoreFile} {Q : Unit → Disk → Prop} :
    (setOwnerOnly file).Obeys (onDisk P) Q E disk ↔ P disk.store ∧ Q () disk :=
  obeys_served fun _ => rfl

@[simp] theorem obeys_syncAll {file : StoreFile} {Q : Unit → Disk → Prop} :
    (syncAll file).Obeys (onDisk P) Q E disk ↔ P disk.store ∧ Q () disk :=
  obeys_served fun _ => rfl

@[simp] theorem obeys_syncDirectory {Q : Unit → Disk → Prop} :
    syncDirectory.Obeys (onDisk P) Q E disk ↔ P disk.store ∧ Q () disk :=
  obeys_served fun _ => rfl

@[simp] theorem obeys_persist {path : StorePath} {Q : Unit → Disk → Prop} :
    (persist path).Obeys (onDisk P) Q E disk ↔
      P disk.store ∧ Q () { store := disk.store.put disk.temp path, temp := [] } :=
  obeys_served fun _ => rfl

/-- The loop of `write_all`: the file grows by a prefix of the bytes, then by all of them. -/
theorem obeys_writeAll {file : StoreFile} {Q : Unit → Disk → Prop}
    (hP : ∀ k, P (disk.append (bytes.take k) file).store) (hQ : Q () (disk.append bytes file)) :
    (writeAll file bytes).Obeys (onDisk P) Q E disk := by
  induction bytes using writeAll.induct generalizing disk with
  | case1 =>
    rw [writeAll, if_pos rfl, obeys_pure]
    rwa [Disk.append_nil] at hQ
  | case2 bytes hbytes ih =>
    have hlen := List.length_pos_iff.mpr hbytes
    rw [writeAll, if_neg hbytes]
    refine ⟨⟨?_, bytes.length, bytes.length, _, if_pos ⟨hlen, Nat.le_refl _⟩⟩, ?_⟩
    · simpa using hP 0
    · rintro n disk' ⟨m, hm⟩
      simp only [Disk.serve] at hm
      split at hm
      · rename_i hpos
        cases hm
        have hne : n ≠ 0 := Nat.ne_of_gt hpos.1
        show (if n = 0 then _ else _ : StoreProg Unit).Obeys _ _ _ _
        rw [if_neg hne]
        refine ih n hne (fun k => ?_) ?_
        · rw [Disk.append_append, ← List.take_add]
          exact hP (n + k)
        · rw [Disk.append_append, List.take_append_drop]
          exact hQ
      · cases hm

/-- Until the rename the file is as it was. -/
theorem obeys_replace {path : StorePath} {Q : Unit → Disk → Prop} (hP : P disk.store)
    (hP' : P (disk.store.put bytes path))
    (hQ : ∀ disk', disk'.store = disk.store.put bytes path → Q () disk') :
    (replace path bytes).Obeys (onDisk P) Q E disk := by
  simp only [replace, obeys_bind, obeys_createTemp, obeys_setOwnerOnly]
  refine ⟨hP, hP, obeys_writeAll (fun _ => hP) ?_⟩
  simp only [obeys_syncAll, obeys_persist, obeys_syncDirectory]
  exact ⟨hP, hP, hP', hQ _ rfl⟩

theorem obeys_save {records : List LeaseRecord} {Q : Unit → Disk → Prop}
    (hP : ∀ io, P (disk.store.save J records io).2)
    (hQ : ∀ disk', disk.store.save J records .saved = (.ok (), disk'.store) → Q () disk')
    (hE : ∀ e disk', disk.store.save J records .saved = (.error e, disk'.store) → E e disk') :
    (save J records).Obeys (onDisk P) Q E disk := by
  have hold := hP .keptOld
  have hnew := hP .saved
  unfold save
  unfold LeaseStore.save at hold hnew hQ hE
  dsimp only at hold hnew hQ hE ⊢
  split
  · rename_i hb
    simp only [hb] at hE
    exact hE _ _ rfl
  · rename_i bytes hb
    simp only [hb] at hold hnew hQ hE
    split
    · rename_i hlen
      simp only [hlen, if_true] at hE
      exact hE _ _ rfl
    · rename_i hlen
      simp only [hlen, if_false] at hold hnew hQ
      refine obeys_replace hold hnew fun disk' hd => hQ disk' ?_
      rw [hd]
      rfl

/-- The backup is there from its creation, and grows until it is complete. -/
theorem obeys_backupLegacy {Q : Unit → Disk → Prop}
    (hP : ∀ create replace, P (disk.store.backupLegacy bytes create replace).2)
    (hQ : ∀ disk', disk.store.backupLegacy bytes .created .saved = (.ok (), disk'.store) →
      Q () disk')
    (hE : ∀ e disk', disk.store.backupLegacy bytes .created .saved = (.error e, disk'.store) →
      E e disk') :
    (backupLegacy bytes).Obeys (onDisk P) Q E disk := by
  have hold := hP .absent .keptOld
  rw [LeaseStore.backupLegacy_quiet] at hold
  rw [backupLegacy, obeys_bind, obeys_symlinkMetadata]
  refine ⟨hold, ?_⟩
  cases hb : disk.store.backup with
  | notRegular => exact hE _ _ (LeaseStore.backupLegacy_notRegular hb)
  | absent =>
    have hwritten : ∀ k, P (disk.store.put (bytes.take k) .backup) := by
      intro k
      have := hP (.partly k) .saved
      rwa [LeaseStore.backupLegacy_absent hb] at this
    have hnew : P (disk.store.put bytes .backup) := by
      have := hP .created .saved
      rwa [LeaseStore.backupLegacy_absent hb] at this
    have hcreate : ∀ n, disk.serve n .createNew =
        some ((), { disk with store := disk.store.put [] .backup }) := by
      intro n
      simp only [Disk.serve, hb]
    show Program.Obeys _ _ _ (createNew >>= _) _
    rw [obeys_bind, obeys_served hcreate]
    refine ⟨hold, ?_⟩
    rw [obeys_bind]
    refine obeys_writeAll hwritten ?_
    simp only [obeys_bind, obeys_syncAll, obeys_syncDirectory]
    exact ⟨hnew, hnew, hQ _ (LeaseStore.backupLegacy_absent hb)⟩
  | file existing =>
    have hread : ∀ n, disk.serve n (.read .backup) = some (existing, disk) := by
      intro n
      simp only [Disk.serve, hb]
    show Program.Obeys _ _ _ (read .backup >>= _) _
    rw [obeys_bind, obeys_served hread]
    refine ⟨hold, ?_⟩
    by_cases hp : existing <+: bytes
    · rw [if_neg (by simpa [← List.isPrefixOf_iff_prefix] using hp)]
      by_cases hlen : existing.length = bytes.length
      · rw [if_pos hlen]
        obtain rfl := hp.eq_of_length hlen
        simp only [obeys_bind, obeys_setOwnerOnly, obeys_syncAll, obeys_syncDirectory]
        exact ⟨hold, hold, hold, hQ _ (LeaseStore.backupLegacy_complete hb)⟩
      · rw [if_neg hlen]
        have hcases : disk.store.backupLegacy bytes .created .saved =
            (.ok (), disk.store.put bytes .backup) := by
          rw [LeaseStore.backupLegacy_incomplete hb hp hlen]
        have hnew := hP .created .saved
        rw [hcases] at hnew
        refine obeys_replace hold hnew fun disk' hd => hQ disk' ?_
        rw [hcases, hd]
    · rw [if_pos (by simpa [← List.isPrefixOf_iff_prefix] using hp)]
      exact hE _ _ (LeaseStore.backupLegacy_differs hb hp)

theorem obeys_loadLegacy {value : J.Value} {now : UInt64} {Q : LeaseTable → Disk → Prop}
    (hP : ∀ io, P (disk.store.loadLegacy J sha256 bytes value now io).2)
    (hQ : ∀ table disk', disk.store.loadLegacy J sha256 bytes value now ⟨.created, .saved, .saved⟩ =
      (.ok table, disk'.store) → Q table disk')
    (hE : ∀ e disk', disk.store.loadLegacy J sha256 bytes value now ⟨.created, .saved, .saved⟩ =
      (.error e, disk'.store) → E e disk') :
    (loadLegacy J sha256 bytes value now).Obeys (onDisk P) Q E disk := by
  unfold LeaseStore.loadLegacy at hP hQ hE
  unfold loadLegacy
  split
  · rename_i hl
    simp only [hl] at hE
    exact hE _ _ rfl
  · rename_i legacy hl
    simp only [hl] at hP hQ hE
    split
    · rename_i e hm
      simp only [hm] at hE
      exact hE _ _ rfl
    · rename_i table hm
      simp only [hm] at hP hQ hE
      rw [obeys_bind]
      refine obeys_backupLegacy (fun create replace => ?_) (fun disk₁ h₁ => ?_) (fun e disk₁ h₁ => ?_)
      · have hkept := hP ⟨create, replace, .keptOld⟩
        revert hkept
        rcases disk.store.backupLegacy bytes create replace with ⟨_ | _, store⟩
        · exact id
        · have hquiet := LeaseStore.save_quiet J store (table.snapshot now)
          dsimp only
          intro hkept
          rcases hs : store.save J (table.snapshot now) .keptOld with ⟨_ | _, store'⟩
          · rw [hs] at hquiet hkept
            rwa [← hquiet]
          · rw [hs] at hquiet hkept
            rwa [← hquiet]
      · simp only [h₁] at hQ hE
        rw [obeys_bind]
        refine obeys_save (fun io => ?_) (fun disk₂ h₂ => ?_) (fun e disk₂ h₂ => ?_)
        · have hsaved := hP ⟨.created, .saved, io⟩
          simp only [h₁] at hsaved
          rcases hs : disk₁.store.save J (table.snapshot now) io with ⟨_ | _, store'⟩
          · rwa [hs] at hsaved
          · rwa [hs] at hsaved
        · rw [obeys_pure]
          exact hQ table disk₂ (by rw [h₂])
        · exact hE e disk₂ (by rw [h₂])
      · simp only [h₁] at hE
        exact hE e disk₁ rfl

/-- **The calls of `load_or_create` refine its one step.** At every call the files are as after
some step, and the result is that of the step in which nothing fails. -/
theorem obeys_loadOrCreate {now : UInt64} {Q : LeaseTable → Disk → Prop}
    (hP : ∀ io, P (disk.store.loadOrCreate J sha256 now io).2)
    (hQ : ∀ table disk', disk.store.loadOrCreate J sha256 now ⟨.created, .saved, .saved⟩ =
      (.ok table, disk'.store) → Q table disk')
    (hE : ∀ e disk', disk.store.loadOrCreate J sha256 now ⟨.created, .saved, .saved⟩ =
      (.error e, disk'.store) → E e disk') :
    (loadOrCreate J sha256 now).Obeys (onDisk P) Q E disk := by
  have hold := hP ⟨.absent, .keptOld, .keptOld⟩
  rw [LeaseStore.loadOrCreate_quiet] at hold
  unfold LeaseStore.loadOrCreate at hP hQ hE
  rw [loadOrCreate, obeys_bind, obeys_metadata]
  refine ⟨hold, ?_⟩
  cases hf : disk.store.file with
  | none =>
    simp only [hf] at hQ
    exact hQ _ _ rfl
  | some bytes =>
    simp only [hf] at hP hQ hE
    have hread : ∀ n, disk.serve n (.read .state) = some (bytes, disk) := by
      intro n
      simp only [Disk.serve, hf]
    show Program.Obeys _ _ _ (if maxStateBytes < bytes.length then _ else _) _
    by_cases hlen : maxStateBytes < bytes.length
    · simp only [hlen, if_true] at hE ⊢
      exact hE _ _ rfl
    · simp only [hlen, if_false] at hP hQ hE ⊢
      rw [obeys_bind, obeys_served hread]
      refine ⟨hold, ?_⟩
      rw [loadBytes, if_neg hlen]
      split
      · rename_i hv
        simp only [hv] at hE
        exact hE _ _ rfl
      · rename_i value hv
        simp only [hv] at hP hQ hE
        split
        · rename_i hver
          simp only [hver, if_true] at hQ hE
          split
          · rename_i e hload
            exact hE e disk (by rw [hload])
          · rename_i table hload
            exact hQ table disk (by rw [hload])
        · rename_i hver
          simp only [hver] at hP hQ hE
          exact obeys_loadLegacy hP hQ hE

end StoreProg

end GameNet
