import GameNet.LeaseInv

/-!
# GameNet.LeaseRestore

`restore` accepts exactly the `Valid` record lists (`restore_eq_ok`), loads their unexpired
records (`lookup_load`) and leaves a well-formed table; a well-formed table's snapshot, in any
order, is `Valid` (`WellFormed.snapshot_valid`).

The sets `restore` checks are lists here, and what it checks is that the concatenation over the
records has no duplicates: `(records.flatMap f).Nodup`, with `f` the port, the token, the retired
ids or the recovery key of a record.
-/

namespace GameNet
namespace LeaseTable

/-- What `restore` checks of one record by itself. -/
structure RecordOk (record : LeaseRecord) : Prop where
  portInPool : portStart ≤ record.port ∧ record.port ≤ portEnd
  retiredBound : record.retiredTokenIds.length ≤ maxRetiredIdentities
  notOwnRetired : record.tokenId ∉ record.retiredTokenIds

/-- What `restore` checks of a list of records. -/
structure Valid (records : List LeaseRecord) : Prop where
  length : records.length ≤ 1000
  recordOk : ∀ record ∈ records, RecordOk record
  ports : (records.flatMap fun record => [record.port]).Nodup
  tokens : (records.flatMap fun record => [record.tokenId]).Nodup
  retired : (records.flatMap LeaseRecord.retiredTokenIds).Nodup
  recoveryIds : (records.flatMap fun record => record.recoveryId.toList).Nodup
  disjoint : ∀ record ∈ records, ∀ record' ∈ records,
    record.tokenId ∉ record'.retiredTokenIds

/-- Insert the unexpired records into `t`, in order. -/
def load (now : UInt64) (t : LeaseTable) (records : List LeaseRecord) : LeaseTable :=
  records.foldl
    (fun t record =>
      if record.expiresAtMs ≤ now then t
      else { t with leases := t.leases.insert record.tokenId record.toLease }) t

theorem restoreRetired_eq_ok {tokenId : TokenId} {ids : List TokenId} :
    ∀ {seen out : List TokenId}, seen.Nodup →
      (restoreRetired tokenId seen ids = .ok out ↔
        tokenId ∉ ids ∧ (seen ++ ids).Nodup ∧ out = seen ++ ids) := by
  induction ids with
  | nil => intro seen out hs; simp [restoreRetired, hs, eq_comm]
  | cons old rest ih =>
    intro seen out hs
    simp only [restoreRetired]
    by_cases ho : old = tokenId
    · simp [ho]
    · by_cases hc : old ∈ seen
      · have : ¬(seen ++ old :: rest).Nodup := fun hn =>
          (List.nodup_append.mp hn).2.2 old hc old List.mem_cons_self rfl
        simp [ho, hc, this]
      · have hs' : (seen ++ [old]).Nodup := by
          rw [← List.concat_eq_append]; exact hs.concat hc
        simp only [ho, if_false, List.contains_iff_mem, hc, ih hs', List.append_assoc,
          List.singleton_append, List.mem_cons, not_or]
        have hne : tokenId ≠ old := fun h => ho h.symm
        simp [hne]

/-- The sets of a loop state, extended by the records. -/
def Restoring.Extends (s : Restoring) (records : List LeaseRecord) : Prop :=
  (s.ports ++ records.flatMap fun record => [record.port]).Nodup ∧
    (s.tokens ++ records.flatMap fun record => [record.tokenId]).Nodup ∧
    (s.retired ++ records.flatMap LeaseRecord.retiredTokenIds).Nodup ∧
    (s.recoveryIds ++ records.flatMap fun record => record.recoveryId.toList).Nodup

def Restoring.extend (now : UInt64) (s : Restoring) (records : List LeaseRecord) : Restoring :=
  { table := load now s.table records
    ports := s.ports ++ records.flatMap fun record => [record.port]
    tokens := s.tokens ++ records.flatMap fun record => [record.tokenId]
    retired := s.retired ++ records.flatMap LeaseRecord.retiredTokenIds
    recoveryIds := s.recoveryIds ++ records.flatMap fun record => record.recoveryId.toList }

theorem Restoring.Extends.head {s : Restoring} {record : LeaseRecord} {rest : List LeaseRecord}
    (h : s.Extends (record :: rest)) : s.Extends [record] := by
  obtain ⟨h₁, h₂, h₃, h₄⟩ := h
  simp only [List.flatMap_cons, ← List.append_assoc] at h₁ h₂ h₃ h₄
  simp only [Restoring.Extends, List.flatMap_cons, List.flatMap_nil, List.append_nil]
  exact ⟨(List.nodup_append.mp h₁).1, (List.nodup_append.mp h₂).1, (List.nodup_append.mp h₃).1,
    (List.nodup_append.mp h₄).1⟩

theorem Restoring.extends_cons {now : UInt64} {s : Restoring} {record : LeaseRecord}
    {rest : List LeaseRecord} :
    s.Extends (record :: rest) ↔ (s.extend now [record]).Extends rest := by
  simp only [Restoring.Extends, Restoring.extend, List.flatMap_cons, List.flatMap_nil,
    List.append_nil, List.append_assoc]

theorem restoreRecord_eq_ok {now : UInt64} {s s' : Restoring} {record : LeaseRecord}
    (hs : s.Extends []) :
    restoreRecord now s record = .ok s' ↔
      RecordOk record ∧ s.Extends [record] ∧ s' = s.extend now [record] := by
  simp only [Restoring.Extends, List.flatMap_nil, List.append_nil] at hs
  obtain ⟨hp, ht, hr, hk⟩ := hs
  have hport : (s.ports ++ [record.port]).Nodup ↔ record.port ∉ s.ports := by
    rw [← List.concat_eq_append, List.nodup_concat, and_iff_left hp]
  have htoken : (s.tokens ++ [record.tokenId]).Nodup ↔ record.tokenId ∉ s.tokens := by
    rw [← List.concat_eq_append, List.nodup_concat, and_iff_left ht]
  have hkey : (s.recoveryIds ++ record.recoveryId.toList).Nodup ↔
      record.recoveryId.any s.recoveryIds.contains = false := by
    cases record.recoveryId with
    | none => simpa using hk
    | some r =>
      simp only [Option.toList_some, Option.any_some, ← Bool.not_eq_true, List.contains_iff_mem]
      rw [← List.concat_eq_append, List.nodup_concat, and_iff_left hk]
  simp only [Restoring.Extends, List.flatMap_cons, List.flatMap_nil, List.append_nil, hport,
    htoken, hkey]
  unfold restoreRecord
  by_cases h₁ : portStart ≤ record.port ∧ record.port ≤ portEnd
  case neg =>
    have : ¬RecordOk record := fun h => h₁ h.portInPool
    simp [h₁, this]
  by_cases h₂ : record.port ∈ s.ports
  case pos => simp [h₁, h₂]
  by_cases h₃ : record.tokenId ∈ s.tokens
  case pos => simp [h₁, h₂, h₃]
  cases h₄ : record.recoveryId.any s.recoveryIds.contains with
  | true => simp [h₁, h₂, h₃]
  | false =>
    by_cases h₅ : maxRetiredIdentities < record.retiredTokenIds.length
    case pos =>
      have : ¬RecordOk record := fun h => Nat.not_lt.mpr h.retiredBound h₅
      simp [h₁, h₂, h₃, h₅, this]
    simp only [h₁, h₂, h₃, h₅, not_true_eq_false, and_self, if_false, List.contains_iff_mem,
      Bool.false_eq_true, not_false_eq_true, true_and, and_true]
    cases h₆ : restoreRetired record.tokenId s.retired record.retiredTokenIds with
    | error e =>
      have : ¬(RecordOk record ∧ (s.retired ++ record.retiredTokenIds).Nodup) := by
        rintro ⟨ho, hn⟩
        rw [(restoreRetired_eq_ok hr).mpr ⟨ho.notOwnRetired, hn, rfl⟩] at h₆
        cases h₆
      simp only [reduceCtorEq, false_iff]
      exact fun h => this ⟨h.1, h.2.1⟩
    | ok retired =>
      obtain ⟨hno, hnd, rfl⟩ := (restoreRetired_eq_ok hr).mp h₆
      simp only [Except.ok.injEq, RecordOk.mk h₁ (Nat.not_lt.mp h₅) hno, hnd, true_and]
      simp [Restoring.extend, load, eq_comm]

theorem Restoring.extend_cons {now : UInt64} {s : Restoring} {record : LeaseRecord}
    {rest : List LeaseRecord} :
    (s.extend now [record]).extend now rest = s.extend now (record :: rest) := by
  simp only [Restoring.extend, load, List.foldl_cons, List.foldl_nil, List.flatMap_cons,
    List.flatMap_nil, List.append_nil, List.append_assoc]

theorem restoreRecords_eq_ok {now : UInt64} {records : List LeaseRecord} :
    ∀ {s s' : Restoring}, s.Extends [] →
      (restoreRecords now s records = .ok s' ↔
        (∀ record ∈ records, RecordOk record) ∧ s.Extends records ∧
          s' = s.extend now records) := by
  induction records with
  | nil =>
    intro s s' hs
    simp only [restoreRecords, Except.ok.injEq, List.not_mem_nil, false_implies, implies_true,
      hs, true_and, Restoring.extend, load, List.foldl_nil, List.flatMap_nil, List.append_nil]
    exact eq_comm
  | cons record rest ih =>
    intro s s' hs
    simp only [restoreRecords]
    cases hr : restoreRecord now s record with
    | error e =>
      have : ¬(RecordOk record ∧ s.Extends [record]) := by
        rintro ⟨ho, hx⟩
        rw [(restoreRecord_eq_ok hs).mpr ⟨ho, hx, rfl⟩] at hr
        cases hr
      simp only [reduceCtorEq, false_iff]
      exact fun h => this ⟨h.1 record List.mem_cons_self, h.2.1.head⟩
    | ok s₁ =>
      obtain ⟨ho, hx, rfl⟩ := (restoreRecord_eq_ok hs).mp hr
      simp only [ih (Restoring.extends_cons.mp hx), List.forall_mem_cons, ho, true_and,
        ← Restoring.extends_cons, Restoring.extend_cons]

/-- `restore` succeeds exactly on the valid lists, and loads them into the empty table. -/
theorem restore_eq_ok {records : List LeaseRecord} {now : UInt64} {t : LeaseTable} :
    restore records now = .ok t ↔ Valid records ∧ t = load now new records := by
  have hsize : (portEnd - portStart + 1).toNat = 1000 := rfl
  simp only [restore, hsize]
  by_cases hlen : records.length ≤ 1000
  case neg =>
    simp only [show 1000 < records.length by omega, if_true, reduceCtorEq, false_iff]
    exact fun h => hlen h.1.length
  simp only [show ¬1000 < records.length by omega, if_false]
  have hnil : Restoring.Extends ⟨new, [], [], [], []⟩ [] := by simp [Restoring.Extends]
  cases hr : restoreRecords now ⟨new, [], [], [], []⟩ records with
  | error e =>
    simp only [reduceCtorEq, false_iff]
    rintro ⟨hv, _⟩
    rw [(restoreRecords_eq_ok hnil).mpr ⟨hv.recordOk, ⟨hv.ports, hv.tokens, hv.retired,
      hv.recoveryIds⟩, rfl⟩] at hr
    cases hr
  | ok s =>
    obtain ⟨ho, ⟨hp, ht, hre, hk⟩, rfl⟩ := (restoreRecords_eq_ok hnil).mp hr
    simp only [Restoring.extend, List.nil_append] at hp ht hre hk ⊢
    have hany : ((records.flatMap fun record => [record.tokenId]).any
        (records.flatMap LeaseRecord.retiredTokenIds).contains = true) ↔
        ∃ record ∈ records, ∃ record' ∈ records, record.tokenId ∈ record'.retiredTokenIds := by
      simp only [List.any_eq_true, List.contains_iff_mem, List.mem_flatMap, List.mem_singleton]
      constructor
      · rintro ⟨x, ⟨record, hm, rfl⟩, record', hm', hx⟩
        exact ⟨record, hm, record', hm', hx⟩
      · rintro ⟨record, hm, record', hm', hx⟩
        exact ⟨_, ⟨record, hm, rfl⟩, record', hm', hx⟩
    by_cases hc : (records.flatMap fun record => [record.tokenId]).any
        (records.flatMap LeaseRecord.retiredTokenIds).contains = true
    · obtain ⟨record, hm, record', hm', hx⟩ := hany.mp hc
      simp only [hc, if_true, reduceCtorEq, false_iff]
      exact fun h => h.1.disjoint record hm record' hm' hx
    · have hd : ∀ record ∈ records, ∀ record' ∈ records,
          record.tokenId ∉ record'.retiredTokenIds := fun record hm record' hm' hx =>
        hc (hany.mpr ⟨record, hm, record', hm', hx⟩)
      simp only [hc, Bool.false_eq_true, if_false, Except.ok.injEq,
        Valid.mk hlen ho hp ht hre hk hd, true_and]
      exact eq_comm

/-! ## What is loaded -/

theorem load_nextSessionId {now : UInt64} {records : List LeaseRecord} :
    ∀ {t : LeaseTable}, (load now t records).nextSessionId = t.nextSessionId := by
  induction records with
  | nil => intro t; rfl
  | cons record rest ih =>
    intro t
    show (load now _ rest).nextSessionId = _
    rw [ih]
    dsimp only
    split <;> rfl

/-- With distinct tokens, the loaded table holds the unexpired records and what was there. -/
theorem lookup_load {now : UInt64} {k : TokenId} {lease : Lease} {records : List LeaseRecord} :
    ∀ {t : LeaseTable}, (records.flatMap fun record => [record.tokenId]).Nodup →
      ((load now t records).leases.lookup k = some lease ↔
        (∃ record ∈ records, record.tokenId = k ∧ now < record.expiresAtMs ∧
          lease = record.toLease) ∨
        (t.leases.lookup k = some lease ∧
          ∀ record ∈ records, record.tokenId = k → record.expiresAtMs ≤ now)) := by
  induction records with
  | nil => intro t _; simp [load]
  | cons record rest ih =>
    intro t hnd
    rw [List.flatMap_cons, List.singleton_append, List.nodup_cons] at hnd
    obtain ⟨hnot, hnd⟩ := hnd
    have hrest : ∀ record' ∈ rest, record'.tokenId ≠ record.tokenId := fun record' hm he =>
      hnot (List.mem_flatMap.mpr ⟨record', hm, by simp [he]⟩)
    show (load now _ rest).leases.lookup k = some lease ↔ _
    rw [ih hnd]
    simp only [List.exists_mem_cons_iff, List.forall_mem_cons]
    by_cases he : record.expiresAtMs ≤ now
    · have : ¬now < record.expiresAtMs := by grind
      simp [he, this]
    · have hlt : now < record.expiresAtMs := by grind
      simp only [he, if_false, hlt, true_and, KeyedMap.lookup_insert]
      by_cases hk : k = record.tokenId
      · subst hk
        have hno : ¬∃ r ∈ rest, r.tokenId = record.tokenId ∧ now < r.expiresAtMs ∧
            lease = r.toLease := fun ⟨r, hm, heq, _⟩ => hrest r hm heq
        simp only [hno, if_true, Option.some.injEq, false_or, or_false, forall_const, false_and,
          and_false, true_and]
        constructor
        · rintro ⟨rfl, _⟩; rfl
        · rintro rfl; exact ⟨rfl, fun r hm heq => absurd heq (hrest r hm)⟩
      · have : ¬record.tokenId = k := fun h => hk h.symm
        simp [hk, this]

theorem lookup_load_new {now : UInt64} {k : TokenId} {lease : Lease}
    {records : List LeaseRecord}
    (hnd : (records.flatMap fun record => [record.tokenId]).Nodup) :
    (load now new records).leases.lookup k = some lease ↔
      ∃ record ∈ records, record.tokenId = k ∧ now < record.expiresAtMs ∧
        lease = record.toLease := by
  rw [lookup_load hnd]
  simp [new]

/-- Two records of the list that share an element of `f` are the same record. -/
theorem eq_of_flatMap_nodup {α : Type} {f : LeaseRecord → List α} {records : List LeaseRecord}
    (h : (records.flatMap f).Nodup) {r r' : LeaseRecord} (hr : r ∈ records) (hr' : r' ∈ records)
    {x : α} (hx : x ∈ f r) (hx' : x ∈ f r') : r = r' := by
  by_contra hne
  have : Std.Symm (Function.onFun List.Disjoint f) := ⟨fun _ _ hd => List.disjoint_symm hd⟩
  exact (List.nodup_flatMap.mp h).2.forall hr hr' hne hx hx'

theorem Valid.wellFormed {records : List LeaseRecord} (h : Valid records) {now : UInt64} :
    (load now new records).WellFormed := by
  have lk : ∀ {k : TokenId} {lease : Lease},
      (load now new records).leases.lookup k = some lease →
        ∃ record ∈ records, record.tokenId = k ∧ now < record.expiresAtMs ∧
          lease = record.toLease :=
    fun hl => (lookup_load_new h.tokens).mp hl
  constructor
  · intro k l hl
    obtain ⟨r, hr, _, _, rfl⟩ := lk hl
    exact (h.recordOk r hr).portInPool
  · intro k k' l l' hl hl' he
    obtain ⟨r, hr, rfl, _, rfl⟩ := lk hl
    obtain ⟨r', hr', rfl, _, rfl⟩ := lk hl'
    rw [eq_of_flatMap_nodup h.ports hr hr' (List.mem_singleton.mpr rfl)
      (List.mem_singleton.mpr he)]
  · intro k k' l l' hl hl'
    obtain ⟨r, hr, rfl, _, rfl⟩ := lk hl
    obtain ⟨r', hr', rfl, _, rfl⟩ := lk hl'
    exact h.disjoint r hr r' hr'
  · intro k l hl
    obtain ⟨r, hr, _, _, rfl⟩ := lk hl
    exact (List.nodup_flatMap.mp h.retired).1 r hr
  · intro k k' l l' x hl hl' hx hx'
    obtain ⟨r, hr, rfl, _, rfl⟩ := lk hl
    obtain ⟨r', hr', rfl, _, rfl⟩ := lk hl'
    rw [eq_of_flatMap_nodup h.retired hr hr' hx hx']
  · intro k k' l l' x hl hl' hx hx'
    obtain ⟨r, hr, rfl, _, rfl⟩ := lk hl
    obtain ⟨r', hr', rfl, _, rfl⟩ := lk hl'
    rw [eq_of_flatMap_nodup h.recoveryIds hr hr' (Option.mem_toList.mpr hx)
      (Option.mem_toList.mpr hx')]
  · intro k l hl
    obtain ⟨r, hr, _, _, rfl⟩ := lk hl
    exact (h.recordOk r hr).retiredBound
  · intro k l s hl hs
    obtain ⟨r, hr, _, _, rfl⟩ := lk hl
    cases hs
  · intro k k' l l' s hl _ hs
    obtain ⟨r, hr, _, _, rfl⟩ := lk hl
    cases hs

theorem restore_wellFormed {records : List LeaseRecord} {now : UInt64} {t : LeaseTable}
    (h : restore records now = .ok t) : t.WellFormed := by
  obtain ⟨hv, rfl⟩ := restore_eq_ok.mp h
  exact hv.wellFormed

/-! ## Snapshots -/

/-- The record `snapshot` makes of an entry. -/
def recordOf (now : UInt64) (k : TokenId) (lease : Lease) : LeaseRecord :=
  { tokenId := k
    retiredTokenIds := lease.retiredTokenIds
    recoveryId := lease.recoveryId
    port := lease.port
    lastIp := lease.lastIp
    expiresAtMs := lease.savedDeadline now }

theorem mem_snapshot {t : LeaseTable} {now : UInt64} {record : LeaseRecord} :
    record ∈ t.snapshot now ↔
      ∃ k lease, t.leases.lookup k = some lease ∧ record = recordOf now k lease := by
  simp only [snapshot, List.mem_map, Sigma.exists, KeyedMap.mem_entries, recordOf, eq_comm]

/-- Lists over the entries of a table have no duplicates when the entries' parts have none and
are disjoint. -/
theorem nodup_snapshot {α : Type} {t : LeaseTable} {now : UInt64} (f : LeaseRecord → List α)
    (h₁ : ∀ {k lease}, t.leases.lookup k = some lease → (f (recordOf now k lease)).Nodup)
    (h₂ : ∀ {k k' lease lease' x}, t.leases.lookup k = some lease →
      t.leases.lookup k' = some lease' → x ∈ f (recordOf now k lease) →
      x ∈ f (recordOf now k' lease') → k = k') :
    ((t.snapshot now).flatMap f).Nodup := by
  rw [List.nodup_flatMap]
  constructor
  · intro r hr
    obtain ⟨k, l, hl, rfl⟩ := mem_snapshot.mp hr
    exact h₁ hl
  · rw [snapshot, List.pairwise_map]
    refine t.leases.nodupKeys.nodup.pairwise_of_forall_ne ?_
    rintro ⟨k, l⟩ hl ⟨k', l'⟩ hl' hne x hx hx'
    rw [KeyedMap.mem_entries] at hl hl'
    obtain rfl := h₂ hl hl' hx hx'
    rw [hl] at hl'; cases hl'
    exact hne rfl

theorem WellFormed.snapshot_valid {t : LeaseTable} (h : t.WellFormed) (now : UInt64) :
    Valid (t.snapshot now) := by
  have hports : ((t.snapshot now).flatMap fun record => [record.port]).Nodup :=
    nodup_snapshot _ (fun _ => List.nodup_singleton _) fun hl hl' hx hx' =>
      h.portUnique hl hl' ((List.mem_singleton.mp hx).symm.trans (List.mem_singleton.mp hx'))
  refine
    { length := ?_, recordOk := ?_, ports := hports
      tokens := nodup_snapshot _ (fun _ => List.nodup_singleton _) fun _ _ hx hx' => by
        rw [List.mem_singleton] at hx hx'
        exact hx.symm.trans hx'
      retired := nodup_snapshot _ (fun hl => h.retiredNodup hl) fun hl hl' hx hx' =>
        h.retiredUnique hl hl' hx hx'
      recoveryIds := nodup_snapshot _ (fun {_ l} _ => by
          show l.recoveryId.toList.Nodup
          cases l.recoveryId <;> simp)
        fun hl hl' hx hx' => h.recoveryUnique hl hl' (Option.mem_toList.mp hx)
          (Option.mem_toList.mp hx')
      disjoint := ?_ }
  · -- distinct ports of the pool: at most as many as the pool has
    have hsub : ((t.snapshot now).flatMap fun record => [record.port]) ⊆ portPool := by
      intro p hp
      obtain ⟨r, hr, hp⟩ := List.mem_flatMap.mp hp
      obtain ⟨k, l, hl, rfl⟩ := mem_snapshot.mp hr
      rw [List.mem_singleton.mp hp]
      exact mem_portPool.mpr (h.portInPool hl)
    have hlen := (List.subperm_of_subset hports hsub).length_le
    rw [length_portPool, List.length_flatMap] at hlen
    simpa using hlen
  · intro r hr
    obtain ⟨k, l, hl, rfl⟩ := mem_snapshot.mp hr
    exact ⟨h.portInPool hl, h.retiredBound hl, h.keyNotRetired hl hl⟩
  · intro r hr r' hr'
    obtain ⟨k, l, hl, rfl⟩ := mem_snapshot.mp hr
    obtain ⟨k', l', hl', rfl⟩ := mem_snapshot.mp hr'
    exact h.keyNotRetired hl hl'

end LeaseTable
end GameNet
