import GameNet.HostSource
import GameNet.Lib.KeyedMap
import GameNet.Lib.Semaphore
import GameNet.Lib.Trace

/-!
# GameNet.HostAdmission

How many connections may register at a time (`crates/server/src/host_admission.rs`, and the loop
of `crates/server/src/relay.rs`): so many of one source, and so many in all.

`try_acquire` and the drop of a permit each run under the lock of the counts, so runs are sequences
of them in any order. `Exact` is the invariant: what is stored of a source is the number of its
live permits, and nothing is stored of a source without any.
-/

namespace GameNet

structure PendingByIp where
  limit : Nat
  counts : KeyedMap HostSource Nat

structure PendingHostPermit where
  source : HostSource
deriving DecidableEq

/-- What the drop of a permit finds. -/
inductive PermitDrop where
  | returned
  /-- There is no entry. -/
  | missing
  /-- The entry is 0, and is decremented. -/
  | underflow
deriving DecidableEq

namespace PendingByIp

def new (limit : Nat) : PendingByIp := ⟨limit, ∅⟩

/-- `entry(source).or_default()` stores a zero before the limit is checked. -/
def tryAcquire (p : PendingByIp) (ip : IpAddr) : Option PendingHostPermit × PendingByIp :=
  let source := HostSource.ofIp ip
  let count := (p.counts.lookup source).getD 0
  if p.limit ≤ count then (none, { p with counts := p.counts.insert source count })
  else (some ⟨source⟩, { p with counts := p.counts.insert source (count + 1) })

/-- `PendingHostPermit::drop` -/
def dropPermit (p : PendingByIp) (permit : PendingHostPermit) : PermitDrop × PendingByIp :=
  match p.counts.lookup permit.source with
  | none => (.missing, p)
  | some 0 => (.underflow, p)
  | some (count + 1) =>
    (.returned,
      { p with
        counts :=
          if count = 0 then p.counts.erase permit.source
          else p.counts.insert permit.source count })

/-- What is stored is the number of live permits of each source that has any. -/
structure Exact (p : PendingByIp) (live : List PendingHostPermit) : Prop where
  lookup : ∀ source, p.counts.lookup source =
    if live.count ⟨source⟩ = 0 then none else some (live.count ⟨source⟩)
  bounded : ∀ source, live.count ⟨source⟩ ≤ p.limit
  total : p.counts.values.sum = live.length

variable {p : PendingByIp} {live : List PendingHostPermit} {permit : PendingHostPermit}
  {ip : IpAddr}

theorem exact_new (limit : Nat) : (new limit).Exact [] where
  lookup _ := rfl
  bounded _ := Nat.zero_le limit
  total := rfl

@[simp] theorem tryAcquire_limit : (p.tryAcquire ip).2.limit = p.limit := by
  simp only [tryAcquire]
  split <;> rfl

@[simp] theorem dropPermit_limit : (p.dropPermit permit).2.limit = p.limit := by
  simp only [dropPermit]
  split <;> rfl

namespace Exact

theorem getD (h : p.Exact live) (source : HostSource) :
    (p.counts.lookup source).getD 0 = live.count ⟨source⟩ := by
  rw [h.lookup]
  split
  · exact Eq.symm ‹_›
  · rfl

theorem tryAcquire_eq (h : p.Exact live) (ip : IpAddr) : p.tryAcquire ip =
    if live.count ⟨.ofIp ip⟩ < p.limit then
      (some ⟨.ofIp ip⟩,
        { p with counts := p.counts.insert (.ofIp ip) (live.count ⟨.ofIp ip⟩ + 1) })
    else (none, { p with counts := p.counts.insert (.ofIp ip) (live.count ⟨.ofIp ip⟩) }) := by
  simp only [tryAcquire, h.getD]
  by_cases hlt : live.count ⟨.ofIp ip⟩ < p.limit
  · rw [if_pos hlt, if_neg (by omega)]
  · rw [if_neg hlt, if_pos (by omega)]

/-- A permit is given to the sources that have fewer than the limit. -/
theorem granted_iff (h : p.Exact live) (ip : IpAddr) :
    (p.tryAcquire ip).1.isSome ↔ live.count ⟨.ofIp ip⟩ < p.limit := by
  rw [h.tryAcquire_eq]
  split
  · exact iff_of_true rfl ‹_›
  · exact iff_of_false (fun he => by cases he) ‹_›

/-- The sum after a count is replaced. -/
theorem sum_insert (h : p.Exact live) (source : HostSource) (n : Nat) :
    (KeyedMap.values (AList.insert source n p.counts)).sum + live.count ⟨source⟩ =
      live.length + n := by
  have herase := KeyedMap.sum_values_erase p.counts source
  rw [h.getD, h.total] at herase
  rw [KeyedMap.sum_values_insert]
  omega

theorem granted (h : p.Exact live) (ha : (p.tryAcquire ip).1 = some permit) :
    (p.tryAcquire ip).2.Exact (permit :: live) := by
  have heq := h.tryAcquire_eq ip
  have hlt := (h.granted_iff ip).mp (by rw [ha]; rfl)
  rw [if_pos hlt] at heq
  rw [heq] at ha ⊢
  obtain rfl : (⟨.ofIp ip⟩ : PendingHostPermit) = permit := Option.some.inj ha
  have hself : (⟨.ofIp ip⟩ :: live).count (⟨.ofIp ip⟩ : PendingHostPermit) =
      live.count ⟨.ofIp ip⟩ + 1 := List.count_cons_self
  have hother : ∀ source, source ≠ HostSource.ofIp ip →
      (⟨.ofIp ip⟩ :: live).count (⟨source⟩ : PendingHostPermit) = live.count ⟨source⟩ := by
    intro source hne
    refine List.count_cons_of_ne fun he => hne ?_
    exact (PendingHostPermit.mk.inj he).symm
  constructor
  · intro source
    rw [KeyedMap.lookup_insert]
    by_cases hs : source = .ofIp ip
    · subst hs
      rw [if_pos rfl, hself, if_neg (by omega)]
    · rw [if_neg hs, hother source hs, h.lookup]
  · intro source
    by_cases hs : source = .ofIp ip
    · subst hs
      rw [hself]
      exact hlt
    · rw [hother source hs]
      exact h.bounded source
  · have hsum := h.sum_insert (.ofIp ip) (live.count ⟨.ofIp ip⟩ + 1)
    rw [List.length_cons]
    show (KeyedMap.values (AList.insert _ _ p.counts)).sum = _
    omega

/-- A refusal stores what was stored, as the source has an entry. -/
theorem refused (h : p.Exact live) (hlimit : 1 ≤ p.limit) (ha : (p.tryAcquire ip).1 = none) :
    KeyedMap.Same (p.tryAcquire ip).2.counts p.counts ∧ (p.tryAcquire ip).2.Exact live := by
  have hno : ¬live.count ⟨.ofIp ip⟩ < p.limit := by
    intro hlt
    have hsome := (h.granted_iff ip).mpr hlt
    rw [ha] at hsome
    cases hsome
  have heq := h.tryAcquire_eq ip
  rw [if_neg hno] at heq
  have hsame : KeyedMap.Same (p.tryAcquire ip).2.counts p.counts := by
    intro source
    rw [heq, KeyedMap.lookup_insert]
    split
    · rename_i hs
      subst hs
      rw [h.lookup, if_neg (by omega)]
    · rfl
  refine ⟨hsame, fun source => ?_, fun source => ?_, ?_⟩
  · rw [hsame source]
    exact h.lookup source
  · rw [tryAcquire_limit]
    exact h.bounded source
  · rw [← h.total]
    exact hsame.values.sum_nat

/-- A live permit has an entry to decrement. -/
theorem returned (h : p.Exact live) (hm : permit ∈ live) :
    (p.dropPermit permit).1 = .returned ∧ (p.dropPermit permit).2.Exact (live.erase permit) := by
  have hpos : 0 < live.count permit := List.count_pos_iff.mpr hm
  obtain ⟨source⟩ := permit
  obtain ⟨n, hn⟩ : ∃ n, live.count ⟨source⟩ = n + 1 := ⟨live.count ⟨source⟩ - 1, by omega⟩
  have hlookup : p.counts.lookup source = some (n + 1) := by
    rw [h.lookup, hn]
    rfl
  have hself : (live.erase ⟨source⟩).count ⟨source⟩ = n := by
    rw [List.count_erase_self, hn]
    rfl
  have hother : ∀ other, other ≠ source →
      (live.erase ⟨source⟩).count (⟨other⟩ : PendingHostPermit) = live.count ⟨other⟩ := by
    intro other hne
    exact List.count_erase_of_ne fun he => hne (PendingHostPermit.mk.inj he)
  have herase := KeyedMap.sum_values_erase p.counts source
  rw [h.getD, h.total, hn] at herase
  simp only [dropPermit, hlookup]
  refine ⟨trivial, fun other => ?_, fun other => ?_, ?_⟩
  · by_cases hs : other = source
    · subst hs
      rw [hself]
      split
      · rw [KeyedMap.lookup_erase, if_pos rfl]
      · rw [KeyedMap.lookup_insert, if_pos rfl]
    · rw [hother other hs, ← h.lookup]
      split
      · rw [KeyedMap.lookup_erase, if_neg hs]
      · rw [KeyedMap.lookup_insert, if_neg hs]
  · have hle := h.bounded other
    by_cases hs : other = source
    · subst hs
      show (live.erase ⟨other⟩).count ⟨other⟩ ≤ p.limit
      omega
    · show (live.erase ⟨source⟩).count ⟨other⟩ ≤ p.limit
      rw [hother other hs]
      exact hle
  · rw [List.length_erase_of_mem hm]
    by_cases hzero : n = 0
    · simp only [if_pos hzero]
      omega
    · simp only [if_neg hzero]
      rw [KeyedMap.sum_values_insert]
      omega

end Exact

/-! ## Any sequence of calls -/

/-- The counts, and the permits that have not been dropped. -/
structure Admissions where
  pending : PendingByIp
  live : List PendingHostPermit

namespace Admissions

inductive Event where
  | acquire (ip : IpAddr) (permit : Option PendingHostPermit)
  | dropped (permit : PendingHostPermit) (result : PermitDrop)

inductive Step : Admissions → Event → Admissions → Prop where
  | acquire {s : Admissions} (ip : IpAddr) :
      Step s (.acquire ip (s.pending.tryAcquire ip).1)
        ⟨(s.pending.tryAcquire ip).2, (s.pending.tryAcquire ip).1.toList ++ s.live⟩
  | drop {s : Admissions} {permit : PendingHostPermit} (h : permit ∈ s.live) :
      Step s (.dropped permit (s.pending.dropPermit permit).1)
        ⟨(s.pending.dropPermit permit).2, s.live.erase permit⟩

def Initial (limit : Nat) (s : Admissions) : Prop := s = ⟨.new limit, []⟩

/-- The invariant: the counts are exact, and the limit is the one given. -/
def Sound (limit : Nat) (s : Admissions) : Prop :=
  s.pending.Exact s.live ∧ s.pending.limit = limit

theorem Sound.step {limit : Nat} {s s' : Admissions} {e : Event} (hlimit : 1 ≤ limit)
    (h : s.Sound limit) (hs : Step s e s') : s'.Sound limit := by
  obtain ⟨hexact, rfl⟩ := h
  cases hs with
  | acquire ip =>
    refine ⟨?_, tryAcquire_limit⟩
    cases ha : (s.pending.tryAcquire ip).1 with
    | none => exact (hexact.refused hlimit ha).2
    | some permit => exact hexact.granted ha
  | drop hm => exact ⟨(hexact.returned hm).2, dropPermit_limit⟩

theorem reached_sound {limit : Nat} {s : Admissions} (hlimit : 1 ≤ limit)
    (h : Trace.Reached (Initial limit) Step s) : s.Sound limit := by
  refine h.invariant (I := Sound limit) ?_ fun s e s' hs => hs.step hlimit
  rintro s rfl
  exact ⟨exact_new limit, rfl⟩

end Admissions
end PendingByIp

/-! ## The loop of the relay -/

def pendingLimit : Nat := 128
def pendingPerIpLimit : Nat := 4

/-- The part of the relay that admits connections. `registering` are the tasks that have not
registered yet: each owns a permit of `pending` and this one of its source. -/
structure RelayServer where
  pending : Semaphore
  pendingByIp : PendingByIp
  registering : List PendingHostPermit

inductive Admission where
  | spawned
  | refusedPending
  | refusedByIp
deriving DecidableEq

/-- How a task's registration ends, within the timeout or at it. -/
inductive RegistrationEnd where
  | tunnel
  | noTunnel
  | failed
  | timedOut
deriving DecidableEq

namespace RelayServer

def bind : RelayServer := ⟨.new pendingLimit, .new pendingPerIpLimit, []⟩

/-- The branch of `run` for an incoming connection. The permit of `pending` is dropped when the
source is refused. -/
def accept (s : RelayServer) (ip : IpAddr) : Admission × RelayServer :=
  match s.pending.tryAcquire with
  | none => (.refusedPending, s)
  | some pending =>
    match s.pendingByIp.tryAcquire ip with
    | (none, pendingByIp) =>
      (.refusedByIp, { s with pending := pending.release 1, pendingByIp := pendingByIp })
    | (some permit, pendingByIp) =>
      (.spawned,
        { pending := pending, pendingByIp := pendingByIp, registering := permit :: s.registering })

/-- `drop((permit, ip_permit))`, however the registration ended. -/
def registered (s : RelayServer) (permit : PendingHostPermit) : RelayServer :=
  { pending := s.pending.release 1
    pendingByIp := (s.pendingByIp.dropPermit permit).2
    registering := s.registering.erase permit }

inductive Event where
  | incoming (ip : IpAddr) (admission : Admission)
  | registered (permit : PendingHostPermit) (result : RegistrationEnd)

inductive Step : RelayServer → Event → RelayServer → Prop where
  | incoming {s : RelayServer} (ip : IpAddr) :
      Step s (.incoming ip (s.accept ip).1) (s.accept ip).2
  | registered {s : RelayServer} {permit : PendingHostPermit} (result : RegistrationEnd)
      (h : permit ∈ s.registering) : Step s (.registered permit result) (s.registered permit)

/-- Every task that registers owns one permit of each kind, and nobody else owns any. -/
structure Sound (s : RelayServer) : Prop where
  byIp : s.pendingByIp.Exact s.registering
  limit : s.pendingByIp.limit = pendingPerIpLimit
  pending : s.pending.Holds pendingLimit s.registering.length

variable {s s' : RelayServer} {e : Event}

theorem sound_bind : bind.Sound where
  byIp := PendingByIp.exact_new pendingPerIpLimit
  limit := rfl
  pending := Semaphore.holds_new pendingLimit

theorem Sound.limit_pos (h : s.Sound) : 1 ≤ s.pendingByIp.limit := by
  rw [h.limit]
  decide

/-- A refused connection leaves what was there. -/
theorem Sound.refused {ip : IpAddr} (h : s.Sound) (hr : (s.accept ip).1 ≠ .spawned) :
    (s.accept ip).2.Sound ∧ (s.accept ip).2.pending = s.pending ∧
      KeyedMap.Same (s.accept ip).2.pendingByIp.counts s.pendingByIp.counts ∧
      (s.accept ip).2.registering = s.registering := by
  unfold accept at hr ⊢
  split
  · exact ⟨h, rfl, .refl _, rfl⟩
  · rename_i pending hp
    rw [hp] at hr
    have hpending := Semaphore.release_acquired hp
    split
    · rename_i pendingByIp ha
      have hnone : (s.pendingByIp.tryAcquire ip).1 = none := by rw [ha]
      have hlimit : (s.pendingByIp.tryAcquire ip).2.limit = s.pendingByIp.limit :=
        PendingByIp.tryAcquire_limit
      obtain ⟨hsame, hexact⟩ := h.byIp.refused h.limit_pos hnone
      rw [ha] at hsame hexact hlimit
      refine ⟨⟨hexact, hlimit.trans h.limit, ?_⟩, hpending, hsame, rfl⟩
      rw [hpending]
      exact h.pending
    · rename_i ha
      rw [ha] at hr
      exact absurd rfl hr

theorem Sound.spawned {ip : IpAddr} (h : s.Sound) (hr : (s.accept ip).1 = .spawned) :
    (s.accept ip).2.Sound := by
  unfold accept at hr ⊢
  split
  · exact h
  · rename_i pending hp
    rw [hp] at hr
    split
    · rename_i ha
      rw [ha] at hr
      cases hr
    · rename_i permit pendingByIp ha
      have hsome : (s.pendingByIp.tryAcquire ip).1 = some permit := by rw [ha]
      have hlimit : (s.pendingByIp.tryAcquire ip).2.limit = s.pendingByIp.limit :=
        PendingByIp.tryAcquire_limit
      have hexact := h.byIp.granted hsome
      rw [ha] at hexact hlimit
      exact ⟨hexact, hlimit.trans h.limit, h.pending.acquired hp⟩

theorem Sound.step (h : s.Sound) (hs : Step s e s') : s'.Sound := by
  cases hs with
  | incoming ip =>
    by_cases hr : (s.accept ip).1 = .spawned
    · exact h.spawned hr
    · exact (h.refused hr).1
  | @registered permit result hm =>
    have hlen := List.length_erase_of_mem hm
    have hpos := List.length_pos_of_mem hm
    refine ⟨(h.byIp.returned hm).2, PendingByIp.dropPermit_limit.trans h.limit, ?_⟩
    refine Semaphore.Holds.released ?_
    show s.pending.Holds pendingLimit ((s.registering.erase permit).length + 1)
    rw [hlen, Nat.sub_add_cancel hpos]
    exact h.pending

theorem reached_sound (h : Trace.Reached (· = bind) Step s) : s.Sound := by
  refine h.invariant (I := Sound) ?_ fun s e s' hs => hs.step
  rintro s rfl
  exact sound_bind

end RelayServer

/-- **The permits of pending hosts are counted.** Whatever calls and drops happen, what is stored of
each source is the number of its live permits, between 1 and the limit, and nothing is stored of the
others; a source gets a permit if and only if it has fewer than the limit; and every drop finds an
entry to decrement. In a run of the relay the permits of `pending` that are out are as many as the
counts add up to, and a connection that is refused changes neither. -/
theorem pending_accounting :
    (∀ (limit : Nat) (s : PendingByIp.Admissions), 1 ≤ limit →
      Trace.Reached (PendingByIp.Admissions.Initial limit) PendingByIp.Admissions.Step s →
      (∀ source n, s.pending.counts.lookup source = some n →
        n = s.live.count ⟨source⟩ ∧ 1 ≤ n ∧ n ≤ limit) ∧
      (∀ source, s.pending.counts.lookup source = none ↔ ⟨source⟩ ∉ s.live) ∧
      (∀ ip, (s.pending.tryAcquire ip).1.isSome ↔ s.live.count ⟨.ofIp ip⟩ < limit) ∧
      ∀ permit ∈ s.live, (s.pending.dropPermit permit).1 = .returned) ∧
    ∀ s : RelayServer, Trace.Reached (· = RelayServer.bind) RelayServer.Step s →
      s.pending.Holds pendingLimit s.pendingByIp.counts.values.sum ∧
      s.pendingByIp.counts.values.sum = s.registering.length ∧
      ∀ ip, (s.accept ip).1 ≠ .spawned → (s.accept ip).2.pending = s.pending ∧
        KeyedMap.Same (s.accept ip).2.pendingByIp.counts s.pendingByIp.counts ∧
        (s.accept ip).2.registering = s.registering := by
  constructor
  · intro limit s hlimit hs
    obtain ⟨hexact, hl⟩ := PendingByIp.Admissions.reached_sound hlimit hs
    refine ⟨fun source n hn => ?_, fun source => ?_, fun ip => ?_, fun permit hm => ?_⟩
    · rw [hexact.lookup] at hn
      split at hn
      · cases hn
      · obtain rfl := Option.some.inj hn
        have hle := hexact.bounded source
        exact ⟨rfl, by omega, by omega⟩
    · rw [hexact.lookup, ← List.count_eq_zero]
      split
      · exact iff_of_true rfl ‹_›
      · exact iff_of_false (fun h => by cases h) ‹_›
    · rw [hexact.granted_iff, hl]
    · exact (hexact.returned hm).1
  · intro s hs
    have hsound := RelayServer.reached_sound hs
    refine ⟨?_, hsound.byIp.total, fun ip hr => (hsound.refused hr).2⟩
    rw [hsound.byIp.total]
    exact hsound.pending

def sampleHost : IpAddr := .v4 ⟨.replicate 4 10⟩

/-- One source is admitted where one may be, and refused then; and it is admitted by the relay. -/
theorem pending_accounting_one_source :
    ¬((PendingByIp.new 1).tryAcquire sampleHost).2.counts.lookup (.ofIp sampleHost) = none ∧
    (((PendingByIp.new 1).tryAcquire sampleHost).2.tryAcquire sampleHost).1 = none ∧
    (RelayServer.bind.accept sampleHost).2.pending.Holds pendingLimit 1 := by
  let s : PendingByIp.Admissions := ⟨.new 1, []⟩
  have hs : Trace.Reached (PendingByIp.Admissions.Initial 1) PendingByIp.Admissions.Step s :=
    .of_init rfl
  obtain ⟨-, hnone, hgranted, -⟩ :=
    pending_accounting.1 1 _ (by decide) (hs.next (.acquire sampleHost))
  have hr : Trace.Reached (· = RelayServer.bind) RelayServer.Step RelayServer.bind := .of_init rfl
  obtain ⟨hholds, htotal, -⟩ := pending_accounting.2 _ (hr.next (.incoming sampleHost))
  refine ⟨fun h => ?_, ?_, ?_⟩
  · exact (hnone _).mp h (List.mem_singleton.mpr rfl)
  · rw [← Option.not_isSome_iff_eq_none]
    intro h
    have hlt := (hgranted sampleHost).mp h
    revert hlt
    decide
  · rw [htotal] at hholds
    exact hholds

end GameNet
