import GameNet.Lib.Trace
import GameNet.StoreFiles

/-!
# GameNet.Startup

Starts of the relay, one after the other, at times that do not decrease. Each runs
`load_or_create` call by call and may be stopped at any call, so a later start finds what it left.

What each of these runs keeps as one step (`Keeps`) holds of the files at every moment
(`Sound.trace`), and a run that nothing stops has a result (`Sound.completes`).
-/

namespace GameNet

/-- The disk, the clock and the run of `load_or_create` that is going on. -/
structure Startup where
  disk : Disk
  clock : UInt64
  running : Option (StoreProg LeaseTable)

namespace Startup

inductive Event where
  | started (now : UInt64)
  | called (c : StoreCall)
  /-- The process crashes, or a call fails. -/
  | stopped
  | finished (now : UInt64) (result : Except StoreError LeaseTable)

inductive Step (J : SerdeJson) (sha256 : Bytes32 → Bytes32) : Startup → Event → Startup → Prop where
  | start {s : Startup} {now : UInt64} : s.running = none → s.clock ≤ now →
      Step J sha256 s (.started now)
        { s with clock := now, running := some (StoreProg.loadOrCreate J sha256 now) }
  | call {s : Startup} {c : StoreCall} {k : StoreAnswer c → StoreProg LeaseTable} {n : Nat}
      {answer : StoreAnswer c} {disk : Disk} : s.running = some (.call c k) →
      s.disk.serve n c = some (answer, disk) →
      Step J sha256 s (.called c) { s with disk := disk, running := some (k answer) }
  | stop {s : Startup} {program : StoreProg LeaseTable} : s.running = some program →
      Step J sha256 s .stopped { s with running := none }
  | finish {s : Startup} {table : LeaseTable} : s.running = some (.pure table) →
      Step J sha256 s (.finished s.clock (.ok table)) { s with running := none }
  | refuse {s : Startup} {e : StoreError} : s.running = some (.fail e) →
      Step J sha256 s (.finished s.clock (.error e)) { s with running := none }

/-- `I` is kept by `load_or_create` at the times `times`, however it goes, and `R` is what its
result says. -/
structure Keeps (J : SerdeJson) (sha256 : Bytes32 → Bytes32) (times : UInt64 → Prop)
    (I : UInt64 → LeaseStore → Prop)
    (R : UInt64 → Except StoreError LeaseTable → LeaseStore → Prop) : Prop where
  later : ∀ {store now now'}, now ≤ now' → I now store → I now' store
  kept : ∀ {store now}, times now → I now store → ∀ io,
    I now (store.loadOrCreate J sha256 now io).2
  result : ∀ {store store' now r}, times now → I now store →
    store.loadOrCreate J sha256 now ⟨.created, .saved, .saved⟩ = (r, store') → R now r store'

/-- The files satisfy `I` and go on to at every call; the run has a result that satisfies `R`. -/
structure Sound (I : UInt64 → LeaseStore → Prop)
    (R : UInt64 → Except StoreError LeaseTable → LeaseStore → Prop) (s : Startup) : Prop where
  kept : I s.clock s.disk.store
  running : ∀ {program}, s.running = some program →
    program.Obeys (onDisk (I s.clock))
      (fun table disk => I s.clock disk.store ∧ R s.clock (.ok table) disk.store)
      (fun e disk => I s.clock disk.store ∧ R s.clock (.error e) disk.store) s.disk

variable {J : SerdeJson} {sha256 : Bytes32 → Bytes32} {times : UInt64 → Prop}
  {I : UInt64 → LeaseStore → Prop}
  {R : UInt64 → Except StoreError LeaseTable → LeaseStore → Prop} {s s' : Startup} {e : Event}
  {es : List Event}

theorem Sound.idle (h : I s.clock s.disk.store) (hs : s.running = none) : Sound I R s := by
  refine ⟨h, fun hp => ?_⟩
  rw [hs] at hp
  cases hp

/-- A run that starts has all its calls ahead of it. -/
theorem Sound.started {now : UInt64} (hk : Keeps J sha256 times I R) (hnow : times now)
    (hclock : s.clock ≤ now) (h : I s.clock s.disk.store) :
    Sound I R
      { s with clock := now, running := some (StoreProg.loadOrCreate J sha256 now) } := by
  have hI := hk.later hclock h
  refine ⟨hI, fun hp => ?_⟩
  cases hp
  refine StoreProg.obeys_loadOrCreate (hk.kept hnow hI) (fun table disk' hr => ?_)
    (fun e disk' hr => ?_)
  · have hkept := hk.kept hnow hI ⟨.created, .saved, .saved⟩
    rw [hr] at hkept
    exact ⟨hkept, hk.result hnow hI hr⟩
  · have hkept := hk.kept hnow hI ⟨.created, .saved, .saved⟩
    rw [hr] at hkept
    exact ⟨hkept, hk.result hnow hI hr⟩

theorem Sound.step (hk : Keeps J sha256 times I R) (h : Sound I R s) (hs : Step J sha256 s e s')
    (ht : ∀ now, e = .started now → times now) :
    Sound I R s' ∧ ∀ now r, e = .finished now r → now = s'.clock ∧ R now r s'.disk.store := by
  cases hs with
  | start hnone hclock => exact ⟨.started hk (ht _ rfl) hclock h.kept, nofun⟩
  | @call c k n answer disk hrun hserve =>
    have hobeys := (h.running hrun).answer ⟨n, hserve⟩
    refine ⟨⟨?_, ?_⟩, nofun⟩
    · revert hobeys
      cases k answer with
      | pure table => exact And.left
      | fail e => exact And.left
      | call c' k' => exact fun hobeys => hobeys.1.1
    · rintro _ ⟨⟩
      exact hobeys
  | stop hrun => exact ⟨.idle h.kept rfl, nofun⟩
  | @finish table hrun =>
    refine ⟨.idle h.kept rfl, ?_⟩
    rintro now r ⟨⟩
    exact ⟨rfl, (h.running hrun).2⟩
  | @refuse e hrun =>
    refine ⟨.idle h.kept rfl, ?_⟩
    rintro now r ⟨⟩
    exact ⟨rfl, (h.running hrun).2⟩

/-- Over any number of runs, each of which may stop at any call. -/
theorem Sound.trace (hk : Keeps J sha256 times I R) (h : Sound I R s)
    (hs : Trace (Step J sha256) s es s') (ht : ∀ now, .started now ∈ es → times now) :
    Sound I R s' ∧ ∀ now r, .finished now r ∈ es → ∃ store, R now r store := by
  induction hs with
  | refl => exact ⟨h, nofun⟩
  | cons h₁ _ ih =>
    obtain ⟨h₂, hresult⟩ := h.step hk h₁ fun now he => ht now (he ▸ List.mem_cons_self)
    obtain ⟨h₃, hresults⟩ := ih h₂ fun now hm => ht now (List.mem_cons_of_mem _ hm)
    refine ⟨h₃, fun now r hr => ?_⟩
    rcases List.mem_cons.mp hr with rfl | hr
    · exact ⟨_, (hresult now r rfl).2⟩
    · exact hresults now r hr

/-- A run that starts now and is not stopped has this result. -/
def Completes (J : SerdeJson) (sha256 : Bytes32 → Bytes32) (s : Startup) (now : UInt64)
    (result : Except StoreError LeaseTable) (s' : Startup) : Prop :=
  ∃ calls : List StoreCall, Trace (Step J sha256) s
    (.started now :: calls.map .called ++ [.finished now result]) s'

/-- Every call of a program that obeys can be answered, and then it is done. -/
theorem runs {program : StoreProg LeaseTable} {P : LeaseStore → Prop} {disk : Disk}
    {clock : UInt64} {Q : Except StoreError LeaseTable → Disk → Prop}
    (h : program.Obeys (onDisk P) (fun table => Q (.ok table)) (fun e => Q (.error e)) disk) :
    ∃ (calls : List StoreCall) (result : Except StoreError LeaseTable) (disk' : Disk),
      Trace (Step J sha256) ⟨disk, clock, some program⟩
        (calls.map .called ++ [.finished clock result]) ⟨disk', clock, none⟩ ∧ Q result disk' := by
  induction program generalizing disk with
  | pure table => exact ⟨[], _, disk, .single (.finish rfl), h⟩
  | fail e => exact ⟨[], _, disk, .single (.refuse rfl), h⟩
  | call c k ih =>
    obtain ⟨n, answer, disk₁, hserve⟩ := h.1.2
    obtain ⟨calls, result, disk', ht, hq⟩ := ih answer (h.answer ⟨n, hserve⟩)
    exact ⟨c :: calls, result, disk', .cons (.call rfl hserve) ht, hq⟩

/-- So a run that nothing stops has a result, and `R` holds of it. -/
theorem Sound.completes {now : UInt64} (hk : Keeps J sha256 times I R) (h : Sound I R s)
    (hidle : s.running = none) (hnow : times now) (hclock : s.clock ≤ now) :
    ∃ result s', Completes J sha256 s now result s' ∧ R now result s'.disk.store := by
  have hstarted := (Sound.started hk hnow hclock h.kept).running rfl
  obtain ⟨calls, result, disk', ht, hq⟩ :=
    runs (Q := fun result disk => I now disk.store ∧ R now result disk.store) hstarted
  exact ⟨result, _, ⟨calls, .cons (.start hidle hclock) ht⟩, hq.2⟩

end Startup

end GameNet
