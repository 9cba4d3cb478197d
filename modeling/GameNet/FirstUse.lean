import GameNet.Lib.KeyedMap
import GameNet.Lib.Trace
import GameNet.SystemCalls

/-!
# GameNet.FirstUse

Processes that load the identity files, or create them, at the same time. Their system calls are
interleaved in any order; each may crash, or have a call fail, at any of them, and a crash leaves
the temporary file behind.

No process replaces a file (`settles`), so what one has found stays: the invariant is that every
process that runs obeys the contract from something that is true of the disk. Files appear only when
they are whole, and results are what is in the files.
-/

namespace GameNet

/-! ## The programs obey the contract -/

section

variable {α β : Type} {known : Files} {path : Path}

/-- The program obeys `settles`; it ends with a result and what is known then, which satisfy `Q`. -/
abbrev Settles (p : Prog α) (Q : α → Files → Prop) (known : Files) : Prop :=
  p.Obeys settles Q (fun _ _ => True) known

theorem settles_bind {p : Prog β} {f : β → Prog α} {Q : α → Files → Prop}
    (h : Settles p (fun b known => Settles (f b) Q known) known) : Settles (p >>= f) Q known :=
  Program.obeys_bind.mpr h

theorem settles_call {c : Call} {Q : Answer c → Files → Prop} (ha : settles.allowed known c)
    (h : ∀ a known', known.Within known' → known.Teaches c a known' → Q a known') :
    Settles (Program.perform c) Q known :=
  ⟨ha, fun a known' hn => h a known' hn.1 hn.2⟩

theorem settles_readExisting {Q : TunnelToken → Files → Prop}
    (h : ∀ token known', known.Within known' → known'.Has path token → Q token known') :
    Settles (readExisting path) Q known := by
  refine settles_bind (settles_call trivial ?_)
  intro a known₁ h₁ _
  match a with
  | none => trivial
  | some .other => trivial
  | some .regular =>
    refine settles_bind (settles_call trivial ?_)
    intro a known₂ h₂ hread
    cases a with
    | none => trivial
    | some bytes =>
      dsimp only
      cases ht : toToken bytes with
      | none => trivial
      | some token =>
        obtain rfl := toToken_eq_some.mp ht
        exact h token known₂ (h₁.trans h₂) (hread _ rfl)

theorem settles_loadOrCreateAt {Q : TunnelToken → Files → Prop}
    (h : ∀ token known', known.Within known' → known'.Has path token → Q token known') :
    Settles (loadOrCreateAt path) Q known := by
  refine settles_bind (settles_call trivial ?_)
  intro a known₁ h₁ _
  match a with
  | some _ => exact settles_readExisting fun token known' hw => h token known' (h₁.trans hw)
  | none =>
    refine settles_bind (settles_call trivial ?_)
    intro token known₂ h₂ _
    refine settles_bind (settles_call trivial ?_)
    intro created known₃ h₃ hcreated
    have hknown := (h₁.trans h₂).trans h₃
    match created with
    | true => exact h token known₃ hknown (hcreated rfl)
    | false => exact settles_readExisting fun token known' hw => h token known' (hknown.trans hw)

/-- What a program finds at a path: the token that is there, or that nothing was there. -/
def Files.Finds (known : Files) (path : Path) (known' : Files) : Option TunnelToken → Prop
  | some token => known'.Has path token
  | none => known path = none

theorem Files.Finds.mono {start known' : Files} {old : Option TunnelToken}
    (h : known.Finds path known' old) (hs : start.Within known) : start.Finds path known' old := by
  cases old with
  | none => exact hs.absent h
  | some token => exact h

theorem settles_readIdentity {Q : Option TunnelToken → Files → Prop}
    (h : ∀ old known', known.Within known' → known.Finds .identity known' old → Q old known') :
    Settles readIdentity Q known := by
  refine settles_bind (settles_call trivial ?_)
  intro a known₁ h₁ habsent
  match a with
  | some _ =>
    refine settles_bind (p := readExisting .identity) (settles_readExisting ?_)
    intro token known₂ h₂ ht
    exact h (some token) known₂ (h₁.trans h₂) ht
  | none => exact h none known₁ h₁ (habsent rfl)

theorem settles_prepareRotation {Q : PendingRotation → Files → Prop}
    (h : ∀ p known', known.Within known' → known'.Has .identity p.oldToken →
      known'.Has .pending p.newToken → Q p known') : Settles prepareRotation Q known := by
  refine settles_bind (settles_readExisting ?_)
  intro old known₁ h₁ ho
  refine settles_bind (settles_loadOrCreateAt ?_)
  intro new known₂ h₂ hn
  show Settles (if _ then _ else _) Q known₂
  split
  · trivial
  · exact h ⟨old, new⟩ known₂ (h₁.trans h₂) (h₂.has ho) hn

theorem settles_prepareRecovery {Q : PendingRecovery → Files → Prop}
    (h : ∀ p known', known.Within known' → known.Finds .identity known' p.oldToken →
      known'.Has .pending p.newToken → Q p known') : Settles prepareRecovery Q known := by
  refine settles_bind (settles_readIdentity ?_)
  intro old known₁ h₁ ho
  refine settles_bind (settles_loadOrCreateAt ?_)
  intro new known₂ h₂ hn
  show Settles (if _ then _ else _) Q known₂
  split
  · trivial
  · refine h ⟨old, new⟩ known₂ (h₁.trans h₂) ?_ hn
    cases old with
    | none => exact ho
    | some token => exact h₂.has ho

end

/-! ## What the processes run -/

inductive Job where
  | loadOrCreateAt (path : Path)
  | prepareRotation
  | prepareRecovery

inductive Loaded where
  | loaded (path : Path) (token : TunnelToken)
  | rotation (pending : PendingRotation)
  | recovery (pending : PendingRecovery)
deriving DecidableEq

def Job.program : Job → Prog Loaded
  | .loadOrCreateAt path => do
    let token ← GameNet.loadOrCreateAt path
    pure (.loaded path token)
  | .prepareRotation => do
    let pending ← GameNet.prepareRotation
    pure (.rotation pending)
  | .prepareRecovery => do
    let pending ← GameNet.prepareRecovery
    pure (.recovery pending)

namespace Loaded

/-- The tokens of a pending rotation or recovery. -/
def prepared : Loaded → Option (Option TunnelToken × TunnelToken)
  | .loaded _ _ => none
  | .rotation pending => some (some pending.oldToken, pending.newToken)
  | .recovery pending => some (pending.oldToken, pending.newToken)

/-- The result is what is in the files. `start` is what was known before. -/
def Holds (start known : Files) : Loaded → Prop
  | .loaded path token => known.Has path token
  | .rotation pending =>
    known.Has .identity pending.oldToken ∧ known.Has .pending pending.newToken
  | .recovery pending =>
    start.Finds .identity known pending.oldToken ∧ known.Has .pending pending.newToken

end Loaded

theorem Job.settles (job : Job) {start known : Files} (hs : start.Within known) :
    Settles job.program (fun r known' => r.Holds start known') known := by
  cases job with
  | loadOrCreateAt path =>
    refine settles_bind (settles_loadOrCreateAt ?_)
    intro token known' _ ht
    exact ht
  | prepareRotation =>
    refine settles_bind (settles_prepareRotation ?_)
    intro p known' _ ho hn
    exact ⟨ho, hn⟩
  | prepareRecovery =>
    refine settles_bind (settles_prepareRecovery ?_)
    intro p known' _ ho hn
    exact ⟨ho.mono hs, hn⟩

/-! ## System calls on the disk -/

/-- What process `i` knows is true of the disk, and its temporary files are as it has left them. -/
structure Found.Fits (found : Found) (i : Nat) (disk : HostDisk) : Prop where
  known : found.known.Within disk.files
  written : ∀ {n bytes}, found.written n = some bytes → disk.temporaries n = some ⟨i, bytes⟩

/-- What a system call of process `i` does when the contract allows it. -/
structure Serves (found : Found) (i : Nat) (disk disk' : HostDisk) (c : SysCall)
    (answer : SysAnswer c) : Prop where
  files : disk.files.Extends disk'.files
  next : settlesSys.next found c answer ⟨disk'.files, found.observe c answer⟩
  written : ∀ {n bytes}, found.observe c answer n = some bytes →
    disk'.temporaries n = some ⟨i, bytes⟩
  others : ∀ {n temporary}, disk.temporaries n = some temporary → temporary.owner ≠ i →
    disk'.temporaries n = some temporary

section

variable {found : Found} {i j : Nat} {disk disk' : HostDisk} {c : SysCall} {answer : SysAnswer c}
  {env : SysEnv} {files' : Files} {env' : Env}

/-- A call that is one system call leaves the files as they are, and says what is in them. -/
theorem serve_direct {c : Call} {answer : Answer c} {known : Files}
    (ha : settlesSys.allowed found (.direct c)) (hk : known.Within disk.files)
    (hs : disk.files.serve env' c = some (answer, files')) :
    files' = disk.files ∧ known.Teaches c answer disk.files := by
  cases c with
  | persistNoclobber | persist | rename => exact ha.elim
  | metadata path =>
    cases hs
    exact ⟨rfl, fun hp => hk.absent (Option.map_eq_none_iff.mp hp)⟩
  | read path =>
    simp only [Files.serve] at hs
    split at hs
    · cases hs
      exact ⟨rfl, nofun⟩
    · rename_i bytes hp
      cases hs
      refine ⟨rfl, fun bytes' hb => ?_⟩
      cases hb
      exact hp
    · cases hs
  | _ =>
    cases hs
    exact ⟨rfl, trivial⟩

/-- A change of one temporary file, of which the process knows what it then knows. -/
theorem Found.Fits.written_set (h : found.Fits i disk) {n m : Nat} {temporary : Option Temporary}
    {written : Option (List UInt8)} {bytes : List UInt8}
    (hw : ∀ bytes, written = some bytes → temporary = some ⟨i, bytes⟩)
    (hm : Function.update found.written n written m = some bytes) :
    (disk.setTemporary n temporary).temporaries m = some ⟨i, bytes⟩ := by
  by_cases he : m = n
  · subst he
    rw [Function.update_self] at hm
    exact (Function.update_self _ _ _).trans (hw bytes hm)
  · rw [Function.update_of_ne he] at hm
    exact (Function.update_of_ne he _ _).trans (h.written hm)

/-- It changes no temporary file of another process. -/
theorem HostDisk.others_set {n m : Nat} {temporary : Option Temporary} {other : Temporary}
    (hn : ∀ own, disk.temporaries n = some own → own.owner = i)
    (hm : disk.temporaries m = some other) (hne : other.owner ≠ i) :
    (disk.setTemporary n temporary).temporaries m = some other := by
  by_cases he : m = n
  · subst he
    exact absurd (hn other hm) hne
  · exact (Function.update_of_ne he _ _).trans hm

theorem Found.Fits.serve (h : found.Fits i disk) (ha : settlesSys.allowed found c)
    (hs : disk.serve i env c = some (answer, disk')) : Serves found i disk disk' c answer := by
  cases c with
  | direct c =>
    obtain ⟨⟨answer', files'⟩, hserve, heq⟩ := Option.map_eq_some_iff.mp hs
    cases heq
    obtain ⟨rfl, hteaches⟩ := serve_direct ha h.known hserve
    exact ⟨.refl _, ⟨rfl, h.known, hteaches⟩, h.written, fun ht _ => ht⟩
  | setOwnerOnly file =>
    cases file with
    | path path =>
      cases hs
      exact ⟨.refl _, ⟨rfl, h.known, trivial⟩, h.written, fun ht _ => ht⟩
    | temporary n =>
      cases hs
      exact ⟨.refl _, ⟨rfl, h.known, trivial⟩, h.written, fun ht _ => ht⟩
  | createDirAll | syncTemporary | syncParent =>
    cases hs
    exact ⟨.refl _, ⟨rfl, h.known, trivial⟩, h.written, fun ht _ => ht⟩
  | newTemporary =>
    simp only [HostDisk.serve] at hs
    split at hs
    · rename_i hfree
      cases hs
      refine ⟨.refl _, ⟨rfl, h.known, trivial⟩, h.written_set fun bytes hb => ?_,
        HostDisk.others_set fun own ho => ?_⟩
      · cases hb
        rfl
      · rw [hfree] at ho
        cases ho
    · cases hs
  | write n bytes =>
    obtain ⟨content, hw⟩ := ha
    simp only [HostDisk.serve, h.written hw] at hs
    cases hs
    refine ⟨.refl _, ⟨rfl, h.known, trivial⟩, h.written_set fun bytes' hb => ?_,
      HostDisk.others_set (HostDisk.owner_eq (h.written hw))⟩
    rw [hw] at hb
    cases hb
    rfl
  | persistNoclobber n path =>
    obtain ⟨token, hw⟩ := ha
    simp only [HostDisk.serve, h.written hw] at hs
    split at hs
    · rename_i hp
      cases hs
      have hextends := Files.Extends.set hp token
      refine ⟨hextends, ⟨rfl, h.known.trans hextends.within, fun _ token' hw' => ?_⟩,
        h.written_set nofun, HostDisk.others_set (HostDisk.owner_eq (h.written hw))⟩
      show disk.files.set path (some (.file token.toList)) path = some (.file token'.toList)
      rw [← Option.some.inj (hw.symm.trans hw')]
      exact if_pos rfl
    · cases hs
      exact ⟨.refl _, ⟨rfl, h.known, nofun⟩, h.written, fun ht _ => ht⟩
  | persist n path => exact ha.elim
  | remove n =>
    obtain ⟨content, hw⟩ := ha
    cases hs
    exact ⟨.refl _, ⟨rfl, h.known, trivial⟩, h.written_set nofun, HostDisk.others_set (HostDisk.owner_eq (h.written hw))⟩

end

/-! ## Runs -/

inductive Attempt where
  | runs (program : Sys Loaded)
  /-- It crashed, or a call of it failed. -/
  | ended

structure FirstUse where
  disk : HostDisk
  attempts : KeyedMap Nat Attempt

/-- An error drops the temporary files of process `i`. -/
def HostDisk.dropTemporaries (disk : HostDisk) (i : Nat) : HostDisk :=
  { disk with temporaries := fun n => (disk.temporaries n).filter fun t => t.owner != i }

namespace FirstUse

inductive Event where
  | started (i : Nat) (job : Job)
  | called (i : Nat) (c : SysCall) (answer : SysAnswer c)
  | crashed (i : Nat)
  | failed (i : Nat)

inductive Step : FirstUse → Event → FirstUse → Prop where
  | start {s : FirstUse} {i : Nat} (job : Job) (h : s.attempts.lookup i = none) :
      Step s (.started i job)
        { s with attempts := s.attempts.insert i (.runs (job.program.handle systemCalls)) }
  | call {s : FirstUse} {i : Nat} {c : SysCall} {k : SysAnswer c → Sys Loaded} {env : SysEnv}
      {answer : SysAnswer c} {disk : HostDisk} (h : s.attempts.lookup i = some (.runs (.call c k)))
      (hs : s.disk.serve i env c = some (answer, disk)) :
      Step s (.called i c answer)
        { disk := disk, attempts := s.attempts.insert i (.runs (k answer)) }
  | crash {s : FirstUse} {i : Nat} {c : SysCall} {k : SysAnswer c → Sys Loaded}
      (h : s.attempts.lookup i = some (.runs (.call c k))) :
      Step s (.crashed i) { s with attempts := s.attempts.insert i .ended }
  | fail {s : FirstUse} {i : Nat} {c : SysCall} {k : SysAnswer c → Sys Loaded}
      (h : s.attempts.lookup i = some (.runs (.call c k))) :
      Step s (.failed i)
        { disk := s.disk.dropTemporaries i, attempts := s.attempts.insert i .ended }

/-- Any temporary files may be left from before. -/
def Initial (files : Files) (s : FirstUse) : Prop := s.disk.files = files ∧ s.attempts = ∅

/-- Process `i` has returned `Ok`. -/
def Returned (s : FirstUse) (i : Nat) (result : Loaded) : Prop :=
  s.attempts.lookup i = some (.runs (.pure result))

structure Sound (start : Files) (s : FirstUse) : Prop where
  files : start.Extends s.disk.files
  attempts : ∀ {i program}, s.attempts.lookup i = some (.runs program) →
    ∃ found, found.Fits i s.disk ∧
      SettlesSys program (fun r found' => r.Holds start found'.known) found

variable {files : Files} {s s' : FirstUse} {e : Event}

/-- The other processes are as they were when process `i` has made a step. -/
theorem Sound.move {i : Nat} {attempt : Attempt} {disk : HostDisk} (h : s.Sound files)
    (hfiles : s.disk.files.Extends disk.files)
    (hothers : ∀ {n temporary}, s.disk.temporaries n = some temporary → temporary.owner ≠ i →
      disk.temporaries n = some temporary)
    (hself : ∀ program, attempt = .runs program → ∃ found, found.Fits i disk ∧
      SettlesSys program (fun r found' => r.Holds files found'.known) found) :
    Sound files ⟨disk, s.attempts.insert i attempt⟩ where
  files := h.files.trans hfiles
  attempts {j program} hj := by
    rw [KeyedMap.lookup_insert] at hj
    split at hj
    · rename_i he
      subst he
      exact hself program (Option.some.inj hj)
    · rename_i hne
      obtain ⟨found, hfits, hobeys⟩ := h.attempts hj
      exact ⟨found, ⟨hfits.known.trans hfiles.within, fun hw => hothers (hfits.written hw) hne⟩,
        hobeys⟩

theorem Sound.step (h : s.Sound files) (hs : Step s e s') : s'.Sound files := by
  cases hs with
  | @start i job hi =>
    refine h.move (.refl _) (fun ht _ => ht) ?_
    rintro program ⟨⟩
    let found : Found := ⟨s.disk.files, fun _ => none⟩
    refine ⟨found, ⟨.refl _, nofun⟩, ?_⟩
    have hjob : Settles job.program _ found.known := job.settles h.files.within
    exact hjob.handle Found.known systemCalls_obeys
  | @call i c k env answer disk hi hserve =>
    obtain ⟨found, hfits, ha, hobeys⟩ := h.attempts hi
    have hserves := hfits.serve ha hserve
    refine h.move hserves.files hserves.others ?_
    rintro program ⟨⟩
    exact ⟨_, ⟨.refl _, hserves.written⟩, hobeys answer _ hserves.next⟩
  | crash hi => exact h.move (.refl _) (fun ht _ => ht) nofun
  | fail hi =>
    refine h.move (.refl _) (fun ht hne => ?_) nofun
    show Option.filter _ _ = _
    rw [ht]
    simp [Option.filter, hne]

theorem reached_sound (h : Trace.Reached (Initial files) Step s) : s.Sound files := by
  refine h.invariant (I := Sound files) ?_ fun s e s' hs => hs.step
  rintro s ⟨rfl, hempty⟩
  refine ⟨.refl _, fun hl => ?_⟩
  rw [hempty] at hl
  cases hl

/-- No step takes a file away, or changes it. -/
theorem Sound.extends (h : s.Sound files) (hs : Step s e s') :
    s.disk.files.Extends s'.disk.files := by
  cases hs with
  | @call i c k env answer disk hi hserve =>
    obtain ⟨found, hfits, ha, -⟩ := h.attempts hi
    exact (hfits.serve ha hserve).files
  | _ => exact .refl _

theorem Sound.stays {es : List Event} (h : s.Sound files) (ht : Trace Step s es s') :
    s.disk.files.Within s'.disk.files := by
  let I := fun s₁ : FirstUse => s₁.Sound files ∧ s.disk.files.Extends s₁.disk.files
  have hI : ∀ s₁ e s₂, I s₁ → Step s₁ e s₂ → I s₂ := by
    intro s₁ e s₂ ⟨h₁, hext⟩ hs
    exact ⟨h₁.step hs, hext.trans (h₁.extends hs)⟩
  exact (ht.invariant hI ⟨h, .refl _⟩).2.within

/-- What a process returns is what is in the files. -/
theorem Sound.returned {i : Nat} {result : Loaded} (h : s.Sound files)
    (hr : s.Returned i result) : result.Holds files s.disk.files := by
  obtain ⟨found, hfits, hholds⟩ := h.attempts hr
  cases result with
  | loaded path token => exact hfits.known.has hholds
  | rotation pending => exact ⟨hfits.known.has hholds.1, hfits.known.has hholds.2⟩
  | recovery pending =>
    obtain ⟨hold, hnew⟩ := hholds
    refine ⟨?_, hfits.known.has hnew⟩
    cases hp : pending.oldToken with
    | none =>
      rw [hp] at hold
      exact hold
    | some token =>
      rw [hp] at hold
      exact hfits.known.has hold

/-- A process that reads a file that was not there at the start reads a whole token. -/
theorem Sound.read {i : Nat} {path : Path} {bytes : List UInt8} (h : s.Sound files)
    (hp : files path = none) (hs : Step s (.called i (.direct (.read path)) (some bytes)) s') :
    ∃ token : TunnelToken, bytes = token.toList ∧ s'.disk.files.Has path token := by
  have hfile : s'.disk.files path = some (.file bytes) := by
    cases hs with
    | @call i c k env answer disk hi hserve =>
      obtain ⟨found, hfits, ha, -⟩ := h.attempts hi
      exact (hfits.serve ha hserve).next.2.2 bytes rfl
  rcases (h.step hs).files path with hsame | ⟨-, token, ht⟩
  · rw [hsame, hp] at hfile
    cases hfile
  · exact ⟨token, Entry.file.inj (Option.some.inj (hfile.symm.trans ht)), ht⟩

end FirstUse

/-- **Simultaneous first use agrees on one identity.** However many processes load or create the
files, and prepare rotations and recoveries, at the same time, and wherever they crash: a file that
was not there appears as a whole token, is read as that, and stays. Two processes that load one path
return the token that is there; and when there is an identity, two that prepare a rotation or a
recovery return the same old token and the same new one, which are those in the files. -/
theorem first_use (files : Files) (s : FirstUse)
    (h : Trace.Reached (FirstUse.Initial files) FirstUse.Step s) :
    (∀ path, files path = none → s.disk.files path = none ∨ ∃ token, s.disk.files.Has path token) ∧
    (∀ es s', Trace FirstUse.Step s es s' → ∀ path entry, s.disk.files path = some entry →
      s'.disk.files path = some entry) ∧
    (∀ i path bytes s', files path = none →
      FirstUse.Step s (.called i (.direct (.read path)) (some bytes)) s' →
      ∃ token : TunnelToken, bytes = token.toList ∧ s'.disk.files.Has path token) ∧
    (∀ i path token, s.Returned i (.loaded path token) → s.disk.files.Has path token) ∧
    (∀ i j path token token', s.Returned i (.loaded path token) →
      s.Returned j (.loaded path token') → token = token') ∧
    (files .identity ≠ none → ∀ i result old new, s.Returned i result →
      result.prepared = some (old, new) →
      s.disk.files.Has .pending new ∧
        ∃ token, old = some token ∧ s.disk.files.Has .identity token) ∧
    (files .identity ≠ none → ∀ i j result result' p p', s.Returned i result →
      s.Returned j result' → result.prepared = some p → result'.prepared = some p' → p = p') := by
  have hs := FirstUse.reached_sound h
  have hloaded : ∀ i path token, s.Returned i (.loaded path token) → s.disk.files.Has path token :=
    fun i path token hr => hs.returned hr
  have hprepared : files .identity ≠ none → ∀ i result old new, s.Returned i result →
      result.prepared = some (old, new) → s.disk.files.Has .pending new ∧
        ∃ token, old = some token ∧ s.disk.files.Has .identity token := by
    intro hidentity i result old new hr hp
    have hholds := hs.returned hr
    cases result with
    | loaded path token => cases hp
    | rotation pending =>
      cases hp
      exact ⟨hholds.2, pending.oldToken, rfl, hholds.1⟩
    | recovery pending =>
      cases hp
      refine ⟨hholds.2, ?_⟩
      have hold := hholds.1
      cases ho : pending.oldToken with
      | none =>
        rw [ho] at hold
        exact absurd hold hidentity
      | some token =>
        rw [ho] at hold
        exact ⟨token, rfl, hold⟩
  refine ⟨fun path hp => ?_, fun es s' ht => hs.stays ht, fun i path bytes s' hp => hs.read hp,
    hloaded, fun i j path token token' hi hj => ?_, hprepared, ?_⟩
  · rcases hs.files path with hsame | ⟨-, ht⟩
    · rw [hsame]
      exact .inl hp
    · exact .inr ht
  · exact Files.Has.unique (hloaded i path token hi) (hloaded j path token' hj)
  · rintro hidentity i j result result' ⟨old, new⟩ ⟨old', new'⟩ hi hj hp hp'
    obtain ⟨hnew, token, rfl, hold⟩ := hprepared hidentity i result old new hi hp
    obtain ⟨hnew', token', rfl, hold'⟩ := hprepared hidentity j result' old' new' hj hp'
    rw [Files.Has.unique hnew hnew', Files.Has.unique hold hold']

/-! ## Schedules -/

namespace FirstUse

inductive Move where
  | start (i : Nat) (job : Job)
  | call (i : Nat)
  | crash (i : Nat)

/-- Process `i` draws the token of the bytes `i + 1`, and writes it to the temporary file `i` at
once. -/
def envOf (i : Nat) : SysEnv :=
  ⟨⟨.replicate 32 (.ofNat (i + 1)), "", none⟩, i, ⟨32, by decide⟩⟩

def move (s : FirstUse) : Move → Option FirstUse
  | .start i job =>
    match s.attempts.lookup i with
    | some _ => none
    | none => some { s with attempts := s.attempts.insert i (.runs (job.program.handle systemCalls)) }
  | .call i =>
    match s.attempts.lookup i with
    | some (.runs (.call c k)) =>
      match s.disk.serve i (envOf i) c with
      | none => none
      | some (answer, disk) =>
        some { disk := disk, attempts := s.attempts.insert i (.runs (k answer)) }
    | _ => none
  | .crash i =>
    match s.attempts.lookup i with
    | some (.runs (.call _ _)) => some { s with attempts := s.attempts.insert i .ended }
    | _ => none

variable {files : Files} {s s' : FirstUse}

theorem move_step {m : Move} (h : s.move m = some s') : ∃ e, Step s e s' := by
  cases m with
  | start i job =>
    simp only [move] at h
    split at h
    · cases h
    · rename_i hi
      cases h
      exact ⟨_, .start job hi⟩
  | call i =>
    simp only [move] at h
    split at h
    · rename_i hi
      split at h
      · cases h
      · rename_i hs
        cases h
        exact ⟨_, .call hi hs⟩
    · cases h
  | crash i =>
    simp only [move] at h
    split at h
    · rename_i hi
      cases h
      exact ⟨_, .crash hi⟩
    · cases h

/-- The run of the moves from these files, with no temporary file. -/
def run (files : Files) (ms : List Move) : Option FirstUse :=
  Trace.schedule move (fun _ _ => true) ⟨⟨files, fun _ => none⟩, ∅⟩ ms

theorem reached_run {ms : List Move} (h : run files ms = some s) :
    Trace.Reached (Initial files) Step s := by
  have hinit : Trace.Reached (Initial files) Step ⟨⟨files, fun _ => none⟩, ∅⟩ := .of_init ⟨rfl, rfl⟩
  exact hinit.schedule (fun _ _ _ _ _ => move_step) h

/-- What process `i` has returned. -/
def result? (s : FirstUse) (i : Nat) : Option Loaded :=
  match s.attempts.lookup i with
  | some (.runs program) => program.result?
  | _ => none

theorem returned_of_result? {i : Nat} {result : Loaded} (h : s.result? i = some result) :
    s.Returned i result := by
  unfold result? at h
  split at h
  · rename_i hi
    rw [Program.result?_eq_some h] at hi
    exact hi
  · cases h

def hasCrashed (s : FirstUse) (i : Nat) : Bool :=
  match s.attempts.lookup i with
  | some .ended => true
  | _ => false

/-- Three processes find no identity, and each has its token in a temporary file. Then one crashes,
one publishes its token, and the last one is too late and reads it. -/
def identityRace : List Move :=
  [.start 0 (.loadOrCreateAt .identity), .start 1 (.loadOrCreateAt .identity),
    .start 2 (.loadOrCreateAt .identity)] ++
    (List.replicate 7 [.call 0, .call 1, .call 2]).flatten ++ [.crash 2, .call 1] ++
    List.replicate 5 (.call 0) ++ [.call 1]

def identityOnly : Files
  | .identity => some (.file (List.replicate 32 9))
  | _ => none

/-- A rotation and a recovery both find no pending file; that of the recovery is published. -/
def pendingRace : List Move :=
  [.start 0 .prepareRotation, .start 1 .prepareRecovery] ++
    (List.replicate 10 [.call 0, .call 1]).flatten ++ [.call 1, .call 1] ++
    List.replicate 5 (.call 0) ++ [.call 1]

end FirstUse

/-- The process that is too late returns the token of the other one, which is in the file; and so do
a rotation and a recovery. -/
theorem first_use_races :
    (∃ (s : FirstUse) (token token' : TunnelToken), s.Returned 0 (.loaded .identity token) ∧
      s.Returned 1 (.loaded .identity token') ∧ s.hasCrashed 2 = true ∧ token = token' ∧
      s.disk.files.Has .identity token) ∧
    ∃ (s : FirstUse) (rotation : PendingRotation) (recovery : PendingRecovery),
      s.Returned 0 (.rotation rotation) ∧ s.Returned 1 (.recovery recovery) ∧
      (some rotation.oldToken, rotation.newToken) = (recovery.oldToken, recovery.newToken) ∧
      s.disk.files.Has .pending rotation.newToken := by
  constructor
  · have h : (FirstUse.run (fun _ => none) FirstUse.identityRace).map (fun s =>
        (s.result? 0, s.result? 1, s.hasCrashed 2)) =
        some (some (.loaded .identity (.replicate 32 2)), some (.loaded .identity (.replicate 32 2)),
          true) := by decide +kernel
    obtain ⟨s, hs, he⟩ := Option.map_eq_some_iff.mp h
    simp only [Prod.mk.injEq] at he
    obtain ⟨h₀, h₁, h₂⟩ := he
    have h₀ := FirstUse.returned_of_result? h₀
    have h₁ := FirstUse.returned_of_result? h₁
    obtain ⟨-, -, -, hloaded, hagree, -⟩ := first_use _ s (FirstUse.reached_run hs)
    exact ⟨s, _, _, h₀, h₁, h₂, hagree 0 1 _ _ _ h₀ h₁, hloaded 0 _ _ h₀⟩
  · have h : (FirstUse.run FirstUse.identityOnly FirstUse.pendingRace).map (fun s =>
        (s.result? 0, s.result? 1)) =
        some (some (.rotation ⟨.replicate 32 9, .replicate 32 2⟩),
          some (.recovery ⟨some (.replicate 32 9), .replicate 32 2⟩)) := by decide +kernel
    obtain ⟨s, hs, he⟩ := Option.map_eq_some_iff.mp h
    obtain ⟨h₀, h₁⟩ := Prod.mk.inj he
    have h₀ := FirstUse.returned_of_result? h₀
    have h₁ := FirstUse.returned_of_result? h₁
    obtain ⟨-, -, -, -, -, hprepared, hagree⟩ := first_use _ s (FirstUse.reached_run hs)
    have hidentity : FirstUse.identityOnly .identity ≠ none := nofun
    exact ⟨s, _, _, h₀, h₁, hagree hidentity 0 1 _ _ _ _ h₀ h₁ rfl rfl,
      (hprepared hidentity 0 _ _ _ h₀ rfl).1⟩

end GameNet
