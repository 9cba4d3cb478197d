import GameNet.Commands
import GameNet.FirstUse

/-!
# GameNet.Privacy

Who may read the files of `~/.config/gamenet`. Any number of commands run on the machine at the same
time, over their system calls; each may crash, or have a call fail, at any of them. A file that was
there before may be readable by others, and so may a temporary file when it is created:
`set_owner_only` is what makes a file the owner's.

`guards` is the contract: nothing is written to a temporary file before it is the owner's, nothing
is read from a path before it is, and only the pending file is moved, after it was read. `Settled`
says that others cannot read what is at a path. No step undoes it.
-/

namespace GameNet

/-- Which files only their owner may read: the mode 0600, or an access list of one entry. -/
structure Modes where
  path : Path → Bool
  temporary : Nat → Bool

namespace Modes

def setPath (modes : Modes) (path : Path) (ownerOnly : Bool) : Modes :=
  { modes with path := Function.update modes.path path ownerOnly }

def setTemporary (modes : Modes) (n : Nat) (ownerOnly : Bool) : Modes :=
  { modes with temporary := Function.update modes.temporary n ownerOnly }

/-- The modes after a system call. A file that is moved keeps its mode; the one of a new temporary
file is up to the system. -/
def after (modes : Modes) (fresh : Bool) : (c : SysCall) → SysAnswer c → Modes
  | .setOwnerOnly (.path path), found => if found then modes.setPath path true else modes
  | .setOwnerOnly (.temporary n), found => if found then modes.setTemporary n true else modes
  | .newTemporary, n => modes.setTemporary n fresh
  | .persistNoclobber n path, published =>
    if published then modes.setPath path (modes.temporary n) else modes
  | .persist n path, _ => modes.setPath path (modes.temporary n)
  | .direct (.rename source target), done =>
    if done then modes.setPath target (modes.path source) else modes
  | _, _ => modes

end Modes

/-- What a process has done: its view, its temporary files, and what it has made the owner's. -/
structure Known where
  view : View
  written : Nat → Option (List UInt8)
  made : Modes

namespace Known

def start : Known := ⟨.start, fun _ => none, ⟨fun _ => false, fun _ => false⟩⟩

def observe (g : Known) : (c : SysCall) → SysAnswer c → Known
  | .direct c, answer => { g with view := g.view.observe c answer }
  | .setOwnerOnly (.path path), found =>
    if found then { g with made := g.made.setPath path true }
    else { g with view := g.view.learn path none }
  | .setOwnerOnly (.temporary n), found =>
    if found then { g with made := g.made.setTemporary n true } else g
  | .newTemporary, n =>
    { g with
      written := Function.update g.written n (some [])
      made := g.made.setTemporary n false }
  | .write n bytes, count =>
    { g with
      written := Function.update g.written n ((g.written n).map (· ++ bytes.take count)) }
  | .persistNoclobber n path, published =>
    if published then
      { g with
        view := { g.view.learn path (g.written n) with drawn := none }
        written := Function.update g.written n none }
    else { g with view := { g.view with drawn := none } }
  | .persist n path, _ =>
    { g with
      view := g.view.learn path (g.written n)
      written := Function.update g.written n none }
  | .remove n, _ => { g with written := Function.update g.written n none }
  | .createDirAll, _ | .syncTemporary _, _ | .syncParent, _ => g

/-- The process has such a temporary file, which is the owner's. -/
structure Holds (g : Known) (n : Nat) (bytes : List UInt8) : Prop where
  written : g.written n = some bytes
  made : g.made.temporary n = true

end Known

def guards (sha256 : Bytes32 → Bytes32) : Program.Contract SysCall SysAnswer Known where
  allowed g c :=
    match c with
    | .direct (.persistNoclobber _ _) | .direct (.persist _ _) => False
    | .direct (.read path) => g.made.path path = true
    | .direct c => (installs sha256).allowed g.view c
    | .write n _ | .persistNoclobber n _ | .persist n _ => ∃ bytes, g.Holds n bytes
    | .setOwnerOnly (.temporary n) | .remove n => ∃ bytes, g.written n = some bytes
    | _ => True
  next g c answer g' := g' = g.observe c answer

theorem HostDisk.setTemporary_self {disk : HostDisk} {n : Nat} {temporary : Option Temporary} :
    (disk.setTemporary n temporary).temporaries n = temporary := Function.update_self _ _ _

theorem HostDisk.publish_self {disk : HostDisk} {n : Nat} {temporary : Temporary} {path : Path} :
    (disk.publish n temporary path).temporaries n = none := Function.update_self _ _ _

/-! ## The system calls obey the contract -/

section

variable {sha256 : Bytes32 → Bytes32} {α β : Type} {g : Known} {path : Path} {token : TunnelToken}
  {n : Nat} {bytes content : List UInt8}

abbrev Guards (sha256 : Bytes32 → Bytes32) (p : Sys α) (Q : α → Known → Prop) (g : Known) : Prop :=
  p.Obeys (guards sha256) Q (fun _ _ => True) g

theorem guards_bind {p : Sys β} {f : β → Sys α} {Q : α → Known → Prop}
    (h : Guards sha256 p (fun b g => Guards sha256 (f b) Q g) g) :
    Guards sha256 (p >>= f) Q g :=
  Program.obeys_bind.mpr h

theorem guards_call {c : SysCall} {Q : SysAnswer c → Known → Prop}
    (ha : (guards sha256).allowed g c) (h : ∀ answer, Q answer (g.observe c answer)) :
    Guards sha256 (Sys.sysCall c) Q g := by
  refine ⟨ha, ?_⟩
  rintro answer g' rfl
  exact h answer

theorem guards_writeAll {Q : Unit → Known → Prop} (hn : g.Holds n content)
    (h : ∀ g', g'.view = g.view → g'.Holds n (content ++ bytes) → Q () g') :
    Guards sha256 (Sys.writeAll n bytes) Q g := by
  induction bytes using Sys.writeAll.induct n generalizing g content with
  | case1 =>
    rw [Sys.writeAll, dif_pos rfl]
    refine h g rfl ?_
    rw [List.append_nil]
    exact hn
  | case2 bytes hne ih =>
    rw [Sys.writeAll, dif_neg hne]
    refine guards_bind (guards_call ⟨content, hn⟩ fun count => ?_)
    have hn₁ : (g.observe (.write n bytes) count).Holds n (content ++ bytes.take count) := by
      refine ⟨?_, hn.made⟩
      simp [Known.observe, hn.written]
    refine ih count hn₁ fun g' hview hn' => h g' hview ?_
    rw [List.append_assoc, List.take_append_drop] at hn'
    exact hn'

theorem guards_newPrivate {Q : Nat → Known → Prop}
    (h : ∀ n g', g'.view = g.view → g'.Holds n token.toList → Q n g') :
    Guards sha256 (Sys.newPrivate token) Q g := by
  refine guards_bind (guards_call trivial fun n => ?_)
  refine guards_bind (guards_call ⟨[], Function.update_self _ _ _⟩ fun found => ?_)
  cases found with
  | false => trivial
  | true =>
    have hn : ((g.observe .newTemporary n).observe (.setOwnerOnly (.temporary n)) true).Holds n
        [] := ⟨Function.update_self _ _ _, Function.update_self _ _ _⟩
    refine guards_bind (guards_writeAll hn fun g₁ hview hn₁ => ?_)
    exact guards_bind (guards_call trivial fun _ => h n g₁ hview hn₁)

/-- A token is put into its place as it is known to be there. -/
theorem guards_createNewPrivate {Q : Bool → Known → Prop}
    (h : ∀ created g', g'.view = g.view.observe (.persistNoclobber path token) created →
      Q created g') :
    Guards sha256 (Sys.createNewPrivate path token) Q g := by
  refine guards_bind (guards_call trivial fun _ => guards_bind (guards_newPrivate ?_))
  intro n g₁ hview hn
  refine guards_bind (guards_call ⟨_, hn⟩ fun published => ?_)
  cases published with
  | true =>
    refine guards_bind (guards_call trivial fun _ => h true _ ?_)
    simp only [Known.observe, hview, hn.written, View.observe]
    rfl
  | false =>
    refine guards_bind (guards_call ⟨_, hn.written⟩ fun _ => h false _ ?_)
    simp only [Known.observe, hview, View.observe]
    rfl

theorem guards_replacePrivate {Q : Unit → Known → Prop}
    (h : ∀ g', g'.view = g.view.observe (.persist path token) () → Q () g') :
    Guards sha256 (Sys.replacePrivate path token) Q g := by
  refine guards_bind (guards_newPrivate fun n g₁ hview hn => ?_)
  refine guards_bind (guards_call ⟨_, hn⟩ fun _ => guards_call trivial fun _ => h _ ?_)
  simp only [Known.observe, hview, hn.written, View.observe]

theorem guards_readPrivate {Q : Option (List UInt8) → Known → Prop}
    (h : ∀ found g', g'.view = g.view.observe (.read path) found → Q found g') :
    Guards sha256 (Sys.readPrivate path) Q g := by
  refine guards_bind (guards_call trivial fun found => ?_)
  cases found with
  | false => exact h none _ rfl
  | true => exact guards_call (Function.update_self _ _ _) fun found => h found _ rfl

/-- The system calls of a call that `installs` allows are allowed, and teach what the call does. -/
theorem systemCalls_guard (c : Call) (g : Known) (ha : (installs sha256).allowed g.view c) :
    Guards sha256 (systemCalls c) (fun a g' => (installs sha256).next g.view c a g'.view) g := by
  cases c with
  | persistNoclobber path token => exact guards_createNewPrivate fun _ _ hview => hview
  | persist path token => exact guards_replacePrivate fun _ hview => hview
  | read path => exact guards_readPrivate fun _ _ hview => hview
  | metadata | getrandom | rename | prompt | send | receive => exact guards_call ha fun _ => rfl

end

/-! ## The machine -/

/-- A command of the CLI that uses the files. -/
inductive Invocation where
  | run (command : Command)
  | showRecoveryCode

def Invocation.program (sha256 : Bytes32 → Bytes32) : Invocation → Prog Unit
  | .run command => command.program sha256
  | .showRecoveryCode => do let _ ← readExisting .recovery

theorem Invocation.installs {sha256 : Bytes32 → Bytes32} (invocation : Invocation) (v : View) :
    Installs sha256 (invocation.program sha256) (fun _ _ => True) v := by
  cases invocation with
  | run command => exact (command.installs v).mono (fun _ _ _ => trivial) fun _ _ he => he
  | showRecoveryCode => exact installs_bind (installs_readExisting fun _ _ _ _ => trivial)

inductive Desktop.Process where
  | runs (program : Sys Unit) (known : Known)
  /-- It crashed, or a call of it failed. -/
  | ended

/-- The machine of a host, on which commands run. -/
structure Desktop where
  disk : HostDisk
  modes : Modes
  processes : KeyedMap Nat Desktop.Process

namespace Desktop

inductive Event where
  | started (i : Nat) (invocation : Invocation)
  | called (i : Nat) (c : SysCall) (answer : SysAnswer c)
  | crashed (i : Nat)
  | failed (i : Nat)

inductive Step (sha256 : Bytes32 → Bytes32) : Desktop → Event → Desktop → Prop where
  | start {s : Desktop} {i : Nat} (invocation : Invocation) (h : s.processes.lookup i = none) :
      Step sha256 s (.started i invocation)
        { s with
          processes := s.processes.insert i
            (.runs ((invocation.program sha256).handle systemCalls) .start) }
  | call {s : Desktop} {i : Nat} {c : SysCall} {k : SysAnswer c → Sys Unit} {known : Known}
      {answer : SysAnswer c} {disk : HostDisk} (env : SysEnv) (fresh : Bool)
      (h : s.processes.lookup i = some (.runs (.call c k) known))
      (hs : s.disk.serve i env c = some (answer, disk)) :
      Step sha256 s (.called i c answer)
        { disk := disk
          modes := s.modes.after fresh c answer
          processes := s.processes.insert i (.runs (k answer) (known.observe c answer)) }
  | crash {s : Desktop} {i : Nat} {c : SysCall} {k : SysAnswer c → Sys Unit} {known : Known}
      (h : s.processes.lookup i = some (.runs (.call c k) known)) :
      Step sha256 s (.crashed i) { s with processes := s.processes.insert i .ended }
  | fail {s : Desktop} {i : Nat} {c : SysCall} {k : SysAnswer c → Sys Unit} {known : Known}
      (h : s.processes.lookup i = some (.runs (.call c k) known)) :
      Step sha256 s (.failed i)
        { s with
          disk := s.disk.dropTemporaries i
          processes := s.processes.insert i .ended }

/-- Others cannot read what is at the path. -/
def Settled (disk : HostDisk) (modes : Modes) (path : Path) : Prop :=
  disk.files path = none ∨ modes.path path = true

/-- Others cannot read what is in the temporary files. -/
def Covered (disk : HostDisk) (modes : Modes) : Prop :=
  ∀ n temporary, disk.temporaries n = some temporary → temporary.bytes ≠ [] →
    modes.temporary n = true

/-- No command runs. What is at the paths may be readable by others. -/
def Initial (files : Files) (s : Desktop) : Prop :=
  s.disk.files = files ∧ Covered s.disk s.modes ∧ s.processes = ∅

/-! ## One system call -/

/-- What the process has made the owner's, or knows, others cannot read. -/
structure FitsPaths (known : Known) (disk : HostDisk) (modes : Modes) : Prop where
  made : ∀ {path}, known.made.path path = true → Settled disk modes path
  known : ∀ {path}, known.view.known path ≠ none → Settled disk modes path

/-- The temporary files of process `i` are as it has left them. -/
structure FitsTemporaries (known : Known) (i : Nat) (disk : HostDisk) (modes : Modes) : Prop where
  written : ∀ {n bytes}, known.written n = some bytes → disk.temporaries n = some ⟨i, bytes⟩
  made : ∀ {n bytes}, known.Holds n bytes → modes.temporary n = true

/-- What a step does to the paths: nothing that others cannot read is uncovered. -/
structure KeepsPaths (known' : Known) (disk disk' : HostDisk) (modes modes' : Modes) : Prop where
  settled : ∀ {path}, Settled disk modes path → Settled disk' modes' path
  untouched : ∀ {path}, ¬Settled disk' modes' path → disk'.files path = disk.files path
  fits : FitsPaths known' disk' modes'

/-- What a step of process `i` does to the temporary files. -/
structure KeepsTemporaries (known' : Known) (i : Nat) (disk disk' : HostDisk)
    (modes modes' : Modes) : Prop where
  covered : Covered disk modes → Covered disk' modes'
  others : ∀ {n temporary}, disk.temporaries n = some temporary → temporary.owner ≠ i →
    disk'.temporaries n = some temporary ∧ modes'.temporary n = modes.temporary n
  fits : FitsTemporaries known' i disk' modes'

section

variable {sha256 : Bytes32 → Bytes32} {known known' : Known} {i n : Nat} {disk disk' : HostDisk}
  {modes modes' : Modes} {c : SysCall} {answer : SysAnswer c} {env : SysEnv} {fresh : Bool}
  {path : Path} {bytes : List UInt8}

/-- A path that the step settles, or does nothing to. -/
theorem FitsPaths.keeps (h : FitsPaths known disk modes)
    (hp : ∀ path, Settled disk' modes' path ∨
      disk'.files path = disk.files path ∧ modes'.path path = modes.path path ∧
        (known'.made.path path = true → known.made.path path = true) ∧
        (known'.view.known path ≠ none → known.view.known path ≠ none)) :
    KeepsPaths known' disk disk' modes modes' := by
  have hsettled : ∀ {path}, Settled disk modes path → Settled disk' modes' path := by
    intro path hs
    rcases hp path with hs' | ⟨hfile, hmode, -, -⟩
    · exact hs'
    · rw [Settled, hfile, hmode]
      exact hs
  refine ⟨hsettled, fun {path} hnot => ?_, fun {path} hmade => ?_, fun {path} hknown => ?_⟩
  · rcases hp path with hs | ⟨hfile, -, -, -⟩
    · exact absurd hs hnot
    · exact hfile
  · rcases hp path with hs | ⟨-, -, hsame, -⟩
    · exact hs
    · exact hsettled (h.made (hsame hmade))
  · rcases hp path with hs | ⟨-, -, -, hsame⟩
    · exact hs
    · exact hsettled (h.known (hsame hknown))

/-- A step on one temporary file, which is the process's own if it was there. -/
theorem FitsTemporaries.keeps (h : FitsTemporaries known i disk modes)
    (hown : ∀ own, disk.temporaries n = some own → own.owner = i)
    (hothers : ∀ m, m ≠ n → disk'.temporaries m = disk.temporaries m ∧
      modes'.temporary m = modes.temporary m ∧ known'.written m = known.written m ∧
      known'.made.temporary m = known.made.temporary m)
    (hcovered : ∀ temporary, disk'.temporaries n = some temporary → temporary.bytes ≠ [] →
      modes'.temporary n = true)
    (hwritten : ∀ bytes, known'.written n = some bytes → disk'.temporaries n = some ⟨i, bytes⟩)
    (hmade : ∀ bytes, known'.Holds n bytes → modes'.temporary n = true) :
    KeepsTemporaries known' i disk disk' modes modes' := by
  refine ⟨fun hc m temporary ht hne => ?_, fun {m temporary} ht hne => ?_,
    fun {m bytes} hw => ?_, fun {m bytes} hm => ?_⟩
  · by_cases he : m = n
    · subst he
      exact hcovered temporary ht hne
    · obtain ⟨htemporary, hmode, -, -⟩ := hothers m he
      rw [htemporary] at ht
      rw [hmode]
      exact hc m temporary ht hne
  · have he : m ≠ n := by
      rintro rfl
      exact hne (hown temporary ht)
    obtain ⟨htemporary, hmode, -, -⟩ := hothers m he
    exact ⟨htemporary.trans ht, hmode⟩
  · by_cases he : m = n
    · subst he
      exact hwritten bytes hw
    · obtain ⟨htemporary, -, hsame, -⟩ := hothers m he
      rw [htemporary]
      exact h.written (hsame ▸ hw)
  · by_cases he : m = n
    · subst he
      exact hmade bytes hm
    · obtain ⟨-, hmode, hwritten, hmade⟩ := hothers m he
      rw [hmode]
      exact h.made ⟨hwritten ▸ hm.written, hmade ▸ hm.made⟩

/-- A step on no temporary file. -/
theorem FitsTemporaries.same (h : FitsTemporaries known i disk modes)
    (htemporaries : disk'.temporaries = disk.temporaries)
    (hmodes : modes'.temporary = modes.temporary) (hwritten : known'.written = known.written)
    (hmade : known'.made.temporary = known.made.temporary) :
    KeepsTemporaries known' i disk disk' modes modes' := by
  refine ⟨fun hc => ?_, fun ht _ => ?_, fun hw => ?_, fun hm => ?_⟩
  · rw [Covered, htemporaries, hmodes]
    exact hc
  · rw [htemporaries, hmodes]
    exact ⟨ht, rfl⟩
  · rw [htemporaries]
    exact h.written (hwritten ▸ hw)
  · rw [hmodes]
    exact h.made ⟨hwritten ▸ hm.written, hmade ▸ hm.made⟩

/-- What the file system does for a call that is one system call. -/
theorem FitsPaths.direct {c : Call} {answer : Answer c} {files : Files} {env : Env}
    (h : FitsPaths known disk modes) (ha : (guards sha256).allowed known (.direct c))
    (hs : disk.files.serve env c = some (answer, files)) :
    KeepsPaths (known.observe (.direct c) answer) disk { disk with files := files } modes
      (modes.after fresh (.direct c) answer) := by
  cases c with
  | persistNoclobber | persist => exact ha.elim
  | read path =>
    have hsettled : Settled disk modes path := h.made ha
    have hfiles : files = disk.files := by
      simp only [Files.serve] at hs
      split at hs
      · cases hs
        rfl
      · cases hs
        rfl
      · cases hs
    subst hfiles
    refine h.keeps fun p => ?_
    by_cases he : p = path
    · subst he
      exact .inl hsettled
    · refine .inr ⟨rfl, rfl, id, ?_⟩
      rw [show (known.observe (.direct (.read path)) answer).view.known p = known.view.known p from
        Function.update_of_ne he _ _]
      exact id
  | rename source target =>
    obtain ⟨rfl, rfl, token, hknows, -⟩ := ha
    have hfound : known.view.known .pending ≠ none := by
      rw [hknows]
      exact Option.some_ne_none _
    have hpending : Settled disk modes .pending := h.known hfound
    simp only [Files.serve] at hs
    split at hs
    · cases hs
      exact h.keeps fun p => .inr ⟨rfl, rfl, id, id⟩
    · rename_i entry hentry
      cases hs
      have hmode : modes.path .pending = true := hpending.resolve_left (by simp [hentry])
      refine h.keeps fun p => ?_
      cases p with
      | identity => exact .inl (.inr hmode)
      | pending => exact .inl (.inl rfl)
      | recovery => exact .inr ⟨rfl, rfl, id, id⟩
  | metadata | getrandom | prompt | send | receive =>
    cases hs
    exact h.keeps fun p => .inr ⟨rfl, rfl, id, id⟩

theorem after_direct_temporary {c : Call} (answer : Answer c) :
    (modes.after fresh (.direct c) answer).temporary = modes.temporary := by
  cases c with
  | rename source target =>
    simp only [Modes.after]
    split <;> rfl
  | _ => rfl

/-- What was written privately is put into its place. -/
theorem serve_publish (hp : FitsPaths known disk modes) (ht : FitsTemporaries known i disk modes)
    (hn : known.Holds n bytes)
    (hview : ∀ p, p ≠ path → known'.view.known p = known.view.known p)
    (hwritten : known'.written = Function.update known.written n none)
    (hmade : known'.made = known.made) :
    KeepsPaths known' disk (disk.publish n ⟨i, bytes⟩ path) modes
      (modes.setPath path (modes.temporary n)) ∧
    KeepsTemporaries known' i disk (disk.publish n ⟨i, bytes⟩ path) modes
      (modes.setPath path (modes.temporary n)) := by
  constructor
  · refine hp.keeps fun p => ?_
    by_cases he : p = path
    · subst he
      exact .inl (.inr ((Function.update_self _ _ _).trans (ht.made hn)))
    · refine .inr ⟨if_neg he, Function.update_of_ne he _ _, hmade ▸ id, ?_⟩
      rw [hview p he]
      exact id
  · refine ht.keeps (HostDisk.owner_eq (ht.written hn.written)) (fun m hm => ?_)
      (fun temporary htemporary => ?_) (fun bytes hw => ?_) fun bytes hh => ?_
    · refine ⟨Function.update_of_ne hm _ _, rfl, ?_, by rw [hmade]⟩
      rw [hwritten]
      exact Function.update_of_ne hm _ _
    · rw [HostDisk.publish_self] at htemporary
      cases htemporary
    · rw [hwritten, Function.update_self] at hw
      cases hw
    · have hw := hh.written
      rw [hwritten, Function.update_self] at hw
      cases hw

/-- What a call of process `i` does, with its answer, to the paths and to the temporary files. -/
def Keeps (fresh : Bool) (known : Known) (i : Nat) (modes : Modes) (disk : HostDisk) (c : SysCall)
    (answer : SysAnswer c) (disk' : HostDisk) : Prop :=
  KeepsPaths (known.observe c answer) disk disk' modes (modes.after fresh c answer) ∧
    KeepsTemporaries (known.observe c answer) i disk disk' modes (modes.after fresh c answer)

/-- The mode of a path is set, or the path is not there. -/
theorem keeps_setOwnerOnly_path (answer : Bool) (hp : FitsPaths known disk modes)
    (ht : FitsTemporaries known i disk modes) :
    Keeps fresh known i modes disk (.setOwnerOnly (.path path)) answer disk := by
  cases answer with
  | true =>
    refine ⟨hp.keeps fun p => ?_, ht.same rfl rfl rfl rfl⟩
    by_cases he : p = path
    · subst he
      exact .inl (.inr (Function.update_self _ _ _))
    · refine .inr ⟨rfl, Function.update_of_ne he _ _, ?_, id⟩
      show Function.update known.made.path path true p = true → _
      rw [Function.update_of_ne he]
      exact id
  | false =>
    refine ⟨hp.keeps fun p => .inr ⟨rfl, rfl, id, ?_⟩, ht.same rfl rfl rfl rfl⟩
    show Function.update known.view.known path none p ≠ none → _
    by_cases he : p = path
    · subst he
      rw [Function.update_self]
      exact fun hne => absurd rfl hne
    · rw [Function.update_of_ne he]
      exact id

theorem keeps_setOwnerOnly_temporary (answer : Bool) (hp : FitsPaths known disk modes)
    (ht : FitsTemporaries known i disk modes) (hw : known.written n = some bytes) :
    Keeps fresh known i modes disk (.setOwnerOnly (.temporary n)) answer disk := by
  cases answer with
  | true =>
    have hmode : (modes.setTemporary n true).temporary n = true := Function.update_self _ _ _
    refine ⟨hp.keeps fun p => .inr ⟨rfl, rfl, id, id⟩,
      ht.keeps (HostDisk.owner_eq (ht.written hw)) (fun m hm => ?_) (fun _ _ _ => hmode)
        (fun _ hw => ht.written hw) fun _ _ => hmode⟩
    exact ⟨rfl, Function.update_of_ne hm _ _, rfl, Function.update_of_ne hm _ _⟩
  | false => exact ⟨hp.keeps fun p => .inr ⟨rfl, rfl, id, id⟩, ht.same rfl rfl rfl rfl⟩

/-- There is nothing in a temporary file that has just been created. -/
theorem keeps_newTemporary (hp : FitsPaths known disk modes)
    (ht : FitsTemporaries known i disk modes) (hfree : disk.temporaries n = none) :
    Keeps fresh known i modes disk .newTemporary n (disk.setTemporary n (some ⟨i, []⟩)) := by
  refine ⟨hp.keeps fun p => .inr ⟨rfl, rfl, id, id⟩,
    ht.keeps (n := n) ?_ (fun m hm => ?_) ?_ ?_ ?_⟩
  · intro own ho
    cases hfree.symm.trans ho
  · exact ⟨Function.update_of_ne hm _ _, Function.update_of_ne hm _ _,
      Function.update_of_ne hm _ _, Function.update_of_ne hm _ _⟩
  · intro temporary htemporary hne
    rw [HostDisk.setTemporary_self] at htemporary
    cases htemporary
    exact absurd rfl hne
  · intro bytes hw
    rw [show (known.observe .newTemporary n).written n = some [] from
      Function.update_self _ _ _] at hw
    cases hw
    exact HostDisk.setTemporary_self
  · intro bytes hh
    have hmade := hh.made
    rw [show (known.observe .newTemporary n).made.temporary n = false from
      Function.update_self _ _ _] at hmade
    cases hmade

/-- What is written goes to a file that the process has made its owner's. -/
theorem keeps_write {content : List UInt8} (count : { k : Nat // 0 < k })
    (hp : FitsPaths known disk modes) (ht : FitsTemporaries known i disk modes)
    (hn : known.Holds n content) :
    Keeps fresh known i modes disk (.write n bytes) count
      (disk.setTemporary n (some ⟨i, content ++ bytes.take count⟩)) := by
  have hw := hn.written
  have hmode := ht.made hn
  refine ⟨hp.keeps fun p => .inr ⟨rfl, rfl, id, id⟩,
    ht.keeps (HostDisk.owner_eq (ht.written hw)) (fun m hm => ?_) (fun _ _ _ => hmode)
      (fun bytes' hw' => ?_) fun _ _ => hmode⟩
  · exact ⟨Function.update_of_ne hm _ _, rfl, Function.update_of_ne hm _ _, rfl⟩
  · rw [show (known.observe (.write n bytes) count).written n =
      (known.written n).map (· ++ bytes.take count) from Function.update_self _ _ _, hw] at hw'
    cases hw'
    exact HostDisk.setTemporary_self

theorem keeps_remove (hp : FitsPaths known disk modes) (ht : FitsTemporaries known i disk modes)
    (hw : known.written n = some bytes) :
    Keeps fresh known i modes disk (.remove n) () (disk.setTemporary n none) := by
  have hnone : (known.observe (.remove n) ()).written n = none := Function.update_self _ _ _
  refine ⟨hp.keeps fun p => .inr ⟨rfl, rfl, id, id⟩,
    ht.keeps (HostDisk.owner_eq (ht.written hw)) (fun m hm => ?_)
      (fun temporary htemporary => ?_) (fun bytes hw' => ?_) fun bytes hh => ?_⟩
  · exact ⟨Function.update_of_ne hm _ _, rfl, Function.update_of_ne hm _ _, rfl⟩
  · rw [HostDisk.setTemporary_self] at htemporary
    cases htemporary
  · rw [hnone] at hw'
    cases hw'
  · cases hnone.symm.trans hh.written

/-- What a system call does when the contract allows it. -/
theorem serve_keeps (fresh : Bool) (hp : FitsPaths known disk modes)
    (ht : FitsTemporaries known i disk modes) (ha : (guards sha256).allowed known c)
    (hs : disk.serve i env c = some (answer, disk')) :
    Keeps fresh known i modes disk c answer disk' := by
  cases c with
  | direct c =>
    obtain ⟨⟨answer', files'⟩, hserve, heq⟩ := Option.map_eq_some_iff.mp hs
    cases heq
    exact ⟨hp.direct ha hserve, ht.same rfl (after_direct_temporary answer') rfl rfl⟩
  | setOwnerOnly file =>
    cases file with
    | path path =>
      obtain ⟨-, rfl⟩ := Prod.mk.inj (Option.some.inj hs)
      exact keeps_setOwnerOnly_path answer hp ht
    | temporary n =>
      obtain ⟨bytes, hw⟩ := ha
      obtain ⟨-, rfl⟩ := Prod.mk.inj (Option.some.inj hs)
      exact keeps_setOwnerOnly_temporary answer hp ht hw
  | createDirAll | syncTemporary | syncParent =>
    cases hs
    exact ⟨hp.keeps fun p => .inr ⟨rfl, rfl, id, id⟩, ht.same rfl rfl rfl rfl⟩
  | newTemporary =>
    simp only [HostDisk.serve] at hs
    split at hs
    · rename_i hfree
      cases hs
      exact keeps_newTemporary hp ht hfree
    · cases hs
  | write n bytes =>
    obtain ⟨content, hn⟩ := ha
    simp only [HostDisk.serve, ht.written hn.written] at hs
    cases hs
    exact keeps_write env.written hp ht hn
  | persistNoclobber n path =>
    obtain ⟨content, hn⟩ := ha
    simp only [HostDisk.serve, ht.written hn.written] at hs
    split at hs
    · cases hs
      exact serve_publish hp ht hn (fun p hne => Function.update_of_ne hne _ _) rfl rfl
    · cases hs
      exact ⟨hp.keeps fun p => .inr ⟨rfl, rfl, id, id⟩, ht.same rfl rfl rfl rfl⟩
  | persist n path =>
    obtain ⟨content, hn⟩ := ha
    simp only [HostDisk.serve, ht.written hn.written] at hs
    cases hs
    exact serve_publish hp ht hn (fun p hne => Function.update_of_ne hne _ _) rfl rfl
  | remove n =>
    obtain ⟨content, hw⟩ := ha
    cases hs
    exact keeps_remove hp ht hw

end

/-! ## Runs -/

structure Sound (sha256 : Bytes32 → Bytes32) (files : Files) (s : Desktop) : Prop where
  covered : Covered s.disk s.modes
  untouched : ∀ {path}, ¬Settled s.disk s.modes path → s.disk.files path = files path
  processes : ∀ {i program known}, s.processes.lookup i = some (.runs program known) →
    FitsPaths known s.disk s.modes ∧ FitsTemporaries known i s.disk s.modes ∧
      Guards sha256 program (fun _ _ => True) known

variable {sha256 : Bytes32 → Bytes32} {files : Files} {s s' : Desktop} {e : Event} {path : Path}

/-- The other processes are as they were when process `i` has made a step. -/
theorem Sound.move {i : Nat} {process : Process} {disk : HostDisk} {modes : Modes}
    (h : s.Sound sha256 files) (hcovered : Covered disk modes)
    (hsettled : ∀ {path}, Settled s.disk s.modes path → Settled disk modes path)
    (huntouched : ∀ {path}, ¬Settled disk modes path → disk.files path = s.disk.files path)
    (hothers : ∀ {n temporary}, s.disk.temporaries n = some temporary → temporary.owner ≠ i →
      disk.temporaries n = some temporary ∧ modes.temporary n = s.modes.temporary n)
    (hself : ∀ program known, process = .runs program known → FitsPaths known disk modes ∧
      FitsTemporaries known i disk modes ∧ Guards sha256 program (fun _ _ => True) known) :
    Sound sha256 files ⟨disk, modes, s.processes.insert i process⟩ where
  covered := hcovered
  untouched hnot := (huntouched hnot).trans (h.untouched fun hs => hnot (hsettled hs))
  processes {j program known} hj := by
    rw [KeyedMap.lookup_insert] at hj
    split at hj
    · rename_i he
      subst he
      exact hself program known (Option.some.inj hj)
    · rename_i hne
      obtain ⟨hpaths, htemporaries, hguards⟩ := h.processes hj
      refine ⟨⟨fun hm => hsettled (hpaths.made hm), fun hk => hsettled (hpaths.known hk)⟩,
        ⟨fun hw => (hothers (htemporaries.written hw) hne).1, fun hh => ?_⟩, hguards⟩
      rw [(hothers (htemporaries.written hh.written) hne).2]
      exact htemporaries.made hh

theorem Sound.step (h : s.Sound sha256 files) (hs : Step sha256 s e s') :
    s'.Sound sha256 files ∧
      ∀ {path}, Settled s.disk s.modes path → Settled s'.disk s'.modes path := by
  cases hs with
  | @start i invocation hi =>
    refine ⟨h.move h.covered id (fun _ => rfl) (fun ht _ => ⟨ht, rfl⟩) ?_, id⟩
    rintro program known ⟨⟩
    refine ⟨⟨nofun, fun hne => absurd rfl hne⟩, ⟨nofun, fun hh => ?_⟩, ?_⟩
    · cases hh.written
    · exact (invocation.installs Known.start.view).handle Known.view systemCalls_guard
  | @call i c k known answer disk env fresh hi hserve =>
    obtain ⟨hpaths, htemporaries, ha, hguards⟩ := h.processes hi
    obtain ⟨hp, ht⟩ := serve_keeps fresh hpaths htemporaries ha hserve
    refine ⟨h.move (ht.covered h.covered) hp.settled hp.untouched ht.others ?_, hp.settled⟩
    rintro program known' ⟨⟩
    exact ⟨hp.fits, ht.fits, hguards answer _ rfl⟩
  | crash hi => exact ⟨h.move h.covered id (fun _ => rfl) (fun ht _ => ⟨ht, rfl⟩) nofun, id⟩
  | @fail i c k known hi =>
    refine ⟨h.move ?_ id (fun _ => rfl) (fun ht hne => ⟨?_, rfl⟩) nofun, id⟩
    · intro n temporary ht hne
      exact h.covered n temporary (Option.filter_eq_some_iff.mp ht).1 hne
    · exact Option.filter_eq_some_iff.mpr ⟨ht, bne_iff_ne.mpr hne⟩

theorem reached_private (h : Trace.Reached (Initial files) (Step sha256) s) :
    s.Sound sha256 files := by
  refine h.invariant (I := Sound sha256 files) ?_ fun s e s' hi hs => (hi.step hs).1
  rintro s ⟨rfl, hcovered, hempty⟩
  refine ⟨hcovered, fun _ => rfl, fun hl => ?_⟩
  rw [hempty] at hl
  cases hl

/-- **No token is shown to others.** However many commands run at the same time, and wherever they
crash: a temporary file that has anything in it is its owner's only. What others can read at a path
was there before the commands, and no command that runs has read it or put it there; once they
cannot, they never can again. A request is sent when everything that the command has found in the
files is out of their reach. -/
theorem kept_private (sha256 : Bytes32 → Bytes32) (files : Files) (s : Desktop)
    (h : Trace.Reached (Initial files) (Step sha256) s) :
    (∀ n temporary, s.disk.temporaries n = some temporary → temporary.bytes ≠ [] →
      s.modes.temporary n = true) ∧
    (∀ path, s.disk.files path ≠ none → s.modes.path path = false →
      s.disk.files path = files path ∧ ∀ i program known,
        s.processes.lookup i = some (.runs program known) → known.view.known path = none) ∧
    (∀ path, Settled s.disk s.modes path → ∀ es s', Trace (Step sha256) s es s' →
      Settled s'.disk s'.modes path) ∧
    ∀ i message k known,
      s.processes.lookup i = some (.runs (.call (.direct (.send message)) k) known) →
      known.view.Asks sha256 message ∧
        ∀ path, known.view.known path ≠ none → Settled s.disk s.modes path := by
  have hsound := reached_private h
  refine ⟨hsound.covered, fun path hfile hmode => ?_, fun path hs es s' ht => ?_,
    fun i message k known hi => ?_⟩
  · have hnot : ¬Settled s.disk s.modes path := by
      rintro (hnone | hset)
      · exact hfile hnone
      · rw [hmode] at hset
        cases hset
    refine ⟨hsound.untouched hnot, fun i program known hi => ?_⟩
    by_contra hknown
    exact hnot ((hsound.processes hi).1.known hknown)
  · refine (ht.invariant (I := fun s => s.Sound sha256 files ∧ Settled s.disk s.modes path) ?_
      ⟨hsound, hs⟩).2
    rintro s₁ e s₂ ⟨h₁, hs₁⟩ hstep
    obtain ⟨h₂, hsettled⟩ := h₁.step hstep
    exact ⟨h₂, hsettled hs₁⟩
  · obtain ⟨hpaths, -, ha, -⟩ := hsound.processes hi
    exact ⟨ha, fun path hk => hpaths.known hk⟩

/-- Others can read the identity until a host that starts makes it the owner's. -/
theorem kept_private_repaired : ∃ (s₀ s : Desktop) (es : List Event),
    s₀.disk.files.Has .identity (.replicate 32 7) ∧ s₀.modes.path .identity = false ∧
    Trace (Step id) s₀ es s ∧
    ∀ es s', Trace (Step id) s es s' → Settled s'.disk s'.modes .identity := by
  let files : Files := fun _ => some (.file (List.replicate 32 7))
  let s₀ : Desktop := ⟨⟨files, fun _ => none⟩, ⟨fun _ => false, fun _ => false⟩, ∅⟩
  let env : SysEnv := ⟨⟨.replicate 32 7, "", none⟩, 0, ⟨32, by decide⟩⟩
  have hcovered : Covered s₀.disk s₀.modes := by
    intro n temporary ht
    cases ht
  have hinit : Trace.Reached (Initial files) (Step id) s₀ := .of_init ⟨rfl, hcovered, rfl⟩
  have hrun : ∃ s es, Trace (Step id) s₀ es s ∧ s.modes.path .identity = true :=
    ⟨_, _,
      .cons (.start (i := 0) (.run (.host 7777)) rfl) <|
      .cons (.call env false (AList.lookup_insert _) rfl) <|
      .cons (.call env false (AList.lookup_insert _) rfl) <|
      .single (.call env false (AList.lookup_insert _) rfl),
      rfl⟩
  obtain ⟨s, es, ht, hmode⟩ := hrun
  obtain ⟨-, -, hstays, -⟩ := kept_private id files s (hinit.trace ht)
  exact ⟨s₀, s, es, rfl, rfl, ht, hstays .identity (.inr hmode)⟩

end Desktop
end GameNet
