import GameNet.Commands
import GameNet.Lib.KeyedMap
import GameNet.Lib.Trace

/-!
# GameNet.Clients

Commands that run at the same time on one machine, on the same identity files. Their calls are
interleaved in any order, each call is atomic, and the relay's replies are any messages at any
time.

Between a process's last read of the pending file and its rename another process can install the
file and a third one can put a new token in its place. So a renamed token is confirmed when the
pending file is still the one that was read, and not otherwise.
-/

namespace GameNet

/-- A command with its view, and how many pending files had been created when it last read the
pending file. -/
structure Process where
  program : Prog Unit
  view : View
  readAt : Option Nat

/-- The files, how many pending files have been created, and the processes that run. -/
structure Clients where
  files : Files
  created : Nat
  processes : KeyedMap Nat Process

namespace Clients

inductive Event where
  | started (i : Nat) (command : Command)
  | called (i : Nat) (c : Call) (answer : Answer c)
  /-- The process ends or crashes, or a call fails. -/
  | stopped (i : Nat)

def readsPending : Call → Bool
  | .read .pending => true
  | _ => false

/-- The call puts a new pending file in place. -/
def creates : (c : Call) → Answer c → Bool
  | .persistNoclobber .pending _, answer => answer
  | _, _ => false

inductive Step (sha256 : Bytes32 → Bytes32) : Clients → Event → Clients → Prop where
  | start {s : Clients} {i : Nat} {command : Command} : s.processes.lookup i = none →
      Step sha256 s (.started i command)
        { s with
          processes := s.processes.insert i
            ⟨command.program sha256, .start, none⟩ }
  | call {s : Clients} {i : Nat} {c : Call} {k : Answer c → Prog Unit} {view : View}
      {readAt : Option Nat} {env : Env} {answer : Answer c} {files : Files} :
      s.processes.lookup i = some ⟨.call c k, view, readAt⟩ →
      s.files.serve env c = some (answer, files) →
      Step sha256 s (.called i c answer)
        { files := files
          created := if creates c answer then s.created + 1 else s.created
          processes := s.processes.insert i
            ⟨k answer, view.observe c answer, if readsPending c then some s.created else readAt⟩ }
  | stop {s : Clients} {i : Nat} {process : Process} : s.processes.lookup i = some process →
      Step sha256 s (.stopped i) { s with processes := s.processes.erase i }

/-- Any files, and no process yet. -/
def Initial (s : Clients) : Prop := s.processes = ∅

/-- When the event is a rename that installs a token, the process has had it confirmed. -/
def InstallsConfirmed (s : Clients) (e : Event) (s' : Clients) : Prop :=
  ∀ i token, e = .called i (.rename .pending .identity) true → s'.files.Has .identity token →
    ∃ process, s.processes.lookup i = some process ∧ process.view.Confirmed token

/-- When the event is a rename of the pending file, no pending file was created since the process
read it: it is still the one that was read. -/
def Undisturbed (s : Clients) (e : Event) : Prop :=
  ∀ i process, e = .called i (.rename .pending .identity) true →
    s.processes.lookup i = some process → process.readAt = some s.created

/-- A step that is not a rename of another pending file than the one that was read. -/
def CalmStep (sha256 : Bytes32 → Bytes32) (s : Clients) (e : Event) (s' : Clients) : Prop :=
  Step sha256 s e s' ∧ s.Undisturbed e

/-- What a process knows of the pending file fits the files. -/
structure Fits (files : Files) (created : Nat) (view : View) (readAt : Option Nat) : Prop where
  readAt_le : ∀ {n}, readAt = some n → n ≤ created
  /-- While no pending file was created since it was read, it is gone or the same. -/
  same : readAt = some created → files .pending = none ∨
    ∃ bytes, view.known .pending = some bytes ∧ files .pending = some (.file bytes)

structure Sound (sha256 : Bytes32 → Bytes32) (s : Clients) : Prop where
  installs : ∀ {i process}, s.processes.lookup i = some process →
    Installs sha256 process.program (fun _ v => v.Finished) process.view
  fits : ∀ {i process}, s.processes.lookup i = some process →
    Fits s.files s.created process.view process.readAt

variable {sha256 : Bytes32 → Bytes32} {s s' : Clients} {e : Event} {files files' : Files}
  {created : Nat} {view view' : View} {readAt : Option Nat} {env : Env}

theorem Fits.gone (h : Fits files created view readAt) (hp : files' .pending = none) :
    Fits files' created view' readAt := ⟨h.readAt_le, fun _ => .inl hp⟩

theorem Fits.keep (h : Fits files created view readAt) (hp : files' .pending = files .pending)
    (hk : view'.known .pending = view.known .pending) : Fits files' created view' readAt := by
  refine ⟨h.readAt_le, fun hn => ?_⟩
  rw [hp, hk]
  exact h.same hn

theorem Fits.create (h : Fits files created view readAt) :
    Fits files' (created + 1) view' readAt := by
  constructor
  · intro n hn
    have := h.readAt_le hn
    omega
  · intro hn
    have := h.readAt_le hn
    omega

/-- An allowed call creates a pending file, or takes it away, or leaves it as it is. In the last
case a process that does not read it knows as much about it as before. -/
theorem serve_pending {c : Call} {answer : Answer c} (ha : (installs sha256).allowed view c)
    (hs : files.serve env c = some (answer, files')) (hc : creates c answer = false) :
    files' .pending = none ∨ (files' .pending = files .pending ∧
      (readsPending c = false → (view.observe c answer).known .pending = view.known .pending)) := by
  cases c with
  | persistNoclobber path token =>
    simp only [Files.serve] at hs
    split at hs
    · cases hs
      cases path with
      | pending => cases hc
      | identity => exact .inr ⟨rfl, fun _ => rfl⟩
      | recovery => exact .inr ⟨rfl, fun _ => rfl⟩
    · cases hs
      exact .inr ⟨rfl, fun _ => rfl⟩
  | persist path token =>
    obtain ⟨rfl, -⟩ := ha
    cases hs
    exact .inr ⟨rfl, fun _ => rfl⟩
  | rename source target =>
    obtain ⟨rfl, rfl, -⟩ := ha
    simp only [Files.serve] at hs
    split at hs
    · rename_i hp
      cases hs
      exact .inl hp
    · cases hs
      exact .inl rfl
  | read path =>
    have hfiles : files' = files := by
      simp only [Files.serve] at hs
      split at hs
      · cases hs; rfl
      · cases hs; rfl
      · cases hs
    subst hfiles
    refine .inr ⟨rfl, fun hr => ?_⟩
    cases path with
    | pending => cases hr
    | identity => rfl
    | recovery => rfl
  | _ =>
    cases hs
    exact .inr ⟨rfl, fun _ => rfl⟩

/-- A process that does not make the call knows as much as before. -/
theorem Fits.other {c : Call} {answer : Answer c} {view' : View}
    (h : Fits files created view' readAt) (ha : (installs sha256).allowed view c)
    (hs : files.serve env c = some (answer, files')) :
    Fits files' (if creates c answer then created + 1 else created) view' readAt := by
  cases hc : creates c answer with
  | true => exact h.create
  | false =>
    rcases serve_pending ha hs hc with hp | ⟨hp, -⟩
    · exact h.gone hp
    · exact h.keep hp rfl

theorem Fits.call {c : Call} {answer : Answer c} (h : Fits files created view readAt)
    (ha : (installs sha256).allowed view c) (hs : files.serve env c = some (answer, files')) :
    Fits files' (if creates c answer then created + 1 else created) (view.observe c answer)
      (if readsPending c then some created else readAt) := by
  cases hr : readsPending c with
  | true =>
    obtain rfl : c = .read .pending := by
      cases c with
      | read path =>
        cases path with
        | pending => rfl
        | identity => cases hr
        | recovery => cases hr
      | _ => cases hr
    refine ⟨?_, fun _ => ?_⟩
    · rintro n hn
      cases hn
      exact Nat.le_refl _
    · simp only [Files.serve] at hs
      split at hs
      · rename_i hp
        cases hs
        exact .inl hp
      · rename_i bytes hp
        cases hs
        exact .inr ⟨bytes, rfl, hp⟩
      · cases hs
  | false =>
    cases hc : creates c answer with
    | true => exact h.create
    | false =>
      rcases serve_pending ha hs hc with hp | ⟨hp, hk⟩
      · exact h.gone hp
      · exact h.keep hp (hk hr)

theorem Sound.step (h : Sound sha256 s) (hs : Step sha256 s e s') : Sound sha256 s' := by
  cases hs with
  | @start i command hi =>
    constructor
    · intro j process hj
      rw [KeyedMap.lookup_insert] at hj
      split at hj
      · cases hj
        exact command.installs _
      · exact h.installs hj
    · intro j process hj
      rw [KeyedMap.lookup_insert] at hj
      split at hj
      · cases hj
        exact ⟨nofun, nofun⟩
      · exact h.fits hj
  | @call i c k view readAt env answer files hi hserve =>
    have hp := h.installs hi
    constructor
    · intro j process hj
      rw [KeyedMap.lookup_insert] at hj
      split at hj
      · cases hj
        exact hp.answer rfl
      · exact h.installs hj
    · intro j process hj
      rw [KeyedMap.lookup_insert] at hj
      split at hj
      · cases hj
        exact (h.fits hi).call hp.1 hserve
      · exact (h.fits hj).other hp.1 hserve
  | @stop i process hi =>
    have hsub : ∀ {j q}, AList.lookup j (AList.erase i s.processes) = some q →
        s.processes.lookup j = some q := by
      intro j q hj
      rw [KeyedMap.lookup_erase] at hj
      split at hj
      · cases hj
      · exact hj
    exact ⟨fun hj => h.installs (hsub hj), fun hj => h.fits (hsub hj)⟩

theorem Initial.sound (h : Initial s) : Sound sha256 s := by
  constructor
  · intro i process hi
    rw [h] at hi; cases hi
  · intro i process hi
    rw [h] at hi; cases hi

/-- **Renamed tokens are confirmed**, in every run in which each rename finds the pending file
that the process read. -/
theorem rename_confirmed (h : Trace.Reached Initial (CalmStep sha256) s)
    (hs : CalmStep sha256 s e s') : s.InstallsConfirmed e s' := by
  have hsound : Sound sha256 s := h.invariant (fun _ => Initial.sound) fun _ _ _ hi hs => hi.step hs.1
  obtain ⟨hstep, hcalm⟩ := hs
  rintro i token rfl hhas
  cases hstep with
  | @call _ _ k view readAt env _ files hi hserve =>
    refine ⟨_, hi, ?_⟩
    obtain ⟨-, -, seen, hseen, hconfirmed⟩ := (hsound.installs hi).1
    simp only [Files.serve] at hserve
    split at hserve
    · cases hserve
    · rename_i entry hpending
      cases hserve
      rcases (hsound.fits hi).same (hcalm i _ rfl hi) with hnone | ⟨bytes, hbytes, hfile⟩
      · rw [hpending] at hnone; cases hnone
      · rw [hpending] at hfile
        cases hfile
        have hentry : Entry.file bytes = .file token.toList := Option.some.inj hhas
        have hlist : token.toList = seen.toList := by
          rw [← Option.some.inj (hbytes.symm.trans hseen)]
          exact (Entry.file.inj hentry).symm
        rw [List.Vector.eq _ _ hlist]
        exact hconfirmed

/-! ## Schedules -/

inductive Move where
  | start (i : Nat) (command : Command)
  | call (i : Nat) (env : Env)

def move (sha256 : Bytes32 → Bytes32) (s : Clients) : Move → Option Clients
  | .start i command =>
    match s.processes.lookup i with
    | some _ => none
    | none =>
      some
        { s with
          processes := s.processes.insert i
            ⟨command.program sha256, .start, none⟩ }
  | .call i env =>
    match s.processes.lookup i with
    | some ⟨.call c k, view, readAt⟩ =>
      match s.files.serve env c with
      | none => none
      | some (answer, files) =>
        some
          { files := files
            created := if creates c answer then s.created + 1 else s.created
            processes := s.processes.insert i
              ⟨k answer, view.observe c answer,
                if readsPending c then some s.created else readAt⟩ }
    | _ => none

/-- The move renames no other pending file than the one that was read. -/
def calm (s : Clients) : Move → Bool
  | .start _ _ => true
  | .call i _ => (s.processes.lookup i).all fun process =>
    process.program.pending? != some (.rename .pending .identity) ||
      process.readAt == some s.created

theorem calm_step {m : Move} (hc : s.calm m = true) (h : s.move sha256 m = some s') :
    ∃ e, CalmStep sha256 s e s' := by
  cases m with
  | start i command =>
    simp only [move] at h
    split at h
    · cases h
    · rename_i hi
      cases h
      exact ⟨_, .start hi, fun _ _ he _ => by cases he⟩
  | call i env =>
    simp only [move] at h
    split at h
    · rename_i hi
      split at h
      · cases h
      · rename_i hserve
        cases h
        refine ⟨_, .call hi hserve, ?_⟩
        intro j process he hj
        cases he
        rw [hi] at hj
        cases hj
        simpa [calm, hi, Program.pending?] using hc
    · cases h

theorem reached_schedule {ms : List Move} (hr : Trace.Reached Initial (CalmStep sha256) s)
    (h : Trace.schedule (move sha256) calm s ms = some s') :
    Trace.Reached Initial (CalmStep sha256) s' :=
  hr.schedule (fun _ _ _ _ => calm_step) h

def tokenOf (byte : UInt8) : TunnelToken := .replicate 32 byte

/-- Every random token is `tokenOf byte`, and the relay confirms rotations on port 10000. -/
def envOf (byte : UInt8) : Env := ⟨tokenOf byte, "", some (.identityRotated (some 10000))⟩

def hostFiles : Files := fun path =>
  if path = .identity then some (.file (tokenOf 1).toList) else none

/-- What a process is about to call, its request and its last read, beside the pending file. -/
structure Outlook where
  call : Option Call
  request : Option ControlMessage
  readAt : Option Nat
  created : Nat
  pending : Option Entry
deriving DecidableEq

def outlook (s : Clients) (i : Nat) : Option Outlook :=
  (s.processes.lookup i).map fun process =>
    ⟨process.program.pending?, process.view.request, process.readAt, s.created,
      s.files .pending⟩

theorem outlook_eq_some {i : Nat} {c : Call} {request : Option ControlMessage} {readAt : Option Nat}
    {created : Nat} {entry : Option Entry}
    (h : s.outlook i = some ⟨some c, request, readAt, created, entry⟩) :
    ∃ k view, s.processes.lookup i = some ⟨.call c k, view, readAt⟩ ∧ view.request = request ∧
      s.created = created ∧ s.files .pending = entry := by
  simp only [outlook, Option.map_eq_some_iff, Outlook.mk.injEq] at h
  obtain ⟨⟨program, view, readAt⟩, hp, hcall, hrequest, rfl, hcreated, hpending⟩ := h
  obtain ⟨k, hk⟩ := Program.pending?_eq_some hcall
  obtain rfl : program = _ := hk
  exact ⟨k, view, hp, hrequest, hcreated, hpending⟩

theorem serve_rename {entry : Entry} (env : Env) (h : files .pending = some entry) :
    files.serve env (.rename .pending .identity) =
      some (true, (files.set .pending none).set .identity (some entry)) := by
  simp only [Files.serve, h]

theorem initial_hostFiles : Trace.Reached Initial (CalmStep sha256) ⟨hostFiles, 0, ∅⟩ :=
  .of_init (show Initial _ from rfl)

/-- Two rotations in turns. Both find no pending file, and the second one loses the race to create
it and shares that of the first. -/
def inTurns : List Move :=
  [.start 1 .rotateIdentity, .start 2 .rotateIdentity] ++
    (List.replicate 11 [.call 1 (envOf 2), .call 2 (envOf 3)]).flatten

/-- The first one installs its token, which has been confirmed, while the second one is about to. -/
theorem rename_confirmed_in_turns : ∃ s s' : Clients,
    s.InstallsConfirmed (.called 1 (.rename .pending .identity) true) s' ∧
      s'.files.Has .identity (tokenOf 2) ∧
      ∃ process, s'.processes.lookup 2 = some process ∧
        process.view.Confirmed (tokenOf 2) := by
  have h : ((Trace.schedule (move id) calm ⟨hostFiles, 0, ∅⟩ inTurns).bind fun s =>
      (s.outlook 1).map fun o => (o, (s.processes.lookup 2).map fun process =>
        (process.view.request, process.view.reply))) =
      some (⟨some (.rename .pending .identity),
        some (.rotateIdentity (tokenOf 1) (tokenOf 2)), some 1, 1,
        some (.file (tokenOf 2).toList)⟩,
        some (some (.rotateIdentity (tokenOf 1) (tokenOf 2)),
          some (.identityRotated (some 10000)))) := by decide
  simp only [Option.bind_eq_some_iff, Option.map_eq_some_iff, Prod.mk.injEq] at h
  obtain ⟨s, hs, _, ho, rfl, process, hother, hrequest', hreply'⟩ := h
  obtain ⟨k, view, hp, hrequest, hcreated, hpending⟩ := outlook_eq_some ho
  refine ⟨s, _, rename_confirmed (reached_schedule initial_hostFiles hs)
    ⟨.call hp (serve_rename (envOf 2) hpending), ?_⟩, rfl, process, ?_, ?_⟩
  · intro i process hi hq
    cases hi
    rw [hp] at hq
    cases hq
    rw [hcreated]
  · rw [KeyedMap.lookup_insert, if_neg (by decide)]
    exact hother
  · exact .inl ⟨_, _, hrequest', hreply'⟩

/-- The first rotation is confirmed and has read the pending file; the second one installs it; the
third one prepares the next rotation. -/
def race : List Move :=
  [.start 1 .rotateIdentity, .start 2 .rotateIdentity, .start 3 .rotateIdentity] ++
    List.replicate 11 (.call 1 (envOf 2)) ++ List.replicate 12 (.call 2 (envOf 3)) ++
    List.replicate 5 (.call 3 (envOf 4))

/-- When the first process of the race goes on, it installs the token of the third one. -/
theorem not_rename_confirmed :
    ¬∀ (s s' : Clients) (e : Event), Trace.Reached Initial (Step id) s → Step id s e s' →
      s.InstallsConfirmed e s' := by
  intro hall
  have h : ((Trace.schedule (move id) calm ⟨hostFiles, 0, ∅⟩ race).bind fun s => s.outlook 1) =
      some ⟨some (.rename .pending .identity),
        some (.rotateIdentity (tokenOf 1) (tokenOf 2)), some 1, 2,
        some (.file (tokenOf 4).toList)⟩ := by decide
  simp only [Option.bind_eq_some_iff] at h
  obtain ⟨s, hs, ho⟩ := h
  obtain ⟨k, view, hp, hrequest, -, hpending⟩ := outlook_eq_some ho
  have hcalm : Trace.Reached Initial (CalmStep id) s := reached_schedule initial_hostFiles hs
  have hr : Trace.Reached Initial (Step id) s := hcalm.mono fun _ _ _ hs => hs.1
  obtain ⟨q, hq, hc⟩ := hall s _ _ hr (.call hp (serve_rename (envOf 2) hpending)) 1
    (tokenOf 4) rfl rfl
  rw [hp] at hq
  cases hq
  rcases hc with ⟨old, port, hreq, -⟩ | ⟨secret, port, hreq, -⟩
  · rw [hrequest] at hreq
    cases hreq
  · rw [hrequest] at hreq
    cases hreq

end Clients
end GameNet
