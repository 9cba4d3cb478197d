import GameNet.Claim
import GameNet.Fleet

/-!
# GameNet.Rerun

A recovery that was interrupted is rerun: `prepare_recovery_at` takes the token that is in
`identity.bin.pending`. The relay accepts it, whatever was lost, unless another machine's recovery
has moved the claim away from that very token in the meantime (`rerun_accepted`,
`not_rerun_accepted`).
-/

namespace GameNet

namespace LeaseTable

variable {t : LeaseTable} {recoveryId recoveryId' old new : TokenId} {peerIp peerIp' : IpAddr}
  {now : UInt64} {lease : Lease}

theorem recoveredLease_live (h : now < now.saturatingAdd graceMs) :
    (recoveredLease lease old peerIp now).expired now = false := by
  rw [Lease.expired_eq_false]
  intro e he
  rw [← LeaseStatus.grace.inj he]
  exact h

/-- A recovery retires the token that the claim had. -/
theorem Recovers.refused {result : RecoveryResult} (h : t.Recovers recoveryId old new peerIp lease)
    (hlt : now < now.saturatingAdd graceMs) :
    ((t.moveClaim old new (recoveredLease lease old peerIp now)).recoverClaim recoveryId' old
      peerIp' now).1 ≠ .ok result := by
  obtain ⟨r, t', hq⟩ : ∃ r t', (t.moveClaim old new
      (recoveredLease lease old peerIp now)).recoverClaim recoveryId' old peerIp' now = (r, t') :=
    ⟨_, _, Prod.mk.eta.symm⟩
  rw [hq]
  rintro rfl
  rcases recoverClaim_cases hq with ⟨_, _, hr, -⟩ | ⟨-, ⟨_, he⟩ | ⟨_, hl, -⟩⟩
  · -- the claim at the new token lists the old one
    have hl : ((t.moveClaim old new (recoveredLease lease old peerIp now)).reapExpired
        now).leases.lookup new = some (recoveredLease lease old peerIp now) :=
      lookup_reapExpired.mpr ⟨lookup_moveClaim, recoveredLease_live hlt⟩
    obtain ⟨before, hb⟩ := retire_eq lease.retiredTokenIds old
    refine isRetired_eq_false.mp hr.newNotRetired _ _ hl ?_
    show old ∈ retire lease.retiredTokenIds old
    rw [hb]
    exact List.mem_append_right _ (List.mem_singleton.mpr rfl)
  · cases he
  · rcases lookup_moveClaim_eq_some.mp (lookup_of_reapExpired hl) with ⟨he, -⟩ | ⟨-, hne, -⟩
    · exact h.distinct he
    · exact hne rfl

end LeaseTable

namespace Fleet

/-- Calls on the files of a machine whose random tokens are fresh. -/
def onFiles (fresh : TunnelToken → Prop) : Program.Contract Call Answer Files where
  allowed _ _ := True
  next files c answer files' :=
    ∃ env : Env, (c = .getrandom → fresh env.random) ∧ files.serve env c = some (answer, files')

/-- Whatever a program returns when it runs on the files satisfies `Q`. -/
abbrev OnFiles {α : Type} (fresh : TunnelToken → Prop) (p : Prog α) (Q : α → Files → Prop)
    (files : Files) : Prop :=
  p.Obeys (onFiles fresh) Q (fun _ _ => True) files

/-- Whatever token `prepare_recovery_at` returns on machine `i`, the relay accepts it for a live
claim that is enrolled with the secret, from a source that is charged for the claim or has room. -/
def Rerunnable (sha256 : Bytes32 → Bytes32) (secret : TunnelToken) (s : Fleet) (i : Nat) : Prop :=
  ∀ k lease peerIp now, s.clock ≤ now → s.table.leases.lookup k = some lease →
    lease.recoveryId = some (.fromToken sha256 secret) → lease.expired now = false →
    (s.table.reapExpired now).Admits lease peerIp →
    OnFiles (s.Fresh sha256) prepareRecovery
      (fun p _ => ∃ result, (s.table.recoverClaim (.fromToken sha256 secret)
        (.fromToken sha256 p.newToken) peerIp now).1 = .ok result)
      (s.machines i).files

variable {sha256 : Bytes32 → Bytes32} {secret token : TunnelToken} {s s' : Fleet} {i : Nat}

/-! ## What a recovery would send -/

section

variable {fresh : TunnelToken → Prop} {files : Files} {path : Path}

theorem onFiles_bind {α β : Type} {p : Prog β} {f : β → Prog α} {Q : α → Files → Prop}
    (h : OnFiles fresh p (fun b files => OnFiles fresh (f b) Q files) files) :
    OnFiles fresh (p >>= f) Q files :=
  Program.obeys_bind.mpr h

theorem onFiles_metadata {Q : Option FileType → Files → Prop}
    (h : Q ((files path).map Entry.fileType) files) :
    OnFiles fresh (symlinkMetadata path) Q files := by
  refine ⟨trivial, ?_⟩
  rintro a files' ⟨env, -, hs⟩
  cases hs
  exact h

theorem onFiles_readExisting {Q : TunnelToken → Files → Prop}
    (h : ∀ token, files.Has path token → Q token files) :
    OnFiles fresh (readExisting path) Q files := by
  refine onFiles_bind (onFiles_metadata ?_)
  cases hf : files path with
  | none => trivial
  | some entry =>
    cases entry with
    | other => trivial
    | file bytes =>
      refine onFiles_bind ⟨trivial, ?_⟩
      rintro a files' ⟨env, -, hs⟩
      simp only [Files.serve, hf] at hs
      cases hs
      dsimp only [Program.Obeys]
      cases ht : toToken bytes with
      | none => trivial
      | some token =>
        refine h token ?_
        rw [Files.Has, hf, toToken_eq_some.mp ht]

theorem onFiles_loadOrCreateAt {Q : TunnelToken → Files → Prop}
    (h : ∀ token, files.Has path token → Q token files)
    (hnew : ∀ token, files path = none → fresh token →
      Q token (files.set path (some (.file token.toList)))) :
    OnFiles fresh (loadOrCreateAt path) Q files := by
  refine onFiles_bind (onFiles_metadata ?_)
  cases hf : files path with
  | some entry => exact onFiles_readExisting h
  | none =>
    refine onFiles_bind ⟨trivial, ?_⟩
    rintro token files' ⟨env, hfresh, hs⟩
    cases hs
    refine onFiles_bind ⟨trivial, ?_⟩
    rintro a files' ⟨env', -, hs⟩
    simp only [Files.serve, hf] at hs
    cases hs
    exact hnew _ hf (hfresh rfl)

theorem onFiles_readIdentity {Q : Option TunnelToken → Files → Prop} (h : ∀ token, Q token files) :
    OnFiles fresh readIdentity Q files := by
  refine onFiles_bind (onFiles_metadata ?_)
  cases hf : files .identity with
  | none => exact h none
  | some entry =>
    exact onFiles_bind (p := readExisting .identity)
      (onFiles_readExisting fun token _ => h (some token))

/-- The new token is the pending one if there is one, and fresh otherwise. -/
theorem onFiles_prepareRecovery :
    OnFiles fresh prepareRecovery
      (fun p _ => files.Has .pending p.newToken ∨ fresh p.newToken) files := by
  refine onFiles_bind (onFiles_readIdentity fun old => ?_)
  refine onFiles_bind (onFiles_loadOrCreateAt ?_ ?_)
  · intro new hnew
    show OnFiles fresh (if _ then _ else _) _ _
    split
    · trivial
    · exact .inl hnew
  · intro new _ hfresh
    show OnFiles fresh (if _ then _ else _) _ _
    split
    · trivial
    · exact .inr hfresh

/-- What a program that starts with a lookup of a regular file satisfies, the rest satisfies. -/
theorem onFiles_of_metadata {α : Type}
    {f : Option FileType → Prog α} {Q : α → Files → Prop} (hh : files.Has path token)
    (h : OnFiles fresh (symlinkMetadata path >>= f) Q files) :
    OnFiles fresh (f (some .regular)) Q files := by
  have ha : files.serve ⟨token, "", none⟩ (.metadata path) = some (some .regular, files) := by
    rw [Files.serve, hh]
    rfl
  exact (Program.obeys_bind.mp h).2 _ _ ⟨_, (fun hr => by cases hr), ha⟩

theorem onFiles_of_readExisting {Q : TunnelToken → Files → Prop} (hh : files.Has path token)
    (h : OnFiles fresh (readExisting path) Q files) : Q token files := by
  have ha : files.serve ⟨token, "", none⟩ (.read path) = some (some token.toList, files) := by
    simp only [Files.serve]
    rw [hh]
  have h := (Program.obeys_bind.mp (onFiles_of_metadata hh h)).2 _ _
    ⟨_, (fun hr => by cases hr), ha⟩
  dsimp only [Program.Obeys] at h
  rw [toToken_eq_some.mpr rfl] at h
  exact h

/-- The pending token is used again. -/
theorem prepareRecovery_reuses {Q : PendingRecovery → Files → Prop} (old new : TunnelToken)
    (hi : files.Has .identity old) (hp : files.Has .pending new) (hne : new ≠ old)
    (h : OnFiles fresh prepareRecovery Q files) :
    Q ⟨some old, new⟩ files := by
  have h := onFiles_of_metadata hi (Program.obeys_bind.mp h)
  have h := onFiles_of_readExisting hi (Program.obeys_bind.mp h)
  have h := onFiles_of_metadata hp (Program.obeys_bind.mp h)
  have h := onFiles_of_readExisting hp h
  rw [if_neg (by simpa using hne)] at h
  exact h

end

/-- **An interrupted recovery can be rerun**, in every run in which no recovery moves the claim
away from a token that a machine has pending: in every state, whatever token a machine's next
recovery is prepared with, the relay accepts it for a live claim that is enrolled with the secret,
from a source that is charged for the claim or has room. -/
theorem rerun_accepted
    (h : Trace.Reached (Initial sha256 secret) (SparingStep sha256 secret) s) (i : Nat) :
    s.Rerunnable sha256 secret i := by
  have hsound : s.Sound sha256 secret :=
    h.invariant (fun _ => Initial.sound) fun _ _ _ hi hs => hi.step hs
  intro k lease peerIp now _ hl hkey hx ha
  refine onFiles_prepareRecovery.mono ?_ fun _ _ _ => trivial
  intro p _ hnew
  rcases hnew with hpending | hfresh
  · have hwaiting : (s.ring sha256 secret).waiting (.fromToken sha256 p.newToken) :=
      ⟨i, .pending, p.newToken, nofun, hpending, rfl⟩
    refine hsound.respects.recovers hsound.wellFormed hl hkey hx ha (.inl (Holds.all hwaiting)) ?_
    exact LeaseTable.isRetired_eq_false.mpr fun _ _ hl hx =>
      hsound.respects.notRetired hl hx hwaiting
  · exact hsound.respects.recovers hsound.wellFormed hl hkey hx ha (.inr hfresh.notKey)
      hfresh.notRetired

/-- A recovery that moves a claim away from a pending token leaves the machine of that token with
a recovery that the relay refuses. -/
theorem not_rerunnable_of_recovers {j : Nat} {recoveryId new : TokenId} {peerIp : IpAddr}
    {now : UInt64} {outcome : LeaseTable.Outcome} {lease : Lease} {identity pending : TunnelToken}
    (h : s.Sound sha256 secret)
    (hs : Step sha256 secret s (.served i ⟨.recoverClaim recoveryId new peerIp, now, outcome⟩) s')
    (hr : (s.table.reapExpired now).Recovers recoveryId (.fromToken sha256 pending) new peerIp lease)
    (hi : (s.machines j).files.Has .identity identity)
    (hp : (s.machines j).files.Has .pending pending) (hlt : now < now.saturatingAdd graceMs) :
    ¬s'.Rerunnable sha256 secret j := by
  cases hs with
  | @serve _ message request _ _ table reply hin hreq hperf hstep _ =>
    -- the request was for the machines' claim
    have hkey : recoveryId = .fromToken sha256 secret := by
      have hasked := (h.machines i).asked hin
      cases message with
      | recoverIdentity recoverySecret new =>
        cases hreq
        cases hperf
        rw [hasked.1]
      | rotateIdentity old new => cases hreq; cases hperf
      | register protocol localPort token rid =>
        simp only [Request.ofMessage] at hreq
        split at hreq
        · cases hreq
        · cases hreq
          rcases hperf with hperf | ⟨port, hperf⟩ <;> cases hperf
      | _ => cases hreq
    subst hkey
    obtain ⟨hsame, hn, -, -, hq⟩ := hstep
    have hw := hsame.wellFormed hn h.wellFormed
    have hr := (hsame.reapExpired now).recovers hr
    have hok := LeaseTable.recoverClaim_ok hr fun k lease' hl hk =>
      hw.reapExpired.recoveryUnique hl hr.held hk hr.enrolled
    obtain ⟨_, hq, -⟩ := LeaseTable.perform_recover hq
    rw [hok] at hq
    cases hq
    have hfiles : (Function.update s.machines i ((s.machines i).answered reply) j).files =
        (s.machines j).files := by
      rw [Function.update_apply]
      split
      · rename_i hj
        rw [hj]
        rfl
      · rfl
    have hne : pending ≠ identity := by
      rintro rfl
      cases (h.apart (a := .pending) (b := .identity) hp hi rfl).2
    intro hrerun
    have hq : OnFiles _ prepareRecovery _ _ :=
      hrerun new _ peerIp now UInt64.le_rfl (LeaseTable.lookup_moveClaim_eq_some.mpr (.inl ⟨rfl, rfl⟩))
        hr.enrolled (LeaseTable.recoveredLease_live hlt) (.inl rfl)
    rw [hfiles] at hq
    obtain ⟨result, hresult⟩ := prepareRecovery_reuses identity pending hi hp hne hq
    exact hr.refused hlt hresult

/-! ## Schedules -/

inductive Move where
  | start (i : Nat) (command : Command)
  | call (i : Nat)
  | stop (i : Nat)
  /-- The relay serves machine `i`, and the reply is lost. A registration binds `port`. -/
  | serve (i : Nat) (port : UInt16) (now : UInt64)

def opOf (sha256 : Bytes32 → Bytes32) (port : UInt16) : Request → LeaseTable.Op
  | .register token recoveryId =>
    .activateWithRecovery (.fromToken sha256 token) (some ⟨recoveryId⟩) LeaseTable.hostIp port
  | .rotate old new => .rotateClaim (.fromToken sha256 old) (.fromToken sha256 new)
  | .recover secret new =>
    .recoverClaim (.fromToken sha256 secret) (.fromToken sha256 new) LeaseTable.hostIp

/-- A call draws no token, the user types nothing, and no reply arrives. -/
def move (sha256 : Bytes32 → Bytes32) (s : Fleet) : Move → Option Fleet
  | .start i command =>
    match (s.machines i).running with
    | some _ => none
    | none =>
      some
        { s with
          machines := Function.update s.machines i
            { s.machines i with
              running := some ⟨command.program sha256, .start⟩
              answer := none } }
  | .call i =>
    match (s.machines i).running with
    | some ⟨.call c k, view⟩ =>
      if c = .getrandom ∨ c = .prompt then none
      else
        match (s.machines i).files.serve ⟨.replicate 32 0, "", none⟩ c with
        | none => none
        | some (answer, files) =>
          some
            { s with
              machines := Function.update s.machines i
                ((s.machines i).after c files ⟨k answer, view.observe c answer⟩) }
    | _ => none
  | .stop i =>
    match (s.machines i).running with
    | none => none
    | some _ =>
      some
        { s with
          machines := Function.update s.machines i
            { s.machines i with running := none, answer := none } }
  | .serve i port now =>
    match (s.machines i).inFlight.bind Request.ofMessage with
    | none => none
    | some request =>
      if s.clock ≤ now then
        some
          { machines := Function.update s.machines i ((s.machines i).answered none)
            table := (s.table.perform now (opOf sha256 port request)).2
            clock := now }
      else none

theorem performs_opOf {request : Request} {port : UInt16} :
    request.Performs sha256 LeaseTable.hostIp (opOf sha256 port request) := by
  cases request with
  | register token recoveryId => exact .inr ⟨port, rfl⟩
  | rotate old new => rfl
  | recover secret new => rfl

theorem start_opOf {request : Request} {port : UInt16} {now : UInt64} :
    (opOf sha256 port request).start now = now := by
  cases request <;> rfl

theorem move_step {m : Move} (h : s.move sha256 m = some s') :
    ∃ e, Step sha256 secret s e s' ∧
      ((∃ i event, e = .moved i event) ∨ ∃ i port now, m = .serve i port now) := by
  cases m with
  | start i command =>
    simp only [move] at h
    split at h
    · cases h
    · cases h
      exact ⟨_, .move (.start ‹_›), .inl ⟨i, _, rfl⟩⟩
  | call i =>
    simp only [move] at h
    split at h
    · rename_i hr
      split at h
      · cases h
      · rename_i hc
        obtain ⟨hrandom, hprompt⟩ := not_or.mp hc
        split at h
        · cases h
        · rename_i hs
          cases h
          have ho : (s.machines i).Offers (s.Fresh sha256) secret _ ⟨.replicate 32 0, "", none⟩ :=
            ⟨fun he => absurd he hrandom, fun he => absurd he hprompt, fun _ => .inl rfl⟩
          exact ⟨_, .move (.call hr ho hs), .inl ⟨i, _, rfl⟩⟩
    · cases h
  | stop i =>
    simp only [move] at h
    split at h
    · cases h
    · cases h
      exact ⟨_, .move (.stop ‹_›), .inl ⟨i, _, rfl⟩⟩
  | serve i port now =>
    simp only [move] at h
    split at h
    · cases h
    · rename_i request hr
      obtain ⟨message, hin, hr⟩ := Option.bind_eq_some_iff.mp hr
      split at h
      · rename_i hle
        cases h
        have hs := LeaseTable.Step.of_perform s.table s.clock (opOf sha256 port request) now
          (by rw [start_opOf]; exact hle) (by rw [start_opOf]; exact UInt64.le_rfl)
        exact ⟨_, .serve hin hr performs_opOf hs (by rintro m ⟨⟩), .inr ⟨i, port, now, rfl⟩⟩
      · cases h

/-- Every claim is at the token of machine `j`. -/
def calm (j : Nat) (s : Fleet) : Move → Bool
  | .serve _ _ _ => s.table.leases.entries.all fun e =>
    (s.machines j).files .identity == some (.file e.1.bytes.toList)
  | _ => true

theorem calm_step {m : Move} {j : Nat}
    (hr : Trace.Reached (Initial id secret) (SparingStep id secret) s) (hc : calm j s m = true)
    (h : s.move id m = some s') : ∃ e, SparingStep id secret s e s' := by
  have hsound : s.Sound id secret :=
    hr.invariant (fun _ => Initial.sound) fun _ _ _ hi hs => hi.step hs
  obtain ⟨e, he, hm⟩ := move_step h
  refine ⟨e, he, ?_⟩
  rintro i recoveryId new peerIp now outcome rfl old lease hrec
  rcases hm with ⟨_, _, hm⟩ | ⟨_, _, _, rfl⟩
  · cases hm
  · -- the claim is at an identity, so at no pending token
    have hl := LeaseTable.lookup_of_reapExpired hrec.held
    have hidentity := List.all_eq_true.mp hc _ (KeyedMap.mem_entries.mpr hl)
    exact hsound.not_holds .identity (beq_iff_eq.mp hidentity) nofun

/-! ## Two machines

Machine 0 has a token and a pending one, machine 1 only a pending one. -/

def sharedSecret : TunnelToken := .replicate 32 100

def twoFiles (i : Nat) : Files
  | .recovery => some (.file sharedSecret.toList)
  | .identity => if i = 0 then some (.file (List.replicate 32 1)) else none
  | .pending =>
    if i = 0 then some (.file (List.replicate 32 2))
    else if i = 1 then some (.file (List.replicate 32 3))
    else none

def twoMachines : Fleet := ⟨fun i => ⟨twoFiles i, none, none, none⟩, .new, 0⟩

/-- Machine 0 hosts and recovers, and the reply to the recovery is lost. -/
def interrupted : List Move :=
  [.start 0 (.host 7777)] ++ List.replicate 7 (.call 0) ++ [.serve 0 10000 1000, .stop 0] ++
    [.start 0 (.recoverIdentity false)] ++ List.replicate 9 (.call 0) ++ [.serve 0 0 1001, .stop 0]

/-- Then machine 1 recovers. -/
def overtaken : List Move :=
  interrupted ++ [.start 1 (.recoverIdentity false)] ++ List.replicate 7 (.call 1) ++
    [.serve 1 0 1002]

/-- The files of machine 0, the clock, and the lease of the token. -/
structure Outlook where
  identity : Option Entry
  pending : Option Entry
  clock : UInt64
  lease : Option Lease
deriving DecidableEq

def outlook (k : TokenId) (s : Fleet) : Outlook :=
  ⟨(s.machines 0).files .identity, (s.machines 0).files .pending, s.clock, s.table.leases.lookup k⟩

theorem holds_twoMachines {slot : Machine.Slot} (h : (twoMachines.machines i).Holds slot token) :
    (i = 0 ∧ slot = .identity ∧ token.toList = List.replicate 32 1) ∨
      (i = 0 ∧ slot = .pending ∧ token.toList = List.replicate 32 2) ∨
      (i = 1 ∧ slot = .pending ∧ token.toList = List.replicate 32 3) := by
  cases slot with
  | identity =>
    have h : twoFiles i .identity = _ := h
    simp only [twoFiles] at h
    split at h
    · exact .inl ⟨‹_›, rfl, (Entry.file.inj (Option.some.inj h)).symm⟩
    · cases h
  | pending =>
    have h : twoFiles i .pending = _ := h
    simp only [twoFiles] at h
    split at h
    · exact .inr (.inl ⟨‹_›, rfl, (Entry.file.inj (Option.some.inj h)).symm⟩)
    · split at h
      · exact .inr (.inr ⟨‹_›, rfl, (Entry.file.inj (Option.some.inj h)).symm⟩)
      · cases h
  | drawn =>
    obtain ⟨r, hr, -⟩ := h
    cases hr

theorem initial_twoMachines : Initial id sharedSecret twoMachines where
  table := rfl
  idle _ := ⟨rfl, rfl⟩
  recovery _ := rfl
  apart {i j a b x y} hx hy he := by
    have hne : ∀ {m n : UInt8}, x.toList = List.replicate 32 m → y.toList = List.replicate 32 n →
        m = n := by
      intro m n hm hn
      have hxy : x.toList = y.toList := congrArg List.Vector.toList (TokenId.mk.inj he)
      rw [hm, hn] at hxy
      exact (List.replicate_inj.mp hxy).2.resolve_left nofun
    obtain ⟨rfl, rfl, h₁⟩ | ⟨rfl, rfl, h₁⟩ | ⟨rfl, rfl, h₁⟩ := holds_twoMachines hx <;>
      obtain ⟨rfl, rfl, h₂⟩ | ⟨rfl, rfl, h₂⟩ | ⟨rfl, rfl, h₂⟩ := holds_twoMachines hy <;>
        first | exact ⟨rfl, rfl⟩ | exact absurd (hne h₁ h₂) (by decide)

/-- Machine 0 has recovered, the reply was lost, and it can rerun the recovery. -/
theorem rerun_accepted_interrupted : ∃ s : Fleet, ∃ result,
    (s.table.recoverClaim (.filled 100) (.filled 2) LeaseTable.hostIp 1002).1 = .ok result := by
  have h : (Trace.schedule (move id) (calm 0) twoMachines interrupted).map (outlook (.filled 2)) =
      some ⟨some (.file (List.replicate 32 1)), some (.file (List.replicate 32 2)), 1001,
        some ⟨10000, some LeaseTable.hostIp, [.filled 1], some (.filled 100), .grace 301001⟩⟩ := by
    decide
  obtain ⟨s, hs, ho⟩ := Option.map_eq_some_iff.mp h
  obtain ⟨hi, hp, hclock, hl⟩ := Outlook.mk.inj ho
  have hr := (Trace.Reached.of_init initial_twoMachines).schedule (fun _ _ _ => calm_step) hs
  have hle : s.clock ≤ 1002 := by rw [hclock]; decide
  have hrerun : OnFiles _ prepareRecovery _ _ :=
    rerun_accepted hr 0 (.filled 2) _ LeaseTable.hostIp 1002 hle hl rfl rfl (.inl rfl)
  obtain ⟨result, hresult⟩ :=
    prepareRecovery_reuses (.replicate 32 1) (.replicate 32 2) hi hp (by decide) hrerun
  exact ⟨s, result, hresult⟩

/-- It cannot after machine 1 has recovered the claim too: the pending token of machine 0 was the
claim's, and is retired now. -/
theorem not_rerun_accepted :
    ¬∀ (s : Fleet) (i : Nat),
      Trace.Reached (Initial id sharedSecret) (Step id sharedSecret) s →
      s.Rerunnable id sharedSecret i := by
  intro hall
  have h : (Trace.schedule (move id) (fun _ _ => true) twoMachines overtaken).map
      (fun s => (outlook (.filled 3) s,
        (s.table.recoverClaim (.filled 100) (.filled 2) LeaseTable.hostIp 1003).1.isOk)) =
      some (⟨some (.file (List.replicate 32 1)), some (.file (List.replicate 32 2)), 1002,
        some ⟨10000, some LeaseTable.hostIp, [.filled 1, .filled 2], some (.filled 100),
          .grace 301002⟩⟩, false) := by decide
  obtain ⟨s, hs, ho⟩ := Option.map_eq_some_iff.mp h
  obtain ⟨ho, hrefused⟩ := Prod.mk.inj ho
  obtain ⟨hi, hp, hclock, hl⟩ := Outlook.mk.inj ho
  have hr : Trace.Reached (Initial id sharedSecret) (Step id sharedSecret) s := by
    refine (Trace.Reached.of_init initial_twoMachines).schedule ?_ hs
    intro s m s' _ _ hm
    obtain ⟨e, he, -⟩ := move_step hm
    exact ⟨e, he⟩
  have hle : s.clock ≤ 1003 := by rw [hclock]; decide
  have hrerun : OnFiles _ prepareRecovery _ _ :=
    hall s 0 hr (.filled 3) _ LeaseTable.hostIp 1003 hle hl rfl rfl (.inl rfl)
  obtain ⟨result, hresult⟩ :=
    prepareRecovery_reuses (.replicate 32 1) (.replicate 32 2) hi hp (by decide) hrerun
  have hresult : (s.table.recoverClaim (.filled 100) (.filled 2) LeaseTable.hostIp 1003).1 = _ :=
    hresult
  rw [hresult] at hrefused
  cases hrefused

end Fleet
end GameNet
