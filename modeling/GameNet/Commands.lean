import GameNet.Identity

/-!
# GameNet.Commands

What the commands of the CLI do, whatever answers they get. `View` is what a process has sent and
received, has found in the files or put there, and got from the random generator and the user.
`installs` is the contract of the commands over it: a request names the tokens that were found in
the files; a file is created with the random token that was drawn for it; and the pending file is
renamed only after it was found to hold a token that the relay confirmed.

A view is what the process knows, not what the files hold: other processes may have changed them.
-/

namespace GameNet

structure View where
  request : Option ControlMessage
  reply : Option ControlMessage
  /-- What the process last read at the path or put there. -/
  known : Path → Option (List UInt8)
  /-- The random token that is not in a file yet. -/
  drawn : Option TunnelToken
  typed : Option String

namespace View

/-- A process that has just been started. -/
def start : View := ⟨none, none, fun _ => none, none, none⟩

def learn (v : View) (path : Path) (bytes : Option (List UInt8)) : View :=
  { v with known := Function.update v.known path bytes }

def observe (v : View) : (c : Call) → Answer c → View
  | .read path, bytes => v.learn path bytes
  | .getrandom, token => { v with drawn := some token }
  | .persistNoclobber path token, created =>
    if created then { v.learn path (some token.toList) with drawn := none }
    else { v with drawn := none }
  | .persist path token, _ => v.learn path (some token.toList)
  | .rename source target, done =>
    if done then (v.learn source none).learn target (v.known source) else v
  | .prompt, text => { v with typed := some text }
  | .send message, _ => { v with request := some message, reply := none }
  | .receive, reply => { v with reply := reply }
  | .metadata _, _ => v

/-- The process last found the token at the path, or put it there. -/
def Knows (v : View) (path : Path) (token : TunnelToken) : Prop :=
  v.known path = some token.toList

/-- The user has typed the code of the secret. -/
def Typed (v : View) (secret : TunnelToken) : Prop :=
  ∃ code, v.typed = some code ∧ parseRecoveryCode code = .ok secret

/-- The relay has confirmed the token to the process. -/
def Confirmed (v : View) (token : TunnelToken) : Prop :=
  (∃ old port, v.request = some (.rotateIdentity old token) ∧
    v.reply = some (.identityRotated port)) ∨
  (∃ secret port, v.request = some (.recoverIdentity secret token) ∧
    v.reply = some (.identityRecovered port))

/-- A token that the relay has confirmed to the process is the one it has put in `identity.bin`. -/
def Finished (v : View) : Prop := ∀ token, v.Confirmed token → v.Knows .identity token

/-- The request names what the process found. -/
def Asks (sha256 : Bytes32 → Bytes32) (v : View) : ControlMessage → Prop
  | .register _ _ token recoveryId => v.Knows .identity token ∧
    ∃ secret, v.Knows .recovery secret ∧ recoveryId = recoveryFingerprint sha256 secret
  | .rotateIdentity old new => v.Knows .identity old ∧ v.Knows .pending new
  | .recoverIdentity secret new =>
    (v.Knows .recovery secret ∨ v.Typed secret) ∧ v.Knows .pending new
  | _ => False

end View

def installs (sha256 : Bytes32 → Bytes32) : Program.Contract Call Answer View where
  allowed v
    | .send message => v.Asks sha256 message
    | .persistNoclobber path token => path = .recovery ∨ v.drawn = some token
    | .persist path token => path = .recovery ∧ v.Typed token
    | .rename source target => source = .pending ∧ target = .identity ∧
      ∃ token, v.Knows .pending token ∧ v.Confirmed token
    | _ => True
  next v c a v' := v' = v.observe c a

namespace View

variable {v v' v'' : View} {path : Path} {token secret : TunnelToken}

/-- `v'` may know more about `path` than `v`, and is otherwise the same up to `drawn`. -/
structure Reads (v : View) (path : Path) (v' : View) : Prop where
  request : v'.request = v.request
  reply : v'.reply = v.reply
  typed : v'.typed = v.typed
  known : ∀ {p}, p ≠ path → v'.known p = v.known p

theorem Reads.refl (v : View) (path : Path) : v.Reads path v := ⟨rfl, rfl, rfl, fun _ => rfl⟩

theorem Reads.trans (h : v.Reads path v') (h' : v'.Reads path v'') : v.Reads path v'' :=
  ⟨h'.request.trans h.request, h'.reply.trans h.reply, h'.typed.trans h.typed,
    fun hp => (h'.known hp).trans (h.known hp)⟩

theorem reads_learn {bytes : Option (List UInt8)} : v.Reads path (v.learn path bytes) :=
  ⟨rfl, rfl, rfl, fun hp => Function.update_of_ne hp _ _⟩

theorem knows_learn : (v.learn path (some token.toList)).Knows path token :=
  Function.update_self _ _ _

theorem Reads.confirmed (h : v.Reads path v') (hc : v.Confirmed token) : v'.Confirmed token := by
  unfold Confirmed
  rw [h.request, h.reply]
  exact hc

theorem Confirmed.unique {token' : TunnelToken} (h : v.Confirmed token)
    (h' : v.Confirmed token') : token = token' := by
  rcases h with ⟨_, _, hrequest, -⟩ | ⟨_, _, hrequest, -⟩ <;>
    rcases h' with ⟨_, _, hrequest', -⟩ | ⟨_, _, hrequest', -⟩ <;>
    cases hrequest.symm.trans hrequest'
  · rfl
  · rfl

theorem Confirmed.finished (h : v.Confirmed token) (hk : v.Knows .identity token) :
    v.Finished := by
  intro token' h'
  rw [← h.unique h']
  exact hk

theorem Reads.knows {p : Path} (h : v.Reads path v') (hp : p ≠ path) (hk : v.Knows p token) :
    v'.Knows p token := (h.known hp).trans hk

theorem Reads.isTyped (h : v.Reads path v') (ht : v.Typed secret) : v'.Typed secret := by
  unfold Typed
  rw [h.typed]
  exact ht

end View

/-! ## The commands obey the contract -/

section

variable {sha256 : Bytes32 → Bytes32} {α β : Type} {v : View} {path : Path}
  {token secret : TunnelToken} {Q : α → View → Prop}

/-- The program obeys `installs`; it ends with a result and a view that satisfy `Q`. -/
abbrev Installs (sha256 : Bytes32 → Bytes32) (p : Prog α) (Q : α → View → Prop) (v : View) : Prop :=
  p.Obeys (installs sha256) Q (fun _ _ => True) v

theorem installs_bind {p : Prog β} {f : β → Prog α}
    (h : Installs sha256 p (fun b v => Installs sha256 (f b) Q v) v) :
    Installs sha256 (p >>= f) Q v :=
  Program.obeys_bind.mpr h

theorem installs_call {c : Call} {Q : Answer c → View → Prop}
    (ha : (installs sha256).allowed v c) (h : ∀ a, Q a (v.observe c a)) :
    Installs sha256 (Program.perform c) Q v := by
  refine ⟨ha, ?_⟩
  rintro a v' rfl
  exact h a

theorem installs_readExisting {Q : TunnelToken → View → Prop}
    (h : ∀ token v', v.Reads path v' → v'.Knows path token → Q token v') :
    Installs sha256 (readExisting path) Q v := by
  refine installs_bind (installs_call trivial ?_)
  intro a
  match a with
  | none => trivial
  | some .other => trivial
  | some .regular =>
    refine installs_bind (installs_call trivial ?_)
    intro a
    cases a with
    | none => trivial
    | some bytes =>
      dsimp only
      cases ht : toToken bytes with
      | none => trivial
      | some token =>
        rw [toToken_eq_some.mp ht]
        exact h token _ View.reads_learn View.knows_learn

theorem installs_loadOrCreateAt {Q : TunnelToken → View → Prop}
    (h : ∀ token v', v.Reads path v' → v'.Knows path token → Q token v') :
    Installs sha256 (loadOrCreateAt path) Q v := by
  refine installs_bind (installs_call trivial ?_)
  intro a
  match a with
  | some _ => exact installs_readExisting h
  | none =>
    refine installs_bind (installs_call trivial ?_)
    intro token
    refine installs_bind (installs_call (.inr rfl) ?_)
    intro created
    match created with
    | true => exact h token _ ⟨rfl, rfl, rfl, View.reads_learn.known⟩ View.knows_learn
    | false =>
      refine installs_readExisting fun token v' hr hk => h token v' ?_ hk
      exact ⟨hr.request, hr.reply, hr.typed, hr.known⟩

theorem installs_readIdentity {Q : Option TunnelToken → View → Prop}
    (h : ∀ token v', v.Reads .identity v' → Q token v') : Installs sha256 readIdentity Q v := by
  refine installs_bind (installs_call trivial ?_)
  intro a
  match a with
  | some _ =>
    refine installs_bind (p := readExisting .identity) (installs_readExisting ?_)
    intro token v' hr _
    exact h (some token) v' hr
  | none => exact h none v (.refl v _)

/-- The end of both `finish`: the pending file was just read. -/
theorem installs_installPending (hk : v.Knows .pending token) (hc : v.Confirmed token) :
    Installs sha256 installPending (fun _ v => v.Finished) v := by
  refine installs_bind (installs_call ⟨rfl, rfl, token, hk, hc⟩ ?_)
  intro done
  match done with
  | true =>
    let renamed := v.observe (.rename .pending .identity) true
    have hconfirmed : renamed.Confirmed token := hc
    have hidentity : renamed.Knows .identity token := hk
    exact hconfirmed.finished hidentity
  | false => trivial

theorem installs_finish_rotation {p : PendingRotation} (hc : v.Confirmed p.newToken) :
    Installs sha256 p.finish (fun _ v => v.Finished) v := by
  refine installs_bind (installs_readExisting ?_)
  intro current v₁ h₁ _
  show Installs sha256 (if _ then _ else _) _ v₁
  split
  · trivial
  · refine installs_bind (installs_readExisting ?_)
    intro pending v₂ h₂ hk
    show Installs sha256 (if _ then _ else _) _ v₂
    split
    · trivial
    · rename_i heq
      obtain rfl := not_not.mp heq
      exact installs_installPending hk (h₂.confirmed (h₁.confirmed hc))

theorem installs_finish_recovery {p : PendingRecovery} (hc : v.Confirmed p.newToken) :
    Installs sha256 p.finish (fun _ v => v.Finished) v := by
  refine installs_bind (installs_readIdentity ?_)
  intro current v₁ h₁
  show Installs sha256 (if _ then _ else _) _ v₁
  split
  · trivial
  · refine installs_bind (installs_readExisting ?_)
    intro pending v₂ h₂ hk
    show Installs sha256 (if _ then _ else _) _ v₂
    split
    · trivial
    · rename_i heq
      obtain rfl := not_not.mp heq
      exact installs_installPending hk (h₂.confirmed (h₁.confirmed hc))

theorem installs_storeRecovery {Q : Unit → View → Prop} (ht : v.Typed secret)
    (h : ∀ v', v.Reads .recovery v' → Q () v') : Installs sha256 (storeRecovery secret) Q v := by
  refine installs_bind (installs_call (.inl rfl) ?_)
  intro created
  match created with
  | true => exact h _ ⟨rfl, rfl, rfl, View.reads_learn.known⟩
  | false =>
    refine installs_bind (installs_readExisting ?_)
    intro current v₁ h₁ _
    have hr : v.Reads .recovery v₁ := ⟨h₁.request, h₁.reply, h₁.typed, h₁.known⟩
    show Installs sha256 (if _ then _ else _) _ v₁
    split
    · exact h v₁ hr
    · refine installs_call ⟨rfl, hr.isTyped ht⟩ ?_
      intro _
      exact h _ (hr.trans View.reads_learn)

theorem installs_rotateOnConnection {p : PendingRotation} (ho : v.Knows .identity p.oldToken)
    (hn : v.Knows .pending p.newToken) :
    Installs sha256 (rotateOnConnection p) (fun _ v => v.Finished) v := by
  refine installs_bind (installs_call ⟨ho, hn⟩ ?_)
  intro _
  refine installs_bind (installs_call trivial ?_)
  intro reply
  rcases reply with _ | message
  · trivial
  · cases message with
    | identityRotated port =>
      exact installs_bind (installs_finish_rotation (.inl ⟨_, _, rfl, rfl⟩))
    | _ => trivial

theorem installs_rotateIdentity :
    Installs sha256 rotateIdentity (fun _ v => v.Finished) v := by
  refine installs_bind (installs_bind (installs_readExisting ?_))
  intro old v₁ _ ho
  refine installs_bind (installs_loadOrCreateAt ?_)
  intro new v₂ h₂ hn
  show Installs sha256 (if _ then _ else _) _ v₂
  split
  · trivial
  · exact installs_rotateOnConnection (h₂.knows nofun ho) hn

theorem installs_recoverOnConnection {p : PendingRecovery} {fromBackup : Bool}
    (hs : v.Knows .recovery secret ∨ v.Typed secret) (hb : fromBackup = true → v.Typed secret)
    (hn : v.Knows .pending p.newToken) :
    Installs sha256 (recoverOnConnection p secret fromBackup) (fun _ v => v.Finished) v := by
  refine installs_bind (installs_call ⟨hs, hn⟩ ?_)
  intro _
  refine installs_bind (installs_call trivial ?_)
  intro reply
  rcases reply with _ | message
  · trivial
  · cases message with
    | identityRecovered port =>
      cases fromBackup with
      | true =>
        refine installs_bind (p := storeRecovery secret) (installs_storeRecovery (hb rfl) ?_)
        intro v₃ h₃
        exact installs_bind (installs_finish_recovery
          (h₃.confirmed (.inr ⟨secret, port, rfl, rfl⟩)))
      | false =>
        exact installs_bind (installs_finish_recovery (.inr ⟨secret, port, rfl, rfl⟩))
    | _ => trivial

/-- A secret that was typed, or that is from `recovery.bin`. -/
def KnownSecret (v : View) (p : TunnelToken × Bool) : Prop :=
  (v.Knows .recovery p.1 ∨ v.Typed p.1) ∧ (p.2 = true → v.Typed p.1)

theorem installs_promptRecovery {Q : TunnelToken × Bool → View → Prop}
    (h : ∀ p v', KnownSecret v' p → Q p v') : Installs sha256 promptRecovery Q v := by
  refine installs_bind (installs_call trivial ?_)
  intro code
  cases hc : parseRecoveryCode code with
  | error e => trivial
  | ok secret =>
    have ht : (v.observe .prompt code).Typed secret := ⟨code, rfl, hc⟩
    exact h (secret, true) _ ⟨.inr ht, fun _ => ht⟩

theorem installs_recoverySecret {useBackupCode : Bool} {Q : TunnelToken × Bool → View → Prop}
    (h : ∀ p v', KnownSecret v' p → Q p v') : Installs sha256 (recoverySecret useBackupCode) Q v := by
  cases useBackupCode with
  | true => exact installs_promptRecovery h
  | false =>
    refine installs_bind (Program.obeys_attempt.mpr ?_)
    refine (installs_readExisting (Q := fun secret v' => v'.Knows .recovery secret) ?_).mono ?_ ?_
    · intro secret v' _ hk
      exact hk
    · intro secret v' hk
      exact h (secret, false) v' ⟨.inl hk, nofun⟩
    · intro e v' _
      cases e with
      | notFound => exact installs_promptRecovery h
      | _ => trivial

theorem installs_recoverIdentity {useBackupCode : Bool} :
    Installs sha256 (recoverIdentity useBackupCode) (fun _ v => v.Finished) v := by
  refine installs_bind (installs_recoverySecret ?_)
  rintro ⟨secret, fromBackup⟩ v₁ ⟨hs, hb⟩
  refine installs_bind (installs_bind (installs_readIdentity ?_))
  intro old v₂ h₂
  refine installs_bind (installs_loadOrCreateAt ?_)
  intro new v₃ h₃ hn
  show Installs sha256 (if _ then _ else _) _ v₃
  split
  · trivial
  · refine installs_recoverOnConnection ?_ (fun hf => h₃.isTyped (h₂.isTyped (hb hf))) hn
    rcases hs with hk | ht
    · exact .inl (h₃.knows nofun (h₂.knows nofun hk))
    · exact .inr (h₃.isTyped (h₂.isTyped ht))

theorem installs_connect {localPort : UInt16} :
    Installs sha256 (connect sha256 localPort) (fun _ v => v.Finished) v := by
  refine installs_bind (installs_loadOrCreateAt ?_)
  intro token v₁ _ hk
  refine installs_bind (installs_loadOrCreateAt ?_)
  intro secret v₂ h₂ hs
  refine installs_bind (installs_call ⟨h₂.knows nofun hk, secret, hs, rfl⟩ ?_)
  intro _
  refine installs_bind (installs_call trivial ?_)
  intro reply
  rcases reply with _ | message
  · trivial
  · cases message with
    | tunnelReady publicPort =>
      -- a registration has no token confirmed
      rintro token' (⟨_, _, hrequest, -⟩ | ⟨_, _, hrequest, -⟩) <;> cases hrequest
    | _ => trivial

end

inductive Command where
  | host (localPort : UInt16)
  | rotateIdentity
  | recoverIdentity (useBackupCode : Bool)

def Command.program (sha256 : Bytes32 → Bytes32) : Command → Prog Unit
  | .host localPort => do let _ ← connect sha256 localPort
  | .rotateIdentity => do let _ ← GameNet.rotateIdentity
  | .recoverIdentity useBackupCode => do let _ ← GameNet.recoverIdentity useBackupCode

/-- A command that returns has installed what was confirmed to it. -/
theorem Command.installs {sha256 : Bytes32 → Bytes32} (command : Command) (v : View) :
    Installs sha256 (command.program sha256) (fun _ v => v.Finished) v := by
  cases command with
  | host localPort => exact installs_bind installs_connect
  | rotateIdentity => exact installs_bind installs_rotateIdentity
  | recoverIdentity useBackupCode => exact installs_bind installs_recoverIdentity

end GameNet
