import GameNet.Credential

/-!
# GameNet.Exchange

What the commands of the CLI say on the control stream of their connection. `talks` is the contract:
a command sends the request that is its own, once, and then waits for one reply. A reply that it can
expect is its result, or what its error says; so a command never fails for a reply that it cannot
make sense of.

Most of a command is about files only. `quiet` says so of each part, and `talks_quiet` skips it.
-/

namespace GameNet

/-- The call is on the connection. -/
def Call.talks : Call → Bool
  | .send _ | .receive => true
  | _ => false

namespace IdentityError

/-- What the relay has rejected the request with. -/
def rejection : IdentityError → Option String
  | .rejectedRotation message | .rejectedRecovery message | .rejectedRegistration message =>
    some message
  | _ => none

def unexpected : IdentityError → Bool
  | .unexpectedRotation _ | .unexpectedRecovery _ | .unexpectedResponse _ => true
  | _ => false

/-- The error is not about the relay's reply. -/
def Quiet (e : IdentityError) : Prop := e.rejection = none ∧ e.unexpected = false

end IdentityError

/-! ## The commands -/

namespace Command

/-- The command with its result, as the reply that it stands for. -/
def exchange (sha256 : Bytes32 → Bytes32) : Command → Prog ControlMessage
  | .host localPort => do pure (.tunnelReady (← connect sha256 localPort))
  | .rotateIdentity => do pure (.identityRotated (← GameNet.rotateIdentity))
  | .recoverIdentity useBackupCode => do
    pure (.identityRecovered (← GameNet.recoverIdentity useBackupCode))

theorem program_eq_exchange (sha256 : Bytes32 → Bytes32) (command : Command) :
    command.program sha256 = (do let _ ← command.exchange sha256) := by
  have hassoc : ∀ {α : Type} (p : Prog α) (reply : α → ControlMessage),
      (p.bind fun _ => .pure ()) = (p.bind fun a => .pure (reply a)).bind fun _ => .pure () :=
    fun p reply => (Program.bind_assoc (p := p) (f := fun a => .pure (reply a))
      (g := fun _ => .pure ())).symm
  cases command with
  | host localPort => exact hassoc (connect sha256 localPort) .tunnelReady
  | rotateIdentity => exact hassoc GameNet.rotateIdentity .identityRotated
  | recoverIdentity useBackupCode =>
    exact hassoc (GameNet.recoverIdentity useBackupCode) .identityRecovered

/-- The message is a request of the command. -/
def Requests : Command → ControlMessage → Prop
  | .host localPort, .register protocol localPort' _ _ => protocol = .tcp ∧ localPort' = localPort
  | .rotateIdentity, .rotateIdentity _ _ => True
  | .recoverIdentity _, .recoverIdentity _ _ => True
  | _, _ => False

/-- The command can deal with the reply. -/
def Expects : Command → ControlMessage → Prop
  | .host _, .tunnelReady _ => True
  | .rotateIdentity, .identityRotated _ => True
  | .recoverIdentity _, .identityRecovered _ => True
  | _, .error _ => True
  | _, _ => False

theorem expects_error (command : Command) (text : String) : command.Expects (.error text) := by
  cases command with
  | host | rotateIdentity | recoverIdentity => trivial

/-- What is received is a reply to the command. -/
def Hears (command : Command) : (c : Call) → Answer c → Prop
  | .receive, some message => command.Expects message
  | _, _ => True

theorem hears_of_quiet {command : Command} {c : Call} (hc : c.talks = false) (answer : Answer c) :
    command.Hears c answer := by
  cases c with
  | receive => cases hc
  | _ => trivial

end Command

def talks (command : Command) : Program.Contract Call Answer View where
  allowed v
    | .send message => v.request = none ∧ command.Requests message
    | .receive => v.reply = none ∧ ∃ message, v.request = some message
    | _ => True
  next v c answer v' := v' = v.observe c answer ∧ command.Hears c answer

/-- Programs that use the files only. -/
def quiet : Program.Contract Call Answer Unit where
  allowed _ c := c.talks = false
  next _ _ _ _ := True

section

variable {α β : Type} {command : Command} {v v' : View} {path : Path} {secret : TunnelToken}

abbrev IsQuiet (p : Prog α) : Prop :=
  p.Obeys quiet (fun _ _ => True) (fun e _ => e.Quiet) ()

theorem quiet_bind {p : Prog β} {f : β → Prog α} (hp : IsQuiet p) (hf : ∀ b, IsQuiet (f b)) :
    IsQuiet (p >>= f) :=
  Program.obeys_bind.mpr (hp.mono (fun b _ _ => hf b) fun _ _ he => he)

theorem quiet_call {c : Call} (hc : c.talks = false) : IsQuiet (Program.perform c) :=
  ⟨hc, fun _ _ _ => trivial⟩

theorem quiet_readExisting : IsQuiet (readExisting path) := by
  refine quiet_bind (quiet_call rfl) fun metadata => ?_
  rcases metadata with _ | type
  · exact ⟨rfl, rfl⟩
  · cases type with
    | other => exact ⟨rfl, rfl⟩
    | regular =>
      refine quiet_bind (quiet_call rfl) fun bytes => ?_
      cases bytes with
      | none => exact ⟨rfl, rfl⟩
      | some bytes =>
        dsimp only
        cases toToken bytes with
        | none => exact ⟨rfl, rfl⟩
        | some token => trivial

theorem quiet_loadOrCreateAt : IsQuiet (loadOrCreateAt path) := by
  refine quiet_bind (quiet_call rfl) fun metadata => ?_
  cases metadata with
  | some type => exact quiet_readExisting
  | none =>
    refine quiet_bind (quiet_call rfl) fun token => quiet_bind (quiet_call rfl) fun created => ?_
    cases created with
    | true => trivial
    | false => exact quiet_readExisting

theorem quiet_readIdentity : IsQuiet readIdentity := by
  refine quiet_bind (quiet_call rfl) fun metadata => ?_
  cases metadata with
  | none => trivial
  | some type => exact quiet_bind quiet_readExisting fun _ => trivial

theorem quiet_installPending : IsQuiet installPending := by
  refine quiet_bind (quiet_call rfl) fun done => ?_
  cases done with
  | true => trivial
  | false => exact ⟨rfl, rfl⟩

theorem quiet_finish_rotation {p : PendingRotation} : IsQuiet p.finish := by
  refine quiet_bind quiet_readExisting fun current => ?_
  show IsQuiet (if _ then _ else _)
  split
  · exact ⟨rfl, rfl⟩
  · refine quiet_bind quiet_readExisting fun pending => ?_
    show IsQuiet (if _ then _ else _)
    split
    · exact ⟨rfl, rfl⟩
    · exact quiet_installPending

theorem quiet_finish_recovery {p : PendingRecovery} : IsQuiet p.finish := by
  refine quiet_bind quiet_readIdentity fun current => ?_
  show IsQuiet (if _ then _ else _)
  split
  · exact ⟨rfl, rfl⟩
  · refine quiet_bind quiet_readExisting fun pending => ?_
    show IsQuiet (if _ then _ else _)
    split
    · exact ⟨rfl, rfl⟩
    · exact quiet_installPending

theorem quiet_storeRecovery : IsQuiet (storeRecovery secret) := by
  refine quiet_bind (quiet_call rfl) fun created => ?_
  cases created with
  | true => trivial
  | false =>
    refine quiet_bind quiet_readExisting fun current => ?_
    show IsQuiet (if _ then _ else _)
    split
    · trivial
    · exact quiet_call rfl

theorem quiet_prepareRotation : IsQuiet prepareRotation := by
  refine quiet_bind quiet_readExisting fun old => quiet_bind quiet_loadOrCreateAt fun new => ?_
  show IsQuiet (if _ then _ else _)
  split
  · exact ⟨rfl, rfl⟩
  · trivial

theorem quiet_prepareRecovery : IsQuiet prepareRecovery := by
  refine quiet_bind quiet_readIdentity fun old => quiet_bind quiet_loadOrCreateAt fun new => ?_
  show IsQuiet (if _ then _ else _)
  split
  · exact ⟨rfl, rfl⟩
  · trivial

theorem parseRecoveryCode_quiet {code : String} {e : IdentityError}
    (h : parseRecoveryCode code = .error e) : e.Quiet := by
  unfold parseRecoveryCode at h
  split at h
  · cases h
    exact ⟨rfl, rfl⟩
  · cases h
    exact ⟨rfl, rfl⟩
  · cases h

theorem quiet_promptRecovery : IsQuiet promptRecovery := by
  refine quiet_bind (quiet_call rfl) fun code => ?_
  cases hc : parseRecoveryCode code with
  | error e => exact parseRecoveryCode_quiet hc
  | ok secret => trivial

theorem quiet_recoverySecret {useBackupCode : Bool} : IsQuiet (recoverySecret useBackupCode) := by
  cases useBackupCode with
  | true => exact quiet_promptRecovery
  | false =>
    refine Program.obeys_bind.mpr (Program.obeys_attempt.mpr (quiet_readExisting.mono ?_ ?_))
    · intro secret _ _
      trivial
    · intro e _ he
      cases e with
      | notFound => exact quiet_promptRecovery
      | _ => exact he

/-! ## The commands obey the contract -/

/-- The command was told what its error says. -/
def View.Blames (v : View) (e : IdentityError) : Prop :=
  e.unexpected = false ∧ ∀ message, e.rejection = some message → v.reply = some (.error message)

abbrev Talks (command : Command) (p : Prog α) (Q : α → View → Prop) (v : View) : Prop :=
  p.Obeys (talks command) Q (fun e v => v.Blames e) v

theorem talks_bind {p : Prog β} {f : β → Prog α} {Q : α → View → Prop}
    (h : Talks command p (fun b v => Talks command (f b) Q v) v) :
    Talks command (p >>= f) Q v :=
  Program.obeys_bind.mpr h

theorem View.Blames.of_quiet {e : IdentityError} (he : e.Quiet) : v.Blames e := by
  obtain ⟨hrejection, hunexpected⟩ := he
  refine ⟨hunexpected, fun message hm => ?_⟩
  cases hrejection.symm.trans hm

/-- Such a program neither sends nor receives. -/
theorem talks_quiet {p : Prog α} {Q : α → View → Prop} (hp : IsQuiet p)
    (h : ∀ a v', v'.request = v.request → v'.reply = v.reply → Q a v') :
    Talks command p Q v := by
  have hsend : ∀ {c : Call}, c.talks = false → (∀ message, c ≠ .send message) ∧ c ≠ .receive := by
    rintro c hc
    refine ⟨?_, ?_⟩
    · rintro message rfl
      cases hc
    · rintro rfl
      cases hc
  refine (hp.transfer (L := talks command)
    (R := fun _ v' => v'.request = v.request ∧ v'.reply = v.reply) ?_ ?_ ⟨rfl, rfl⟩).mono ?_ ?_
  · rintro _ v' c - hc
    cases c with
    | send message => cases hc
    | receive => cases hc
    | _ => trivial
  · rintro _ v' c answer v₁ ⟨hrequest, hreply⟩ hc ⟨rfl, -⟩
    obtain ⟨hsend, hreceive⟩ := hsend hc
    exact ⟨(), trivial, (View.observe_request hsend).trans hrequest,
      (View.observe_reply hsend hreceive).trans hreply⟩
  · rintro a v' ⟨_, -, hrequest, hreply⟩
    exact h a v' hrequest hreply
  · rintro e v' ⟨_, he, -⟩
    exact .of_quiet he

/-- The request and its reply. -/
theorem talks_exchange {message : ControlMessage} {f : Option ControlMessage → Prog α}
    {Q : α → View → Prop} (hrequest : v.request = none) (hm : command.Requests message)
    (h : ∀ reply v', v'.reply = reply → (∀ m, reply = some m → command.Expects m) →
      Talks command (f reply) Q v') :
    Talks command (sendMsg message >>= fun _ => recvMsg >>= f) Q v := by
  refine talks_bind ⟨⟨hrequest, hm⟩, ?_⟩
  rintro _ v₁ ⟨rfl, -⟩
  refine talks_bind ⟨⟨rfl, message, rfl⟩, ?_⟩
  rintro reply v₂ ⟨rfl, hhears⟩
  refine h reply _ rfl ?_
  rintro m rfl
  exact hhears

theorem talks_connect {sha256 : Bytes32 → Bytes32} {localPort : UInt16}
    (hv : v.request = none) :
    Talks (.host localPort) (connect sha256 localPort)
      (fun port v => v.reply = some (.tunnelReady port)) v := by
  refine talks_bind (talks_quiet quiet_loadOrCreateAt fun token v₁ h₁ _ => ?_)
  refine talks_bind (talks_quiet quiet_loadOrCreateAt fun secret v₂ h₂ _ => ?_)
  refine talks_exchange ((h₂.trans h₁).trans hv) ⟨rfl, rfl⟩ fun reply v₃ hreply hexpects => ?_
  rcases reply with _ | message
  · exact .of_quiet ⟨rfl, rfl⟩
  · cases message with
    | tunnelReady port => exact hreply
    | error text =>
      refine ⟨rfl, ?_⟩
      rintro _ ⟨⟩
      exact hreply
    | _ => exact (hexpects _ rfl).elim

theorem talks_rotateIdentity (hv : v.request = none) :
    Talks .rotateIdentity rotateIdentity
      (fun port v => v.reply = some (.identityRotated port)) v := by
  refine talks_bind (talks_quiet quiet_prepareRotation fun p v₁ h₁ _ => ?_)
  refine talks_exchange (h₁.trans hv) trivial fun reply v₃ hreply hexpects => ?_
  rcases reply with _ | message
  · exact .of_quiet ⟨rfl, rfl⟩
  · cases message with
    | identityRotated port =>
      exact talks_bind (talks_quiet quiet_finish_rotation fun _ v₄ _ h₄ => h₄.trans hreply)
    | error text =>
      refine ⟨rfl, ?_⟩
      rintro _ ⟨⟩
      exact hreply
    | _ => exact (hexpects _ rfl).elim

theorem talks_recoverIdentity {useBackupCode : Bool} (hv : v.request = none) :
    Talks (.recoverIdentity useBackupCode) (recoverIdentity useBackupCode)
      (fun port v => v.reply = some (.identityRecovered port)) v := by
  refine talks_bind (talks_quiet quiet_recoverySecret ?_)
  rintro ⟨secret, fromBackup⟩ v₁ h₁ -
  refine talks_bind (talks_quiet quiet_prepareRecovery fun p v₂ h₂ _ => ?_)
  refine talks_exchange ((h₂.trans h₁).trans hv) trivial fun reply v₃ hreply hexpects => ?_
  rcases reply with _ | message
  · exact .of_quiet ⟨rfl, rfl⟩
  · cases message with
    | identityRecovered port =>
      cases fromBackup with
      | true =>
        refine talks_bind (talks_quiet quiet_storeRecovery fun _ v₄ _ h₄ => ?_)
        exact talks_bind (talks_quiet quiet_finish_recovery
          fun _ v₅ _ h₅ => (h₅.trans h₄).trans hreply)
      | false =>
        exact talks_bind (talks_quiet quiet_finish_recovery fun _ v₅ _ h₅ => h₅.trans hreply)
    | error text =>
      refine ⟨rfl, ?_⟩
      rintro _ ⟨⟩
      exact hreply
    | _ => exact (hexpects _ rfl).elim

/-- The result of a command is the reply. -/
theorem Command.talks_exchange {sha256 : Bytes32 → Bytes32} (command : Command)
    (hv : v.request = none) :
    Talks command (command.exchange sha256)
      (fun reply v => v.reply = some reply ∧ ∀ message, reply ≠ .error message) v := by
  cases command with
  | host localPort =>
    exact talks_bind ((talks_connect hv).mono (fun _ _ hr => ⟨hr, nofun⟩) fun _ _ he => he)
  | rotateIdentity =>
    exact talks_bind ((talks_rotateIdentity hv).mono (fun _ _ hr => ⟨hr, nofun⟩) fun _ _ he => he)
  | recoverIdentity useBackupCode =>
    exact talks_bind ((talks_recoverIdentity hv).mono (fun _ _ hr => ⟨hr, nofun⟩) fun _ _ he => he)

end
end GameNet
