import GameNet.Commands
import GameNet.Lib.Trace

/-!
# GameNet.Machine

The computer of one host: its identity files, the one command that runs on it, the last request
that the command sent and the reply to it. A command may crash between any two calls, and a request
or a reply may be lost. The relay is not here: it takes the request and gives the reply
(`answered`).

`Sound` is the invariant: what the command knows is true of the files, because no other command
runs, and so is what the request that is on its way says. `Changes` lists what a step does to the
tokens of the machine.
-/

namespace GameNet

/-- A command that runs, up to its next call. -/
structure Running where
  program : Prog Unit
  view : View

structure Machine where
  files : Files
  running : Option Running
  /-- The last request, until the relay has processed it. -/
  inFlight : Option ControlMessage
  /-- The relay's reply, until it is received. -/
  answer : Option ControlMessage

namespace Machine

inductive Event where
  | started (command : Command)
  | called (c : Call) (answer : Answer c)
  /-- The command ends or crashes, or a call fails. -/
  | stopped
  | lost

/-- What the environment may contribute to a call: a random token is `fresh`, a code that the user
types is the one of `secret`, and what is received is the relay's reply or nothing. -/
structure Offers (fresh : TunnelToken → Prop) (secret : TunnelToken) (m : Machine) (c : Call)
    (env : Env) : Prop where
  random : c = .getrandom → fresh env.random
  text : c = .prompt → ∀ {code}, parseRecoveryCode env.text = .ok code → code = secret
  reply : c = .receive → env.reply = none ∨ env.reply = m.answer

/-- The machine after a call. A command that sends a request forgets the last one. -/
def after (m : Machine) (c : Call) (files : Files) (running : Running) : Machine :=
  { files := files
    running := some running
    inFlight :=
      match c with
      | .send message => some message
      | _ => m.inFlight
    answer :=
      match c with
      | .send _ => none
      | .receive => none
      | _ => m.answer }

inductive Step (sha256 : Bytes32 → Bytes32) (fresh : TunnelToken → Prop) (secret : TunnelToken) :
    Machine → Event → Machine → Prop where
  | start {m : Machine} {command : Command} : m.running = none →
      Step sha256 fresh secret m (.started command)
        { m with running := some ⟨command.program sha256, .start⟩, answer := none }
  | call {m : Machine} {c : Call} {k : Answer c → Prog Unit} {view : View} {env : Env}
      {answer : Answer c} {files : Files} : m.running = some ⟨.call c k, view⟩ →
      m.Offers fresh secret c env → m.files.serve env c = some (answer, files) →
      Step sha256 fresh secret m (.called c answer)
        (m.after c files ⟨k answer, view.observe c answer⟩)
  | stop {m : Machine} {running : Running} : m.running = some running →
      Step sha256 fresh secret m .stopped { m with running := none, answer := none }
  | lose {m : Machine} : Step sha256 fresh secret m .lost { m with inFlight := none }

/-- The relay has processed the request. Its reply reaches the command that sent the request, if
that one still runs and the reply is not lost. -/
def answered (m : Machine) (reply : Option ControlMessage) : Machine :=
  { m with
    inFlight := none
    answer := if m.running.any fun r => r.view.request.isSome then reply else none }

/-- The request names the tokens that are in the files. -/
def Asked (sha256 : Bytes32 → Bytes32) (secret : TunnelToken) (m : Machine) :
    ControlMessage → Prop
  | .register _ _ token recoveryId =>
    m.files.Has .identity token ∧ recoveryId = recoveryFingerprint sha256 secret
  | .rotateIdentity old new => m.files.Has .identity old ∧ m.files.Has .pending new
  | .recoverIdentity recoverySecret new => recoverySecret = secret ∧ m.files.Has .pending new
  | _ => False

structure Sound (sha256 : Bytes32 → Bytes32) (secret : TunnelToken) (m : Machine) : Prop where
  recovery : m.files.Has .recovery secret
  obeys : ∀ {r}, m.running = some r → Installs sha256 r.program (fun _ v => v.Finished) r.view
  known : ∀ {r path bytes}, m.running = some r → r.view.known path = some bytes →
    m.files path = some (.file bytes)
  typed : ∀ {r code}, m.running = some r → r.view.Typed code → code = secret
  asked : ∀ {message}, m.inFlight = some message → m.Asked sha256 secret message
  /-- A reply is a reply to the last request. -/
  replied : ∀ {r}, m.running = some r → r.view.reply.isSome ∨ m.answer.isSome → m.inFlight = none

/-- The command that runs has returned `Ok`, with this view. -/
def Returned (m : Machine) (view : View) : Prop := m.running = some ⟨.pure (), view⟩

/-- Where a machine holds a token. -/
inductive Slot where
  | identity
  | pending
  | drawn
deriving DecidableEq

def Holds (m : Machine) : Slot → TunnelToken → Prop
  | .identity, token => m.files.Has .identity token
  | .pending, token => m.files.Has .pending token
  | .drawn, token => ∃ r, m.running = some r ∧ r.view.drawn = some token

/-- What a step does to the tokens. -/
inductive Changes (fresh : TunnelToken → Prop) (m m' : Machine) : Prop where
  | quiet : m'.files = m.files → (∀ {token}, m'.Holds .drawn token → m.Holds .drawn token) →
      Changes fresh m m'
  | drew {token : TunnelToken} : fresh token → m'.files = m.files →
      (∀ {token'}, m'.Holds .drawn token' → token' = token) → Changes fresh m m'
  | created {path : Path} {token : TunnelToken} : path ≠ .recovery → m.files path = none →
      m.Holds .drawn token → m'.files = m.files.set path (some (.file token.toList)) →
      (∀ {token'}, ¬m'.Holds .drawn token') → Changes fresh m m'
  | renamed {r : Running} {token : TunnelToken} : m.running = some r → r.view.Confirmed token →
      m.Holds .pending token →
      m'.files = (m.files.set .pending none).set .identity (some (.file token.toList)) →
      (∀ {token'}, m'.Holds .drawn token' → m.Holds .drawn token') → Changes fresh m m'

variable {sha256 : Bytes32 → Bytes32} {fresh : TunnelToken → Prop} {secret token : TunnelToken}
  {m m' : Machine} {e : Event} {view : View} {files files' : Files} {env : Env} {path : Path}

/-! ## One call -/

/-- A file that is there stays, but for the rename of the pending file and for a secret that was
typed. -/
theorem serve_file {c : Call} {answer : Answer c} {entry : Entry}
    (ha : (installs sha256).allowed view c) (hs : files.serve env c = some (answer, files'))
    (hc : c = .rename .pending .identity → path = .recovery) (h : files path = some entry) :
    files' path = some entry ∨
      (path = .recovery ∧ ∃ code, view.Typed code ∧ files'.Has .recovery code) := by
  cases c with
  | persistNoclobber target token' =>
    simp only [Files.serve] at hs
    split at hs
    · rename_i hnone
      cases hs
      have hne : path ≠ target := by
        intro he
        rw [← he, h] at hnone
        cases hnone
      exact .inl ((if_neg hne).trans h)
    · cases hs
      exact .inl h
  | persist target token' =>
    obtain ⟨rfl, htyped⟩ := ha
    cases hs
    by_cases hp : path = .recovery
    · exact .inr ⟨hp, token', htyped, if_pos rfl⟩
    · exact .inl ((if_neg hp).trans h)
  | rename source target =>
    obtain ⟨rfl, rfl, -⟩ := ha
    obtain rfl := hc rfl
    simp only [Files.serve] at hs
    split at hs
    · cases hs
      exact .inl h
    · cases hs
      exact .inl h
  | read target =>
    simp only [Files.serve] at hs
    split at hs
    · cases hs; exact .inl h
    · cases hs; exact .inl h
    · cases hs
  | _ =>
    cases hs
    exact .inl h

theorem serve_has {c : Call} {answer : Answer c} (ha : (installs sha256).allowed view c)
    (hs : files.serve env c = some (answer, files')) (hc : c ≠ .rename .pending .identity)
    (hp : path ≠ .recovery) (h : files.Has path token) : files'.Has path token := by
  rcases serve_file ha hs (fun he => absurd he hc) h with h | ⟨he, -⟩
  · exact h
  · exact absurd he hp

theorem serve_recovery {c : Call} {answer : Answer c} (ha : (installs sha256).allowed view c)
    (hs : files.serve env c = some (answer, files'))
    (ht : ∀ {code}, view.Typed code → code = secret) (h : files.Has .recovery secret) :
    files'.Has .recovery secret := by
  rcases serve_file ha hs (fun _ => rfl) h with h | ⟨-, code, htyped, h⟩
  · exact h
  · rw [← ht htyped]
    exact h

/-- What the command learns from a call is true of the files that the call leaves. -/
theorem serve_known {c : Call} {answer : Answer c} (ha : (installs sha256).allowed view c)
    (hs : files.serve env c = some (answer, files'))
    (h : ∀ {path bytes}, view.known path = some bytes → files path = some (.file bytes))
    {bytes : List UInt8} (hb : (view.observe c answer).known path = some bytes) :
    files' path = some (.file bytes) := by
  cases c with
  | read target =>
    simp only [View.observe, View.learn, Function.update_apply] at hb
    simp only [Files.serve] at hs
    split at hs
    · rename_i hf
      cases hs
      split at hb
      · cases hb
      · exact h hb
    · rename_i hf
      cases hs
      split at hb
      · rename_i hp
        cases hb
        rw [hp]
        exact hf
      · exact h hb
    · cases hs
  | persistNoclobber target token' =>
    simp only [Files.serve] at hs
    split at hs
    · cases hs
      simp only [View.observe, View.learn, Function.update_apply, if_true] at hb
      split at hb
      · rename_i hp
        cases hb
        exact if_pos hp
      · rename_i hp
        exact (if_neg hp).trans (h hb)
    · cases hs
      exact h hb
  | persist target token' =>
    cases hs
    simp only [View.observe, View.learn, Function.update_apply] at hb
    split at hb
    · rename_i hp
      cases hb
      exact if_pos hp
    · rename_i hp
      exact (if_neg hp).trans (h hb)
  | rename source target =>
    obtain ⟨rfl, rfl, token, hk, -⟩ := ha
    have hf := h hk
    simp only [Files.serve, hf] at hs
    cases hs
    simp only [View.observe, View.learn, if_true, Function.update_apply] at hb
    cases path with
    | identity =>
      simp only [if_true] at hb
      rw [hk] at hb
      cases hb
      rfl
    | pending => cases hb
    | recovery => exact h hb
  | _ =>
    cases hs
    exact h hb

theorem serve_typed {c : Call} {answer : Answer c} {code : TunnelToken}
    (hs : files.serve env c = some (answer, files'))
    (h : (view.observe c answer).Typed code) :
    view.Typed code ∨ (c = .prompt ∧ parseRecoveryCode env.text = .ok code) := by
  obtain ⟨text, htext, hcode⟩ := h
  cases c with
  | prompt =>
    cases hs
    cases htext
    exact .inr ⟨rfl, hcode⟩
  | persistNoclobber target token' =>
    refine .inl ⟨text, ?_, hcode⟩
    simp only [View.observe] at htext
    split at htext
    · exact htext
    · exact htext
  | rename source target =>
    refine .inl ⟨text, ?_, hcode⟩
    simp only [View.observe] at htext
    split at htext
    · exact htext
    · exact htext
  | _ => exact .inl ⟨text, htext, hcode⟩

/-- A reply that the command has comes from the machine's mailbox. -/
theorem serve_reply {c : Call} {answer : Answer c} (ho : m.Offers fresh secret c env)
    (hs : files.serve env c = some (answer, files'))
    (h : (view.observe c answer).reply.isSome) :
    (∀ message, c ≠ .send message) ∧ (view.reply.isSome ∨ m.answer.isSome) := by
  cases c with
  | send message => cases h
  | receive =>
    cases hs
    refine ⟨nofun, .inr ?_⟩
    rcases ho.reply rfl with hn | ha
    · simp only [View.observe, hn] at h
      cases h
    · rw [← ha]
      exact h
  | persistNoclobber target token' =>
    refine ⟨nofun, .inl ?_⟩
    simp only [View.observe] at h
    split at h
    · exact h
    · exact h
  | rename source target =>
    refine ⟨nofun, .inl ?_⟩
    simp only [View.observe] at h
    split at h
    · exact h
    · exact h
  | _ => exact ⟨nofun, .inl h⟩

/-! ## The invariant -/

theorem Asked.keep {message : ControlMessage} (h : m.Asked sha256 secret message)
    (hf : ∀ {path token}, path ≠ .recovery → m.files.Has path token → m'.files.Has path token) :
    m'.Asked sha256 secret message := by
  cases message with
  | register protocol localPort token recoveryId => exact ⟨hf nofun h.1, h.2⟩
  | rotateIdentity old new => exact ⟨hf nofun h.1, hf nofun h.2⟩
  | recoverIdentity recoverySecret new => exact ⟨h.1, hf nofun h.2⟩
  | _ => exact h

theorem toList_injective {token token' : TunnelToken} (h : token.toList = token'.toList) :
    token = token' := List.Vector.eq _ _ h

theorem Sound.knows {r : Running} (h : m.Sound sha256 secret) (hr : m.running = some r)
    (hk : r.view.Knows path token) : m.files.Has path token := h.known hr hk

/-- A command that has returned has put in place what was confirmed to it. -/
theorem Sound.returned (h : m.Sound sha256 secret) (hr : m.Returned view)
    (hc : view.Confirmed token) : m.files.Has .identity token := by
  have hfinished : view.Finished := h.obeys hr
  exact h.knows hr (hfinished token hc)

/-- The command knows what its request names. -/
theorem Sound.asks {r : Running} {message : ControlMessage} (h : m.Sound sha256 secret)
    (hr : m.running = some r) (ha : r.view.Asks sha256 message) :
    m.Asked sha256 secret message := by
  have hsecret : ∀ {code}, r.view.Knows .recovery code → code = secret := by
    intro code hk
    have hf := h.knows hr hk
    rw [Files.Has, h.recovery] at hf
    exact toList_injective (Entry.file.inj (Option.some.inj hf)).symm
  cases message with
  | register protocol localPort token recoveryId =>
    obtain ⟨hk, code, hcode, rfl⟩ := ha
    rw [hsecret hcode]
    exact ⟨h.knows hr hk, rfl⟩
  | rotateIdentity old new => exact ⟨h.knows hr ha.1, h.knows hr ha.2⟩
  | recoverIdentity recoverySecret new =>
    refine ⟨?_, h.knows hr ha.2⟩
    rcases ha.1 with hk | ht
    · exact hsecret hk
    · exact h.typed hr ht
  | _ => exact ha

theorem Sound.call {c : Call} {k : Answer c → Prog Unit} {answer : Answer c}
    (h : m.Sound sha256 secret) (hr : m.running = some ⟨.call c k, view⟩)
    (ho : m.Offers fresh secret c env) (hs : m.files.serve env c = some (answer, files)) :
    (m.after c files ⟨k answer, view.observe c answer⟩).Sound sha256 secret := by
  have ha : (installs sha256).allowed view c := (h.obeys hr).1
  constructor
  · exact serve_recovery ha hs (h.typed hr) h.recovery
  · intro r hr'
    cases hr'
    exact (h.obeys hr).answer rfl
  · intro r path bytes hr'
    cases hr'
    exact serve_known ha hs (h.known hr)
  · intro r code hr' ht
    cases hr'
    rcases serve_typed hs ht with ht | ⟨hc, hcode⟩
    · exact h.typed hr ht
    · exact ho.text hc hcode
  · intro message hm
    by_cases hc : c = .rename .pending .identity
    · -- a rename follows a reply, so no request is on its way
      subst hc
      obtain ⟨-, -, token, -, hconfirmed⟩ := ha
      have hreply : view.reply.isSome := by
        rcases hconfirmed with ⟨_, _, -, hreply⟩ | ⟨_, _, -, hreply⟩ <;> simp [hreply]
      have hnone := h.replied hr (.inl hreply)
      simp only [after, hnone] at hm
      cases hm
    · have hkeep : ∀ {path token}, path ≠ .recovery → m.files.Has path token →
          files.Has path token := fun hp hh => serve_has ha hs hc hp hh
      cases c with
      | send message' =>
        cases hm
        exact (h.asks hr ha).keep hkeep
      | _ => exact (h.asked hm).keep hkeep
  · intro r hr' hreply
    cases hr'
    rcases hreply with hreply | hanswer
    · obtain ⟨hc, hreply⟩ := serve_reply ho hs hreply
      have hnone := h.replied hr hreply
      cases c with
      | send message => exact absurd rfl (hc message)
      | _ => exact hnone
    · cases c with
      | send message => cases hanswer
      | receive => cases hanswer
      | _ => exact h.replied hr (.inr hanswer)

theorem Sound.step (h : m.Sound sha256 secret) (hs : Step sha256 fresh secret m e m') :
    m'.Sound sha256 secret := by
  cases hs with
  | @start command hr =>
    refine ⟨h.recovery, ?_, ?_, ?_, h.asked, ?_⟩
    · intro r hr
      cases hr
      exact command.installs _
    · intro r path bytes hr hb
      cases hr
      cases hb
    · rintro r code hr ⟨text, ht, -⟩
      cases hr
      cases ht
    · intro r hr hreply
      cases hr
      rcases hreply with hreply | hreply <;> cases hreply
  | call hr ho hs => exact h.call hr ho hs
  | stop hr => exact ⟨h.recovery, nofun, nofun, nofun, h.asked, nofun⟩
  | lose => exact ⟨h.recovery, h.obeys, h.known, h.typed, nofun, fun _ _ => rfl⟩

theorem Sound.answered {reply : Option ControlMessage} (h : m.Sound sha256 secret) :
    (m.answered reply).Sound sha256 secret :=
  ⟨h.recovery, h.obeys, h.known, h.typed, nofun, fun _ _ => rfl⟩

/-! ## The tokens -/

theorem Changes.of_call {c : Call} {k : Answer c → Prog Unit} {answer : Answer c}
    (h : m.Sound sha256 secret) (hr : m.running = some ⟨.call c k, view⟩)
    (ho : m.Offers fresh secret c env) (hs : m.files.serve env c = some (answer, files)) :
    Changes fresh m (m.after c files ⟨k answer, view.observe c answer⟩) := by
  have ha : (installs sha256).allowed view c := (h.obeys hr).1
  -- a call that leaves the view's token alone
  have keep : ∀ {v : View} {token}, v.drawn = view.drawn →
      (m.after c files ⟨k answer, v⟩).Holds .drawn token → m.Holds .drawn token := by
    rintro v token hv ⟨r, hr', hd⟩
    cases hr'
    exact ⟨_, hr, hv ▸ hd⟩
  cases c with
  | metadata path =>
    cases hs
    exact .quiet rfl (keep rfl)
  | read path =>
    simp only [Files.serve] at hs
    split at hs
    · cases hs
      exact .quiet rfl (keep rfl)
    · cases hs
      exact .quiet rfl (keep rfl)
    · cases hs
  | getrandom =>
    cases hs
    refine .drew (ho.random rfl) rfl ?_
    rintro token' ⟨r, hr', hd⟩
    cases hr'
    exact (Option.some.inj hd).symm
  | persistNoclobber path token =>
    simp only [Files.serve] at hs
    split at hs
    · rename_i hnone
      cases hs
      rcases ha with rfl | hd
      · rw [h.recovery] at hnone
        cases hnone
      · refine .created ?_ hnone ⟨_, hr, hd⟩ rfl ?_
        · rintro rfl
          rw [h.recovery] at hnone
          cases hnone
        · rintro token' ⟨r, hr', hd'⟩
          cases hr'
          cases hd'
    · cases hs
      refine .quiet rfl ?_
      rintro token' ⟨r, hr', hd'⟩
      cases hr'
      cases hd'
  | persist path token =>
    obtain ⟨rfl, htyped⟩ := ha
    cases hs
    refine .quiet ?_ (keep rfl)
    -- the secret that is written is the one that is there
    funext path
    show (if path = .recovery then _ else _) = _
    split
    · rename_i hp
      rw [hp, h.typed hr htyped, h.recovery]
    · rfl
  | rename source target =>
    obtain ⟨rfl, rfl, token, hk, hconfirmed⟩ := ha
    have hf := h.knows hr hk
    simp only [Files.serve] at hs
    rw [show m.files .pending = _ from hf] at hs
    cases hs
    exact .renamed hr hconfirmed hf rfl (keep rfl)
  | prompt =>
    cases hs
    exact .quiet rfl (keep rfl)
  | send message =>
    cases hs
    exact .quiet rfl (keep rfl)
  | receive =>
    cases hs
    exact .quiet rfl (keep rfl)

theorem Sound.changes (h : m.Sound sha256 secret) (hs : Step sha256 fresh secret m e m') :
    Changes fresh m m' := by
  cases hs with
  | start hr =>
    refine .quiet rfl ?_
    rintro token ⟨r, hr', hd⟩
    cases hr'
    cases hd
  | call hr ho hs => exact .of_call h hr ho hs
  | stop hr =>
    refine .quiet rfl ?_
    rintro token ⟨r, hr', hd⟩
    cases hr'
  | lose => exact .quiet rfl id

/-! ## Where a token comes from -/

/-- A token of `m'` that is not new was in the slot `before` of `m`. Tokens go from `drawn` to
`pending` and from both to `identity`, and no two of them to one slot. -/
structure Comes (fresh : TunnelToken → Prop) (m m' : Machine) (before : Slot → Slot) : Prop where
  origin : ∀ {slot token}, m'.Holds slot token →
    (slot = .drawn ∧ fresh token) ∨ m.Holds (before slot) token
  injective : ∀ {a b x y}, m'.Holds a x → m'.Holds b y → before a = before b → a = b
  identity : ∀ {slot}, before slot = .identity → slot = .identity
  drawn : before .drawn = .drawn

theorem Holds.unique {slot : Slot} {token' : TunnelToken} (h : m.Holds slot token)
    (h' : m.Holds slot token') : token = token' := by
  cases slot with
  | identity => exact toList_injective (Entry.file.inj (Option.some.inj (h.symm.trans h')))
  | pending => exact toList_injective (Entry.file.inj (Option.some.inj (h.symm.trans h')))
  | drawn =>
    obtain ⟨r, hr, hd⟩ := h
    obtain ⟨r', hr', hd'⟩ := h'
    rw [hr] at hr'
    cases hr'
    exact Option.some.inj (hd.symm.trans hd')

/-- The files hold what they held. -/
theorem Holds.of_files {slot : Slot} (hf : m'.files = m.files) (hne : slot ≠ .drawn)
    (h : m'.Holds slot token) : m.Holds slot token := by
  cases slot with
  | drawn => exact absurd rfl hne
  | _ =>
    simp only [Holds, Files.Has, hf] at h
    exact h

/-- One token goes from `source` to `target`, where it may take the place of another. -/
theorem Comes.of_move (source target : Slot) (hs : source ≠ .identity) (ht : target ≠ .drawn)
    (hgone : ∀ {token}, ¬m'.Holds source token)
    (hmoved : ∀ {token}, m'.Holds target token → m.Holds source token)
    (hkept : ∀ {slot token}, slot ≠ target → m'.Holds slot token → m.Holds slot token) :
    Comes fresh m m' fun slot => if slot = target then source else slot := by
  constructor
  · intro slot token hh
    refine .inr ?_
    split
    · rename_i hslot
      exact hmoved (hslot ▸ hh)
    · exact hkept ‹_› hh
  · intro a b x y ha hb he
    split at he
    · split at he
      · rw [‹a = target›, ‹b = target›]
      · exact absurd (he ▸ hb) hgone
    · split at he
      · exact absurd (he ▸ ha) hgone
      · exact he
  · intro slot he
    split at he
    · exact absurd he hs
    · exact he
  · exact if_neg ht.symm

theorem Changes.comes (h : Changes fresh m m') : ∃ before, Comes fresh m m' before := by
  cases h with
  | quiet hf hd =>
    refine ⟨id, fun {slot token} hs => .inr ?_, fun _ _ he => he, id, rfl⟩
    by_cases hslot : slot = .drawn
    · subst hslot
      exact hd hs
    · exact hs.of_files hf hslot
  | drew hfresh hf hd =>
    refine ⟨id, fun {slot token} hs => ?_, fun _ _ he => he, id, rfl⟩
    by_cases hslot : slot = .drawn
    · subst hslot
      rw [hd hs]
      exact .inl ⟨rfl, hfresh⟩
    · exact .inr (hs.of_files hf hslot)
  | @created path token hp _ hdrawn hf hno =>
    -- the file that is created, and the one that is not
    have hnew : ∀ {token'}, m'.files.Has path token' → m.Holds .drawn token' := by
      intro token' hh
      rw [Files.Has, hf, Files.set, if_pos rfl] at hh
      rw [toList_injective (Entry.file.inj (Option.some.inj hh.symm))]
      exact hdrawn
    have hold : ∀ {p token'}, p ≠ path → m'.files.Has p token' → m.files.Has p token' := by
      intro p token' hne hh
      rw [Files.Has, hf, Files.set, if_neg hne] at hh
      exact hh
    cases path with
    | recovery => exact absurd rfl hp
    | identity =>
      refine ⟨_, .of_move .drawn .identity nofun nofun hno hnew ?_⟩
      intro slot token' hslot hh
      cases slot with
      | identity => exact absurd rfl hslot
      | pending => exact hold nofun hh
      | drawn => exact absurd hh hno
    | pending =>
      refine ⟨_, .of_move .drawn .pending nofun nofun hno hnew ?_⟩
      intro slot token' hslot hh
      cases slot with
      | identity => exact hold nofun hh
      | pending => exact absurd rfl hslot
      | drawn => exact absurd hh hno
  | @renamed r token _ _ hpending hf hd =>
    have hgone : ∀ {token'}, ¬m'.Holds .pending token' := by
      intro token' hh
      simp only [Holds, Files.Has, hf] at hh
      cases hh
    refine ⟨_, .of_move .pending .identity nofun nofun hgone ?_ ?_⟩
    · intro token' hh
      simp only [Holds, Files.Has, hf] at hh
      rw [toList_injective (Entry.file.inj (Option.some.inj hh.symm))]
      exact hpending
    · intro slot token' hslot hh
      cases slot with
      | identity => exact absurd rfl hslot
      | pending => exact absurd hh hgone
      | drawn => exact hd hh

/-- The tokens of a machine have different fingerprints. -/
def Apart (sha256 : Bytes32 → Bytes32) (m : Machine) : Prop :=
  ∀ {a b x y}, m.Holds a x → m.Holds b y →
    TokenId.fromToken sha256 x = .fromToken sha256 y → a = b

theorem Comes.apart {before : Slot → Slot} (h : Comes fresh m m' before) (ha : m.Apart sha256)
    (hf : ∀ {x slot y}, fresh x → m.Holds slot y →
      TokenId.fromToken sha256 x ≠ .fromToken sha256 y) : m'.Apart sha256 := by
  intro a b x y hx hy he
  rcases h.origin hx with ⟨rfl, hfresh⟩ | hx'
  · rcases h.origin hy with ⟨rfl, -⟩ | hy'
    · rfl
    · exact absurd he (hf hfresh hy')
  · rcases h.origin hy with ⟨-, hfresh⟩ | hy'
    · exact absurd he.symm (hf hfresh hx')
    · exact h.injective hx hy (ha hx' hy' he)

/-! ## Schedules -/

/-- The next call of the command that runs. It draws no token, the user types nothing, and what is
received is the relay's reply. -/
def proceed (m : Machine) : Option Machine :=
  match m.running with
  | some ⟨.call c k, view⟩ =>
    if c = .getrandom ∨ c = .prompt then none
    else
      match m.files.serve ⟨.replicate 32 0, "", m.answer⟩ c with
      | none => none
      | some (answer, files) => some (m.after c files ⟨k answer, view.observe c answer⟩)
  | _ => none

theorem proceed_step (h : m.proceed = some m') : ∃ e, Step sha256 fresh secret m e m' := by
  simp only [proceed] at h
  split at h
  · rename_i hr
    split at h
    · cases h
    · rename_i hc
      obtain ⟨hrandom, hprompt⟩ := not_or.mp hc
      split at h
      · cases h
      · rename_i hs
        cases h
        have ho : m.Offers fresh secret _ ⟨.replicate 32 0, "", m.answer⟩ :=
          ⟨fun he => absurd he hrandom, fun he => absurd he hprompt, fun _ => .inr rfl⟩
        exact ⟨_, .call hr ho hs⟩
  · cases h

end Machine
end GameNet
