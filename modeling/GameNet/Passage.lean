import GameNet.Bridge

/-!
# GameNet.Passage

A player's connection from end to end: the player, the relay's bridge (`bridge_tcp_to_quic`), a QUIC
stream, the agent's bridge (`bridge_to_local` of `crates/cli/src/bridge.rs`) and the game server.
The two bridges are one function on either side of the stream, so a side stands for both, and each
direction goes through two of their four halves.

TCP and QUIC deliver in order and without loss: a read returns what comes next of what the other end
has written, and the end of the stream when that end has shut it down. A QUIC stream that is dropped
is finished too, which is how a side learns that the other bridge is over, and a TCP connection whose
writing half is dropped is shut down (`seen`); a connection that is lost is a failure of a read or a
write.

`Fits` says what a half has read of its source. With `CopyHalf.Sound` it makes the whole a chain of
prefixes.
-/

namespace GameNet

namespace CopyHalf

variable {h h' : CopyHalf} {e : Event}

theorem Step.reader (hs : Step h e h') : h'.reader = h.reader ∨
    ∃ bytes, e = .read bytes ∧ h'.reader = ⟨h.reader.read ++ bytes, bytes.isEmpty⟩ := by
  cases hs with
  | read bytes => exact .inr ⟨bytes, rfl, rfl⟩
  | wrote | copied | shutDown => exact .inl rfl

/-- A half that is done makes no step, and what is written stays. -/
theorem Step.writer (hs : Step h e h') :
    h.phase ≠ .done ∧ h.writer.written <+: h'.writer.written := by
  cases hs with
  | read _ hp | copied hp | shutDown hp =>
    rw [hp]
    exact ⟨nofun, List.prefix_rfl⟩
  | wrote hp =>
    rw [hp]
    exact ⟨nofun, List.prefix_append _ _⟩

/-- How far the half is from its end, bytes apart. -/
def rank (h : CopyHalf) : Nat :=
  (if h.reader.ended then 0 else 1) +
    match h.phase with
    | .copying => 2
    | .shuttingDown => 1
    | .done => 0

/-- A step takes bytes in, or gives bytes out, or is nearer to the end. -/
theorem Step.progress (hs : Step h e h') : ∃ n m,
    h'.reader.read.length = h.reader.read.length + n ∧
    h'.writer.written.length = h.writer.written.length + m ∧
    h'.buffer.length + m = h.buffer.length + n ∧ h'.rank ≤ h.rank ∧
    (0 < n ∨ 0 < m ∨ h'.rank < h.rank) := by
  cases hs with
  | read bytes hp he =>
    refine ⟨bytes.length, 0, List.length_append, rfl, List.length_append, ?_⟩
    cases bytes with
    | nil => simp [rank, fill, he]
    | cons b bytes => simp [rank, fill, he]
  | @wrote n hp hpos hn =>
    refine ⟨0, n, rfl, ?_, ?_, Nat.le_refl _, .inr (.inl hpos)⟩
    · simp only [drain, List.length_append, List.length_take]
      omega
    · simp only [drain, List.length_drop]
      omega
  | copied hp he hb =>
    refine ⟨0, 0, rfl, rfl, rfl, ?_⟩
    simp [rank, hp]
  | shutDown hp =>
    refine ⟨0, 0, rfl, rfl, rfl, ?_⟩
    simp [rank, hp]

end CopyHalf

/-- `bridge_to_local`, once it is connected to the game server. -/
def bridgeToLocal (tcp : Reader × Writer) (quicSend : Writer) (quicRecv : Reader) :
    Direction → CopyHalf :=
  copyHalves tcp.1 tcp.2 quicRecv quicSend

/-! ## What there is to read -/

/-- What the other end of a stream has written to it. -/
structure Source where
  bytes : List UInt8
  ended : Bool

namespace Source

/-- A read may return the bytes. -/
def Gives (src : Source) (r : Reader) (bytes : List UInt8) : Prop :=
  r.read ++ bytes <+: src.bytes ∧ (bytes = [] → src.ended = true ∧ r.read = src.bytes)

/-- The reader has read a part of it, and its end only after all of it. -/
structure Fits (src : Source) (r : Reader) : Prop where
  isPrefix : r.read <+: src.bytes
  complete : r.ended = true → src.ended = true ∧ r.read = src.bytes

/-- More is written, unless it had ended. -/
structure Grows (src src' : Source) : Prop where
  isPrefix : src.bytes <+: src'.bytes
  ended : src.ended = true → src'.ended = true ∧ src'.bytes = src.bytes

variable {src src' : Source} {r : Reader} {bytes : List UInt8}

theorem Grows.refl (src : Source) : src.Grows src := ⟨List.prefix_rfl, fun h => ⟨h, rfl⟩⟩

theorem Fits.grows (h : src.Fits r) (hg : src.Grows src') : src'.Fits r where
  isPrefix := h.isPrefix.trans hg.isPrefix
  complete he := by
    obtain ⟨hended, hall⟩ := h.complete he
    obtain ⟨hended', hsame⟩ := hg.ended hended
    exact ⟨hended', hall.trans hsame.symm⟩

theorem Gives.fits (h : src.Gives r bytes) : src.Fits ⟨r.read ++ bytes, bytes.isEmpty⟩ where
  isPrefix := h.1
  complete he := by
    obtain rfl := List.isEmpty_iff.mp he
    rw [List.append_nil]
    exact h.2 rfl

/-- A reader that has not ended can read on, when the source has. -/
theorem Fits.gives (h : src.Fits r) (he : src.ended = true) : ∃ bytes, src.Gives r bytes := by
  obtain ⟨bytes, hb⟩ := h.isPrefix
  refine ⟨bytes, ?_, fun hnil => ⟨he, ?_⟩⟩
  · rw [hb]
  · rw [← hb, hnil, List.append_nil]

end Source

/-! ## Both bridges -/

/-- The relay with the player, or the agent with the game server. -/
inductive Side where
  | relay
  | agent
deriving DecidableEq

def Side.other : Side → Side
  | .relay => .agent
  | .agent => .relay

@[simp] theorem Side.other_other (x : Side) : x.other.other = x := by cases x <;> rfl

theorem Side.other_ne (x : Side) : x.other ≠ x := by cases x <;> nofun

/-- The other end of a side's TCP connection. -/
structure Peer where
  sent : List UInt8
  closed : Bool

structure Passage (E : Type) where
  bridges : Side → Bridge E
  peers : Side → Peer

namespace Passage

variable {E : Type}

def half (p : Passage E) (x : Side) (d : Direction) : CopyHalf := (p.bridges x).parts d

/-- What a half reads from: its side's peer, or what the other side writes to the stream. -/
def source (p : Passage E) (x : Side) : Direction → Source
  | .toQuic => ⟨(p.peers x).sent, (p.peers x).closed⟩
  | .toTcp =>
    let writer := (p.half x.other .toQuic).writer
    ⟨writer.written, writer.shutDown || (p.bridges x.other).status.over⟩

/-- What reaches the peer of a side. It sees the end when the bridge shuts the connection down, and
when the bridge is over, which drops the writing half. -/
def seen (p : Passage E) (x : Side) : Source :=
  let writer := (p.half x .toTcp).writer
  ⟨writer.written, writer.shutDown || (p.bridges x).status.over⟩

inductive Event (E : Type) where
  | sent (x : Side) (bytes : List UInt8)
  | closed (x : Side)
  | bridge (x : Side) (e : Bridge.Event E)

inductive Step : Passage E → Event E → Passage E → Prop where
  | sent {p : Passage E} {x : Side} (bytes : List UInt8) (h : (p.peers x).closed = false) :
      Step p (.sent x bytes)
        { p with peers := Function.update p.peers x ⟨(p.peers x).sent ++ bytes, false⟩ }
  | closed {p : Passage E} {x : Side} (h : (p.peers x).closed = false) :
      Step p (.closed x) { p with peers := Function.update p.peers x ⟨(p.peers x).sent, true⟩ }
  | bridge {p : Passage E} {x : Side} {e : Bridge.Event E} {b : Bridge E}
      (h : Bridge.Step (p.bridges x) e b)
      (hread : ∀ d bytes, e = .step d (.read bytes) →
        (p.source x d).Gives (p.half x d).reader bytes) :
      Step p (.bridge x e) { p with bridges := Function.update p.bridges x b }

/-- The player's connection is accepted, and the agent has connected to the game server. -/
def initial : Passage E where
  bridges
    | .relay => .start (bridgeTcpToQuic (.new, .new) .new .new)
    | .agent => .start (bridgeToLocal (.new, .new) .new .new)
  peers _ := ⟨[], false⟩

abbrev Reachable : Passage E → Prop := Trace.Reached (· = initial) Step

/-- The event is a step of the copying towards the peer of `x`. -/
def Event.toward (x : Side) : Event E → Bool
  | .bridge y (.step .toQuic _) => y = x.other
  | .bridge y (.step .toTcp _) => y = x
  | _ => false

/-- The bridge returned an error, or was dropped. -/
def Failed (p : Passage E) (x : Side) : Prop :=
  (p.bridges x).status.over = true ∧ (p.bridges x).status ≠ .ok

/-- The work left in the copying towards the peer of `x`: every byte has four moves to make. -/
def remaining (p : Passage E) (x : Side) : Nat :=
  let first := p.half x.other .toQuic
  let second := p.half x .toTcp
  4 * ((p.peers x.other).sent.length - first.reader.read.length) + 3 * first.buffer.length +
    first.rank + 2 * (first.writer.written.length - second.reader.read.length) +
    second.buffer.length + second.rank

variable {p p' : Passage E} {e : Event E} {es : List (Event E)} {x y : Side} {d : Direction}

/-- A half changes at its own steps only, and reads what there is. -/
theorem Step.half (hs : Step p e p') (x : Side) (d : Direction) : p'.half x d = p.half x d ∨
    ∃ e', e = .bridge x (.step d e') ∧ CopyHalf.Step (p.half x d) e' (p'.half x d) ∧
      ∀ bytes, e' = .read bytes → (p.source x d).Gives (p.half x d).reader bytes := by
  cases hs with
  | sent | closed => exact .inl rfl
  | @bridge y e b h hread =>
    by_cases hxy : x = y
    · subst hxy
      have hb : (Function.update p.bridges x b) x = b := Function.update_self ..
      simp only [Passage.half, hb]
      rcases h.part d with hsame | ⟨e', rfl, hstep⟩
      · exact .inl hsame
      · exact .inr ⟨e', rfl, hstep, fun bytes hbytes => hread d bytes (by rw [hbytes])⟩
    · have hb : (Function.update p.bridges y b) x = p.bridges x := Function.update_of_ne hxy ..
      exact .inl (by simp only [Passage.half, hb])

/-- The state of both bridges in any run: each one's is that of a run of its own, and each half fits
what it reads from. -/
structure Sound (p : Passage E) : Prop where
  bridge : ∀ x, Trace.Reached (· = .start (copyHalves .new .new .new .new)) Bridge.Step
    (p.bridges x)
  fits : ∀ x d, (p.source x d).Fits (p.half x d).reader

theorem Sound.half (h : p.Sound) (x : Side) (d : Direction) : (p.half x d).Sound := by
  obtain ⟨b, es, rfl, ht⟩ := h.bridge x
  refine TryJoin.part_invariant (fun _ _ _ hs => hs.step) ht (fun d => ?_) d
  cases d with
  | toQuic => exact CopyHalf.sound_start
  | toTcp => exact CopyHalf.sound_start

/-- A bridge is `Ok` when both its halves are done. -/
theorem Sound.ok_iff (h : p.Sound) (x : Side) :
    (p.bridges x).status = .ok ↔ ∀ d, (p.half x d).phase = .done := by
  obtain ⟨b, es, rfl, ht⟩ := h.bridge x
  rw [TryJoin.status_ok_iff ht fun hd => by cases hd .toQuic]
  exact forall_congr' fun d => decide_eq_true_iff

theorem sound_initial : (initial : Passage E).Sound where
  bridge x := by
    cases x with
    | relay => exact .of_init rfl
    | agent => exact .of_init rfl
  fits x d := by
    refine ⟨?_, fun he => ?_⟩
    · cases x <;> cases d <;> exact List.nil_prefix
    · cases x <;> cases d <;> cases he

/-- What is written to a stream stays, and is all once the stream has ended. -/
theorem Sound.source_grows (h : p.Sound) (hs : Step p e p') (x : Side) (d : Direction) :
    (p.source x d).Grows (p'.source x d) := by
  cases d with
  | toQuic =>
    cases hs with
    | bridge => exact .refl _
    | @sent y bytes hclosed =>
      by_cases hxy : x = y
      · subst hxy
        have hpeer : (Function.update p.peers x ⟨(p.peers x).sent ++ bytes, false⟩) x = _ :=
          Function.update_self ..
        simp only [source, hpeer]
        refine ⟨List.prefix_append _ _, fun he => ?_⟩
        rw [hclosed] at he
        cases he
      · simp only [source, Function.update_of_ne hxy]
        exact .refl _
    | @closed y hclosed =>
      by_cases hxy : x = y
      · subst hxy
        have hpeer : (Function.update p.peers x ⟨(p.peers x).sent, true⟩) x = _ :=
          Function.update_self ..
        simp only [source, hpeer]
        refine ⟨List.prefix_rfl, fun he => ?_⟩
        rw [hclosed] at he
        cases he
      · simp only [source, Function.update_of_ne hxy]
        exact .refl _
  | toTcp =>
    rcases hs.half x.other .toQuic with hsame | ⟨e', rfl, hstep, -⟩
    · -- the writer is as it was, and a bridge that is over makes no step
      refine ⟨by simp only [source, hsame]; exact List.prefix_rfl, fun he => ?_⟩
      refine ⟨?_, by simp only [source, hsame]⟩
      simp only [source, hsame, Bool.or_eq_true] at he ⊢
      refine he.imp_right fun hover => ?_
      cases hs with
      | sent | closed => exact hover
      | @bridge y e b hb _ =>
        by_cases hxy : x.other = y
        · subst hxy
          rw [hb.pending] at hover
          cases hover
        · show ((Function.update p.bridges y b) x.other).status.over = true
          rw [Function.update_of_ne hxy]
          exact hover
    · obtain ⟨hlive, hgrows⟩ := hstep.writer
      refine ⟨hgrows, fun he => ?_⟩
      simp only [source, Bool.or_eq_true] at he
      rcases he with hshut | hover
      · exact absurd ((h.half x.other .toQuic).shutDown.mp hshut) hlive
      · cases hs with
        | bridge hb _ =>
          rw [hb.pending] at hover
          cases hover

theorem Sound.step (h : p.Sound) (hs : Step p e p') : p'.Sound where
  bridge x := by
    cases hs with
    | sent | closed => exact h.bridge x
    | @bridge y e b hb _ =>
      by_cases hxy : x = y
      · subst hxy
        have hsame : (Function.update p.bridges x b) x = b := Function.update_self ..
        simp only [hsame]
        exact (h.bridge x).next hb
      · simp only [Function.update_of_ne hxy]
        exact h.bridge x
  fits x d := by
    have hgrows := h.source_grows hs x d
    rcases hs.half x d with hsame | ⟨e', -, hstep, hread⟩
    · rw [hsame]
      exact (h.fits x d).grows hgrows
    · rcases hstep.reader with hsame | ⟨bytes, rfl, hreader⟩
      · rw [hsame]
        exact (h.fits x d).grows hgrows
      · rw [hreader]
        exact (hread bytes rfl).fits.grows hgrows

theorem reachable_sound (h : Reachable p) : p.Sound :=
  h.invariant (fun _ h₀ => by rw [h₀]; exact sound_initial) (fun _ _ _ hi hs => hi.step hs)

/-! ## Delivery -/

theorem Sound.isPrefix (h : p.Sound) (x : Side) :
    (p.half x .toTcp).writer.written <+: (p.peers x.other).sent := by
  have hsecond := (h.half x .toTcp).isPrefix
  have hstream := (h.fits x .toTcp).isPrefix
  have hfirst := (h.half x.other .toQuic).isPrefix
  have hpeer := (h.fits x.other .toQuic).isPrefix
  exact hsecond.trans (hstream.trans (hfirst.trans hpeer))

/-- A half that is done has shut its writer down, after all that there was to read. -/
theorem Sound.done (h : p.Sound) (hd : (p.half x d).phase = .done) :
    (p.half x d).writer.shutDown = true ∧ (p.source x d).ended = true ∧
      (p.half x d).writer.written = (p.source x d).bytes := by
  obtain ⟨he, hw⟩ := (h.half x d).delivered (by rw [hd]; nofun)
  obtain ⟨hended, hread⟩ := (h.fits x d).complete he
  exact ⟨(h.half x d).shutDown.mpr hd, hended, hw.trans hread⟩

theorem Sound.of_over (h : p.Sound) (hover : (p.bridges x).status.over = true)
    (hok : ¬p.Failed x) : (p.half x d).phase = .done := by
  have hstatus : (p.bridges x).status = .ok := by
    by_contra hne
    exact hok ⟨hover, hne⟩
  exact (h.ok_iff x).mp hstatus d

/-- A side that has shut its peer's connection down has delivered everything, unless the other
bridge has failed. -/
theorem Sound.shutDown (h : p.Sound) (hshut : (p.half x .toTcp).writer.shutDown = true) :
    ((p.half x .toTcp).writer.written = (p.peers x.other).sent ∧
      (p.peers x.other).closed = true) ∨ p.Failed x.other := by
  obtain ⟨-, hended, hsecond⟩ := h.done ((h.half x .toTcp).shutDown.mp hshut)
  by_cases hok : p.Failed x.other
  · exact .inr hok
  · have hdone : (p.half x.other .toQuic).phase = .done := by
      simp only [source, Bool.or_eq_true] at hended
      rcases hended with hshut | hover
      · exact (h.half x.other .toQuic).shutDown.mp hshut
      · exact h.of_over hover hok
    obtain ⟨-, hclosed, hfirst⟩ := h.done hdone
    exact .inl ⟨hsecond.trans hfirst, hclosed⟩

/-- A bridge that is over without a failure has shut its peer's connection down. -/
theorem Sound.seen_ended (h : p.Sound) (hended : (p.seen x).ended = true) :
    (p.half x .toTcp).writer.shutDown = true ∨
      (p.Failed x ∧ (p.half x .toTcp).writer.shutDown = false) := by
  cases hshut : (p.half x .toTcp).writer.shutDown with
  | true => exact .inl rfl
  | false =>
    simp only [seen, hshut, Bool.false_or] at hended
    refine .inr ⟨⟨hended, fun hok => ?_⟩, rfl⟩
    rw [(h.half x .toTcp).shutDown.mpr ((h.ok_iff x).mp hok .toTcp)] at hshut
    cases hshut

theorem Sound.delivered (h : p.Sound) (hended : (p.seen x).ended = true) :
    ((p.seen x).bytes = (p.peers x.other).sent ∧ (p.peers x.other).closed = true) ∨
      p.Failed x.other ∨ (p.Failed x ∧ (p.half x .toTcp).writer.shutDown = false) := by
  rcases h.seen_ended hended with hshut | hfailed
  · exact (h.shutDown hshut).imp_right .inl
  · exact .inr (.inr hfailed)

/-! ## Progress -/

/-- A half of a bridge that is not over can go on once its source has ended, until it is done. -/
theorem Sound.half_advances (h : p.Sound) (hpending : (p.bridges x).status = .pending)
    (hended : (p.source x d).ended = true) : (p.half x d).phase = .done ∨
      ∃ e p', Step p (.bridge x (.step d e)) p' := by
  have hadvance : ∀ e half, CopyHalf.Step (p.half x d) e half →
      (∀ bytes, e = .read bytes → (p.source x d).Gives (p.half x d).reader bytes) →
      ∃ e p', Step p (.bridge x (.step d e)) p' := by
    intro e half hs hread
    refine ⟨e, _, .bridge (.step hpending hs) ?_⟩
    rintro d' bytes ⟨⟩
    exact hread bytes rfl
  cases hp : (p.half x d).phase with
  | done => exact .inl rfl
  | shuttingDown => exact .inr (hadvance _ _ (.shutDown hp) nofun)
  | copying =>
    right
    by_cases he : (p.half x d).reader.ended = true
    · by_cases hb : (p.half x d).buffer = []
      · exact hadvance _ _ (.copied hp he hb) nofun
      · exact hadvance _ _ (.wrote hp Nat.one_pos (List.length_pos_iff.mpr hb)) nofun
    · obtain ⟨bytes, hgives⟩ := (h.fits x d).gives hended
      refine hadvance _ _ (.read bytes hp (Bool.eq_false_iff.mpr he)) ?_
      rintro bytes' ⟨⟩
      exact hgives

/-- What a peer has sent before it closed its connection can be copied on until all of it is
delivered, while no bridge has failed. -/
theorem Sound.advances (h : p.Sound) (hclosed : (p.peers x.other).closed = true)
    (hok : ∀ y, ¬p.Failed y) : (p.half x .toTcp).writer = ⟨(p.peers x.other).sent, true⟩ ∨
      ∃ e p', Step p e p' ∧ e.toward x = true := by
  -- a bridge that is over is `Ok`
  have hdone : ∀ {y d}, (p.source y d).ended = true → (p.half y d).phase = .done ∨
      ∃ e p', Step p (.bridge y (.step d e)) p' := by
    intro y d hended
    cases hs : (p.bridges y).status with
    | pending => exact h.half_advances hs hended
    | ok => exact .inl ((h.ok_iff y).mp hs d)
    | error e => exact .inl (h.of_over (by rw [hs]; rfl) (hok y))
    | dropped => exact .inl (h.of_over (by rw [hs]; rfl) (hok y))
  rcases hdone (y := x.other) (d := .toQuic) hclosed with hfirst | ⟨e, p', hs⟩
  · obtain ⟨hshut, -, hwritten⟩ := h.done hfirst
    have hended : (p.source x .toTcp).ended = true := by
      simp only [source, hshut, Bool.true_or]
    rcases hdone hended with hsecond | ⟨e, p', hs⟩
    · obtain ⟨hshut', -, hwritten'⟩ := h.done hsecond
      left
      rw [← hshut', show (p.peers x.other).sent = (p.half x .toTcp).writer.written from
        (hwritten'.trans hwritten).symm]
    · exact .inr ⟨_, p', hs, decide_eq_true rfl⟩
  · exact .inr ⟨_, p', hs, decide_eq_true rfl⟩

theorem Step.peers (hs : Step p e p') (hclosed : (p.peers x).closed = true) :
    p'.peers x = p.peers x := by
  cases hs with
  | bridge => rfl
  | @sent y _ hopen | @closed y hopen =>
    have hxy : x ≠ y := by
      rintro rfl
      rw [hclosed] at hopen
      cases hopen
    exact Function.update_of_ne hxy ..

theorem Step.own {e' : CopyHalf.Event} (hs : Step p (.bridge x (.step d e')) p') :
    CopyHalf.Step (p.half x d) e' (p'.half x d) := by
  cases hs with
  | bridge h _ =>
    cases h with
    | step _ hs =>
      show CopyHalf.Step _ _ ((Function.update p.bridges x _ x).parts d)
      rw [Function.update_self, TryJoin.advance_self]
      exact hs

/-- Copying leaves the peers alone, and fails no bridge. -/
theorem Step.copying {e' : CopyHalf.Event} (hs : Step p (.bridge x (.step d e')) p') :
    p'.peers = p.peers ∧ (p'.Failed y → p.Failed y) := by
  cases hs with
  | bridge h _ =>
    refine ⟨rfl, fun hfailed => ?_⟩
    cases h with
    | step hp hs =>
      by_cases hxy : y = x
      · subst hxy
        simp only [Failed, Function.update_self, TryJoin.advance] at hfailed
        split at hfailed
        · exact absurd rfl hfailed.2
        · cases hfailed.1
      · simp only [Failed, Function.update_of_ne hxy] at hfailed
        exact hfailed

theorem Event.toward_cases (h : e.toward x = true) :
    (∃ e', e = .bridge x.other (.step .toQuic e')) ∨ ∃ e', e = .bridge x (.step .toTcp e') := by
  unfold toward at h
  split at h
  · rename_i y e'
    exact .inl ⟨e', by rw [of_decide_eq_true h]⟩
  · rename_i y e'
    exact .inr ⟨e', by rw [of_decide_eq_true h]⟩
  · cases h

/-- The copying towards a peer gets nearer to its end with every step of its own. -/
theorem Sound.remaining_lt (h : p.Sound) (hs : Step p e p')
    (hclosed : (p.peers x.other).closed = true) (ht : e.toward x = true) :
    p'.remaining x < p.remaining x := by
  have h' := h.step hs
  have hpeer := (h'.fits x.other .toQuic).isPrefix.length_le
  have hstream := (h'.fits x .toTcp).isPrefix.length_le
  have hpeers := hs.peers hclosed
  simp only [source, hpeers] at hpeer hstream
  unfold Passage.remaining
  rcases Event.toward_cases ht with ⟨e', rfl⟩ | ⟨e', rfl⟩
  · obtain ⟨n, m, hread, hwritten, hbuffer, hrank, hstrict⟩ := hs.own.progress
    have hsecond : p'.half x .toTcp = p.half x .toTcp := by
      rcases hs.half x .toTcp with hsame | ⟨e'', he, -⟩
      · exact hsame
      · exact absurd (Event.bridge.inj he).1 x.other_ne
    simp only [hsecond, hpeers] at hstream ⊢
    omega
  · obtain ⟨n, m, hread, hwritten, hbuffer, hrank, hstrict⟩ := hs.own.progress
    have hfirst : p'.half x.other .toQuic = p.half x.other .toQuic := by
      rcases hs.half x.other .toQuic with hsame | ⟨e'', he, -⟩
      · exact hsame
      · exact absurd (Event.bridge.inj he).1.symm x.other_ne
    simp only [hfirst, hpeers] at hstream ⊢
    omega

/-- Nothing else changes it. -/
theorem Step.remaining (hs : Step p e p') (hclosed : (p.peers x.other).closed = true)
    (ht : e.toward x = false) : p'.remaining x = p.remaining x := by
  have hfirst : p'.half x.other .toQuic = p.half x.other .toQuic := by
    rcases hs.half x.other .toQuic with hsame | ⟨e', rfl, -⟩
    · exact hsame
    · exact absurd rfl (of_decide_eq_false ht)
  have hsecond : p'.half x .toTcp = p.half x .toTcp := by
    rcases hs.half x .toTcp with hsame | ⟨e', rfl, -⟩
    · exact hsame
    · exact absurd rfl (of_decide_eq_false ht)
  simp only [Passage.remaining, hfirst, hsecond, hs.peers hclosed]

/-- The steps of the copying are bounded, and when it can make none it is at its end. -/
theorem Sound.bounded (h : p.Sound) (hclosed : (p.peers x.other).closed = true)
    (ht : Trace Step p es p') : es.countP (Event.toward x) ≤ p.remaining x ∧
      ((∀ y, ¬p'.Failed y) → (∀ e p'', Step p' e p'' → e.toward x = false) →
        (p'.half x .toTcp).writer = ⟨(p.peers x.other).sent, true⟩) := by
  -- the peer stays closed, and what it has sent stays
  have hstays : ∀ (q : Passage E) e q', q.Sound ∧ q.peers x.other = p.peers x.other → Step q e q' →
      q'.Sound ∧ q'.peers x.other = p.peers x.other := by
    rintro q e q' ⟨hq, hpeers⟩ hs
    exact ⟨hq.step hs, (hs.peers (by rw [hpeers]; exact hclosed)).trans hpeers⟩
  have hcount := ht.countP_le (P := Event.toward x) (m := fun q => q.remaining x) hstays
    (fun q e q' htoward hq hs => hq.1.remaining_lt hs (by rw [hq.2]; exact hclosed) htoward)
    (fun q e q' hnot hq hs => (hs.remaining (by rw [hq.2]; exact hclosed) hnot).le)
    ⟨h, rfl⟩
  obtain ⟨hsound', hpeers⟩ := ht.invariant hstays ⟨h, rfl⟩
  refine ⟨by omega, fun hok hstuck => ?_⟩
  rcases hsound'.advances (x := x) (by rw [hpeers]; exact hclosed) hok with hdone | ⟨e, q, hs, hq⟩
  · rw [hdone, hpeers]
  · rw [hstuck e q hs] at hq
    cases hq

/-- While no bridge has failed, the copying gets to its end by its own steps. -/
theorem Sound.completes (h : p.Sound) (hclosed : (p.peers x.other).closed = true)
    (hok : ∀ y, ¬p.Failed y) : ∃ es p', Trace Step p es p' ∧ es.length ≤ p.remaining x ∧
      (p'.half x .toTcp).writer = ⟨(p.peers x.other).sent, true⟩ := by
  let I := fun q : Passage E => q.Sound ∧ q.peers = p.peers ∧ ∀ y, ¬q.Failed y
  let F := fun q : Passage E => (q.half x .toTcp).writer = ⟨(p.peers x.other).sent, true⟩
  have hstays : ∀ q e q', I q → Step q e q' ∧ e.toward x = true → I q' := by
    rintro q e q' ⟨hq, hpeers, hlive⟩ ⟨hs, ht⟩
    rcases Event.toward_cases ht with ⟨e', rfl⟩ | ⟨e', rfl⟩
    · exact ⟨hq.step hs, (hs.copying (y := x)).1.trans hpeers, fun y hf => hlive y (hs.copying.2 hf)⟩
    · exact ⟨hq.step hs, (hs.copying (y := x)).1.trans hpeers, fun y hf => hlive y (hs.copying.2 hf)⟩
  have hgo : ∀ q, I q → ¬F q → ∃ e q', (Step q e q' ∧ e.toward x = true) ∧
      q'.remaining x < q.remaining x := by
    rintro q ⟨hq, hpeers, hlive⟩ hF
    have hclosed' : (q.peers x.other).closed = true := by rw [hpeers]; exact hclosed
    rcases hq.advances hclosed' hlive with hdone | ⟨e, q', hs, ht⟩
    · rw [hpeers] at hdone
      exact absurd hdone hF
    · exact ⟨e, q', ⟨hs, ht⟩, hq.remaining_lt hs hclosed' ht⟩
  obtain ⟨es, p', ht, hdone, hle⟩ :=
    Trace.completes (m := fun q => q.remaining x) hstays hgo ⟨h, rfl, hok⟩
  exact ⟨es, p', ht.mono fun _ _ _ hs => hs.1, hle, hdone⟩

/-- **A player's connection end to end.** In every state of every run each peer has received a part
of what the other has sent, in order and without a gap. A peer that sees the end of the connection
has received everything, unless the other bridge has failed, or its own has before it shut the
connection down. Once a peer has closed its connection, the copying of what it has sent has a bounded
number of steps left, whatever the other direction does; when it can make none and no bridge has
failed, everything is delivered and the other peer's connection is shut down; and as long as no
bridge has failed it can get there. When both peers see the end and no bridge has failed, both
bridges return `Ok`. -/
theorem end_to_end (E : Type) (p : Passage E) (h : Reachable p) :
    (∀ x, (p.seen x).bytes <+: (p.peers x.other).sent) ∧
    (∀ x, (p.seen x).ended = true →
      ((p.seen x).bytes = (p.peers x.other).sent ∧ (p.peers x.other).closed = true) ∨
        p.Failed x.other ∨ (p.Failed x ∧ (p.half x .toTcp).writer.shutDown = false)) ∧
    (∀ x, (p.peers x.other).closed = true →
      (∀ es p', Trace Step p es p' → es.countP (Event.toward x) ≤ p.remaining x ∧
        ((∀ y, ¬p'.Failed y) → (∀ e p'', Step p' e p'' → e.toward x = false) →
          (p'.half x .toTcp).writer = ⟨(p.peers x.other).sent, true⟩)) ∧
      ((∀ y, ¬p.Failed y) → ∃ es p', Trace Step p es p' ∧ es.length ≤ p.remaining x ∧
        (p'.half x .toTcp).writer = ⟨(p.peers x.other).sent, true⟩)) ∧
    ((∀ y, ¬p.Failed y) → (∀ x, (p.seen x).ended = true) →
      ∀ x, (p.bridges x).status = .ok) := by
  have hsound := reachable_sound h
  refine ⟨hsound.isPrefix, fun x => hsound.delivered,
    fun x hclosed => ⟨fun es p' => hsound.bounded hclosed, hsound.completes hclosed⟩, ?_⟩
  intro hok hended x
  -- what is delivered was copied by both halves on its way
  have hsecond : ∀ y, (p.half y .toTcp).phase = .done := by
    intro y
    rcases hsound.seen_ended (hended y) with hshut | ⟨hfailed, -⟩
    · exact (hsound.half y .toTcp).shutDown.mp hshut
    · exact absurd hfailed (hok y)
  have hfirst : (p.half x .toQuic).phase = .done := by
    obtain ⟨-, hended, -⟩ := hsound.done (hsecond x.other)
    simp only [source, Side.other_other, Bool.or_eq_true] at hended
    rcases hended with hshut | hover
    · exact (hsound.half x .toQuic).shutDown.mp hshut
    · exact hsound.of_over hover (hok x)
  rw [hsound.ok_iff]
  intro d
  cases d with
  | toQuic => exact hfirst
  | toTcp => exact hsecond x

/-- The player sends a byte and closes: ten steps bring the byte, and the end after it, to the game
server. -/
theorem end_to_end_one_byte : ∃ (p p' : Passage Unit) (es : List (Event Unit)),
    p.peers .relay = ⟨[1], true⟩ ∧ Trace Step p es p' ∧ es.length ≤ 10 ∧
      p'.seen .agent = ⟨[1], true⟩ := by
  have h₀ : Reachable (initial : Passage Unit) := .of_init rfl
  have h₁ := h₀.next (.sent (x := .relay) [1] rfl)
  have h₂ := h₁.next (.closed (x := .relay) rfl)
  obtain ⟨-, -, hdelivers, -⟩ := end_to_end Unit _ h₂
  obtain ⟨es, p', ht, hle, hwriter⟩ := (hdelivers .agent rfl).2 (by
    rintro y ⟨hover, -⟩
    cases y <;> cases hover)
  refine ⟨_, p', es, rfl, ht, hle, ?_⟩
  simp only [seen, hwriter]
  rfl

end Passage
end GameNet
