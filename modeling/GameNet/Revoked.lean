import GameNet.Claim

/-!
# GameNet.Revoked

How long a retired token stays refused. A rotation or a recovery that moves a claim retires its
token: the lease lists it, and a listed token is refused. The list keeps the last
`maxRetiredIdentities` tokens only, so a token is listed exactly as long as the claim has not moved
that many times again (`retired_refused`); after that the relay takes it for a stranger's
(`not_retired_refused_forever`).

The induction keeps the position of the token in the list: `Lease.Lists x n` says that `n` tokens
were retired after `x`.
-/

namespace GameNet

/-- The lease lists `x` as retired, and `n` tokens after it. -/
def Lease.Lists (x : TokenId) (n : Nat) (lease : Lease) : Prop :=
  ∃ before after, lease.retiredTokenIds = before ++ x :: after ∧ after.length = n

namespace LeaseTable

/-- Whether the claim moves to another token, as a number. -/
def Effect.moves : Effect → Nat
  | .rotate _ => 1
  | .recover _ _ _ => 1
  | _ => 0

def Event.moves (c : Claim) (e : Event) : Nat := (e.effect c.token c.lease.port).moves

/-- How often the claim moves in the events. -/
def Claim.moves (c : Claim) : List Event → Nat
  | [] => 0
  | e :: es => e.moves c + (c.next e).moves es

variable {port : UInt16} {c : Claim} {now : UInt64} {s s' s'' : RunState}
  {e : Event} {es : List Event} {x old : TokenId} {lease : Lease} {peerIp : IpAddr} {n : Nat}

theorem lists_retire (h : lease.Lists x n) (hb : lease.retiredTokenIds.length ≤ 8) (hn : n < 7) :
    ∃ before after, retire lease.retiredTokenIds old = before ++ x :: after ∧
      after.length = n + 1 := by
  obtain ⟨before, after, heq, rfl⟩ := h
  rw [heq] at hb ⊢
  simp only [List.length_append, List.length_cons] at hb
  simp only [retire]
  split
  · -- the list overflows, and fewer than eight of its tokens are `x` or later
    rename_i hover
    simp only [List.length_append, List.length_cons, List.length_nil, maxRetiredIdentities]
      at hover
    cases before with
    | nil => simp at hover; omega
    | cons y rest => exact ⟨rest, after ++ [old], by simp, by simp⟩
  · exact ⟨before, after ++ [old], by simp, by simp⟩

/-- The event that moves the claim away from `x` retires `x`. -/
theorem lists_of_moves (hm : e.moves c = 1) : (c.next e).lease.Lists c.token 0 := by
  simp only [Event.moves, Effect.moves] at hm
  simp only [Claim.next]
  split at hm
  · rename_i heq
    rw [heq]
    exact ⟨[], [], rfl, rfl⟩
  · rename_i heq
    rw [heq]
    obtain ⟨before, hb⟩ := retire_eq c.lease.retiredTokenIds c.token
    exact ⟨before, [], hb, rfl⟩
  · cases hm

theorem lists_ne_nil (h : lease.Lists x n) : lease.retiredTokenIds ≠ [] := by
  obtain ⟨before, after, heq, -⟩ := h
  simp [heq]

/-- A claim that lists a retired token is not rotated. -/
theorem not_rotate (new : TokenId) (hw : s.table.WellFormed) (h : s.table.Holds port c)
    (hs : LiveStep port s e s') (hl : c.lease.retiredTokenIds ≠ []) :
    e.effect c.token c.lease.port ≠ .rotate new := by
  intro heff
  obtain ⟨hop, q, hout⟩ := Event.effect_eq_rotate heff
  have ho := (hs.1.agree hw).1
  rw [hop, hout] at ho
  obtain ⟨r, hq, hr⟩ := perform_rotate (Prod.ext ho rfl)
  obtain ⟨lease, hro, -, -⟩ | ⟨-, hb⟩ := rotateClaim_cases hq
  · have hx : c.lease.expired e.now = false := by
      simpa only [Claim.lapses, hop] using hs.2 c h
    have hheld := hro.held
    rw [(h.reapExpired hx).1] at hheld
    cases hheld
    exact hl hro.unrotated
  · cases hr
    obtain ⟨_, hb⟩ | ⟨_, _, _, hb⟩ | ⟨_, _, hb⟩ := hb <;> cases hb

/-- A step leaves a retired token listed, one place further from the end if the claim moves. -/
theorem lists_step (hw : s.table.WellFormed) (h : s.table.Holds port c)
    (hs : LiveStep port s e s') (hl : c.lease.Lists x n)
    (hn : e.moves c + n < 8) : (c.next e).lease.Lists x (e.moves c + n) := by
  have hnot := fun new => not_rotate new hw h hs (lists_ne_nil hl)
  simp only [Event.moves, Claim.next] at hn ⊢
  generalize e.effect c.token c.lease.port = effect at hnot hn ⊢
  cases effect with
  | rotate new => exact absurd rfl (hnot new)
  | recover new peerIp now =>
    simp only [Effect.moves] at hn ⊢
    rw [Nat.add_comm]
    exact lists_retire hl (hw.retiredBound h.1) (by omega)
  | _ =>
    simp only [Effect.moves, Nat.zero_add]
    exact hl

theorem lists_run (hw : s.table.WellFormed) (h : s.table.Holds port c)
    (ht : Trace (LiveStep port) s es s') (hl : c.lease.Lists x n) (hn : c.moves es + n < 8) :
    s'.table.WellFormed ∧ ∃ c' m, s'.table.Holds port c' ∧ c'.lease.Lists x m := by
  induction ht generalizing c n with
  | refl => exact ⟨hw, c, n, h, hl⟩
  | cons hs _ ih =>
    simp only [Claim.moves] at hn
    have hl' := lists_step hw h hs hl (by omega)
    exact ih (hs.1.wellFormed hw) (hs.holds hw h) hl' (by omega)

/-- **A retired token stays refused while its claim lives and moves fewer than eight times.** -/
theorem retired_refused (h₀ : Reachable s) (h : s.table.Holds port c) (hs : LiveStep port s e s')
    (hm : e.moves c = 1) (ht : Trace (LiveStep port) s' es s'')
    (hn : (c.next e).moves es < 8)
    (hlive : ∀ c', s''.table.Holds port c' → c'.lease.expired now = false) :
    (∃ err, (s''.table.candidatePorts c.token peerIp now).1 = .error err) ∧
      ∀ presented q, ∃ err,
        (s''.table.activateWithRecovery c.token presented peerIp q now).1 = .error err := by
  have hw := reachable_wellFormed h₀
  obtain ⟨-, c', m, h', hl⟩ :=
    lists_run (hs.1.wellFormed hw) (hs.holds hw h) ht (lists_of_moves hm) hn
  obtain ⟨before, after, heq, -⟩ := hl
  have hmem : c.token ∈ c'.lease.retiredTokenIds := by rw [heq]; simp
  have hoff := h'.refused (hlive c' h') hmem peerIp
  exact ⟨⟨_, hoff⟩, fun presented q => ⟨_, by rw [activateWithRecovery_error hoff]⟩⟩

/-- The host's claim is recovered with token 2. -/
theorem retired_refused_one_recovery :
    ∃ s : RunState,
      (∃ err, (s.table.candidatePorts (.filled 1) hostIp 1001).1 = .error err) ∧
        ∀ presented q, ∃ err,
          (s.table.activateWithRecovery (.filled 1) presented hostIp q 1001).1 = .error err := by
  have hlive := hosted_run [(1001, .recoverClaim (.filled 100) (.filled 2) hostIp)] rfl rfl
  have hw := reachable_wellFormed hosted_reachable
  obtain ⟨hw', hc'⟩ := follow hw hosted_holds hlive
  cases hlive with
  | cons hs ht =>
    cases ht
    exact ⟨_, retired_refused hosted_reachable hosted_holds hs rfl .refl (by decide)
      fun c h => by rw [← hc'.unique hw' h]; rfl⟩

/-- The host's claim is recovered nine times, with tokens 2 to 10. -/
def nineRecoveries : List (UInt64 × Op) :=
  [2, 3, 4, 5, 6, 7, 8, 9, 10].map fun n =>
    (1001, .recoverClaim (.filled 100) (.filled n) hostIp)

/-- A retired token is not refused for as long as its claim lives: when the claim has been
recovered eight more times, the relay offers token 1 the free ports. -/
theorem not_retired_refused_forever :
    ¬∀ (s s' s'' : RunState) (port : UInt16) (c : Claim) (e : Event) (es : List Event)
      (peerIp : IpAddr) (now : UInt64), Reachable s → s.table.Holds port c →
      LiveStep port s e s' → e.moves c = 1 → Trace (LiveStep port) s' es s'' →
      (∀ c', s''.table.Holds port c' → c'.lease.expired now = false) →
      ∃ err, (s''.table.candidatePorts c.token peerIp now).1 = .error err := by
  intro hclaim
  have hlive := hosted_run nineRecoveries rfl rfl
  obtain ⟨hw', hc'⟩ := follow (reachable_wellFormed hosted_reachable) hosted_holds hlive
  have hok : ((RunState.run ⟨hosted, 1000⟩ nineRecoveries).2.table.candidatePorts (.filled 1)
      hostIp 1001).1.isOk = true := rfl
  cases hlive with
  | cons hs ht =>
    obtain ⟨err, herr⟩ := hclaim _ _ _ 10000 _ _ _ hostIp 1001 hosted_reachable hosted_holds hs
      rfl ht fun c h => by rw [← hc'.unique hw' h]; rfl
    rw [show (LeaseTable.candidatePorts _ (.filled 1) hostIp 1001).1 = .error err from herr] at hok
    cases hok

end LeaseTable
end GameNet
