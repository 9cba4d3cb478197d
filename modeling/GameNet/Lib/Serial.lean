import GameNet.Lib.Trace
import Mathlib.Order.Basic

/-!
# GameNet.Lib.Serial

Systems that hand out serial numbers from a counter. A step either leaves the counter alone and
brings no serial to life, or issues one above the counter to an owner, who then has no other.
Serials may die at any time. Along a run the issued serials increase; each is alive for the owner
it was issued to only; and one that died, or whose owner got another, never comes back.
-/

variable {σ ε κ ν : Type} [Preorder ν]

/-- `live s k n` says that the serial `n` of the owner `k` is alive in `s`. -/
structure Serial (step : σ → ε → σ → Prop) (counter : σ → ν) (live : σ → κ → ν → Prop)
    (issue : ε → Option (κ × ν)) : Prop where
  calm : ∀ {s e s'}, step s e s' → issue e = none →
    counter s' = counter s ∧ ∀ {k n}, live s' k n → live s k n
  fresh : ∀ {s e s' k n}, step s e s' → issue e = some (k, n) →
    counter s < n ∧ counter s' = n ∧
      ∀ {k' n'}, live s' k' n' → (k' = k ∧ n' = n) ∨ (k' ≠ k ∧ live s k' n')

namespace Serial

/-- No serial above the counter is alive, and none has two owners. -/
structure Sound (counter : σ → ν) (live : σ → κ → ν → Prop) (s : σ) : Prop where
  bounded : ∀ {k n}, live s k n → n ≤ counter s
  unique : ∀ {k k' n}, live s k n → live s k' n → k = k'

variable {step : σ → ε → σ → Prop} {counter : σ → ν} {live : σ → κ → ν → Prop}
  {issue : ε → Option (κ × ν)} {s s' s'' : σ} {e : ε} {es es' : List ε} {k k' : κ} {n m : ν}

/-- A system that holds the counter and the serials as a part of its state. -/
theorem Sound.part {τ : Type} {part : τ → σ} {x : τ} (h : Sound counter live (part x)) :
    Sound (fun x => counter (part x)) (fun x => live (part x)) x :=
  ⟨h.bounded, h.unique⟩

/-- The counter never goes back, and a serial up to it is alive only if it was. -/
theorem step_old (h : Serial step counter live issue) (hs : step s e s') :
    counter s ≤ counter s' ∧ ∀ {k n}, n ≤ counter s → live s' k n → live s k n := by
  cases hi : issue e with
  | none =>
    obtain ⟨hc, hl⟩ := h.calm hs hi
    exact ⟨hc.ge, fun _ => hl⟩
  | some p =>
    obtain ⟨hlt, hc, hl⟩ := h.fresh hs hi
    refine ⟨hc ▸ hlt.le, fun hn hlive => ?_⟩
    rcases hl hlive with ⟨-, rfl⟩ | ⟨-, hlive⟩
    · exact absurd hlt hn.not_gt
    · exact hlive

theorem counter_le (h : Serial step counter live issue) (ht : Trace step s es s') :
    counter s ≤ counter s' := by
  induction ht with
  | refl => exact le_rfl
  | cons hs _ ih => exact (h.step_old hs).1.trans ih

/-- What is dead and not above the counter stays dead. -/
theorem gone (h : Serial step counter live issue) (ht : Trace step s es s') (hn : n ≤ counter s)
    (hl : ¬live s k n) : ¬live s' k n := by
  induction ht with
  | refl => exact hl
  | cons hs _ ih =>
    obtain ⟨hc, hold⟩ := h.step_old hs
    exact ih (hn.trans hc) fun hlive => hl (hold hn hlive)

theorem step_sound (h : Serial step counter live issue) (hs : step s e s')
    (hi : Sound counter live s) : Sound counter live s' := by
  cases he : issue e with
  | none =>
    obtain ⟨hc, hl⟩ := h.calm hs he
    exact ⟨fun hlive => hc ▸ hi.bounded (hl hlive),
      fun hlive hlive' => hi.unique (hl hlive) (hl hlive')⟩
  | some p =>
    obtain ⟨hlt, hc, hl⟩ := h.fresh hs he
    -- the new serial is no old one
    have hnew : ∀ {k}, ¬live s k p.2 := fun hlive => absurd hlt (hi.bounded hlive).not_gt
    constructor
    · intro k n hlive
      rcases hl hlive with ⟨-, rfl⟩ | ⟨-, hlive⟩
      · exact hc.ge
      · exact (hi.bounded hlive).trans (hc ▸ hlt.le)
    · intro k k' n hlive hlive'
      rcases hl hlive with ⟨rfl, rfl⟩ | ⟨-, hlive⟩ <;>
        rcases hl hlive' with ⟨rfl, he'⟩ | ⟨-, hlive'⟩
      · rfl
      · exact absurd hlive' hnew
      · exact absurd (he' ▸ hlive) hnew
      · exact hi.unique hlive hlive'

theorem sound (h : Serial step counter live issue) (ht : Trace step s es s')
    (hi : Sound counter live s) : Sound counter live s' :=
  ht.invariant (fun _ _ _ hi hs => h.step_sound hs hi) hi

/-- What a run issues lies above the counter it starts with, up to the one it ends with. -/
theorem mem_issued (h : Serial step counter live issue) (ht : Trace step s es s')
    (hp : (k, n) ∈ es.filterMap issue) : counter s < n ∧ n ≤ counter s' := by
  induction ht with
  | refl => cases hp
  | @cons s s' s'' e es hs ht ih =>
    rw [List.filterMap_cons] at hp
    cases he : issue e with
    | none =>
      rw [he] at hp
      obtain ⟨hlt, hle⟩ := ih hp
      exact ⟨(h.step_old hs).1.trans_lt hlt, hle⟩
    | some p =>
      rw [he] at hp
      rcases List.mem_cons.mp hp with rfl | hp
      · obtain ⟨hlt, hc, -⟩ := h.fresh hs he
        exact ⟨hlt, hc ▸ h.counter_le ht⟩
      · obtain ⟨hlt, hle⟩ := ih hp
        exact ⟨(h.step_old hs).1.trans_lt hlt, hle⟩

/-- Serials are issued in increasing order. -/
theorem issued_pairwise (h : Serial step counter live issue) (ht : Trace step s es s') :
    (es.filterMap issue).Pairwise (fun p q => p.2 < q.2) := by
  induction ht with
  | refl => exact .nil
  | @cons s s' s'' e es hs ht ih =>
    rw [List.filterMap_cons]
    cases he : issue e with
    | none => exact ih
    | some p =>
      refine .cons (fun q hq => ?_) ih
      obtain ⟨-, hc, -⟩ := h.fresh hs he
      exact hc ▸ (h.mem_issued ht hq).1

/-- A serial is issued by one event of the run only. -/
theorem issued_inj (h : Serial step counter live issue) (ht : Trace step s es s') {e e' : ε}
    (he : e ∈ es) (he' : e' ∈ es) (hi : issue e = some (k, n)) (hi' : issue e' = some (k', n)) :
    e = e' := by
  induction ht with
  | refl => cases he
  | @cons s s' s'' e₀ es hs ht ih =>
    -- what comes after the first event is above what the first event issued
    have later : ∀ {x y : ε} {p q : κ}, x = e₀ → y ∈ es → issue x = some (p, n) →
        issue y ≠ some (q, n) := by
      intro x y p q hx hy hix hiy
      obtain ⟨-, hc, -⟩ := h.fresh hs (hx ▸ hix)
      have hlt := (h.mem_issued ht (List.mem_filterMap.mpr ⟨y, hy, hiy⟩)).1
      exact absurd hlt hc.ge.not_gt
    rcases List.mem_cons.mp he with rfl | he <;> rcases List.mem_cons.mp he' with hx | he'
    · exact hx.symm
    · exact absurd hi' (later rfl he' hi)
    · exact absurd hi (later hx he hi')
    · exact ih he he'

/-- An issued serial is alive for nobody but the owner it was issued to. -/
theorem owner (h : Serial step counter live issue) (ht : Trace step s es s')
    (hi : Sound counter live s) (hp : (k, n) ∈ es.filterMap issue) (hl : live s' k' n) :
    k' = k := by
  induction ht with
  | refl => cases hp
  | @cons s s' s'' e es hs ht ih =>
    rw [List.filterMap_cons] at hp
    cases he : issue e with
    | none =>
      rw [he] at hp
      exact ih (h.step_sound hs hi) hp hl
    | some p =>
      rw [he] at hp
      rcases List.mem_cons.mp hp with rfl | hp
      · obtain ⟨hlt, hc, hlive⟩ := h.fresh hs he
        by_contra hne
        refine h.gone ht hc.ge (fun hl' => ?_) hl
        rcases hlive hl' with ⟨hk, -⟩ | ⟨-, hold⟩
        · exact hne hk
        · exact absurd hlt (hi.bounded hold).not_gt
      · exact ih (h.step_sound hs hi) hp hl

/-- A step at which a serial dies kills it for good. -/
theorem dies (h : Serial step counter live issue) (hs : step s e s') (hi : Sound counter live s)
    (hl : live s k n) (hd : ¬live s' k n) (ht : Trace step s' es s'') : ¬live s'' k' n := by
  have hn := hi.bounded hl
  refine h.gone ht (hn.trans (h.step_old hs).1) fun hl' => ?_
  obtain rfl := hi.unique hl ((h.step_old hs).2 hn hl')
  exact hd hl'

/-- An issued serial is dead once its owner gets another. -/
theorem replaced (h : Serial step counter live issue) (ht : Trace step s es s')
    (hi : Sound counter live s) (hp : (k, n) ∈ es.filterMap issue) (hs : step s' e s'')
    (he : issue e = some (k, m)) {s₃ : σ} (ht' : Trace step s'' es' s₃) : ¬live s₃ k' n := by
  obtain ⟨-, hn⟩ := h.mem_issued ht hp
  obtain ⟨hlt, hc, hl⟩ := h.fresh hs he
  refine h.gone ht' (hn.trans (h.step_old hs).1) fun hlive => ?_
  rcases hl hlive with ⟨-, rfl⟩ | ⟨hne, hlive⟩
  · exact absurd hlt hn.not_gt
  · exact hne (h.owner ht hi hp hlive)

/-- If every step that `p` marks is the death of `n`, a run has one such step at most. -/
theorem dies_once (h : Serial step counter live issue) (ht : Trace step s es s')
    (hi : Sound counter live s) {p : ε → Bool}
    (hp : ∀ {s e s'}, step s e s' → p e = true → ∃ k, live s k n ∧ ¬live s' k n) :
    es.countP p ≤ 1 := by
  induction ht with
  | refl => exact Nat.zero_le 1
  | @cons s s' s'' e es hs ht ih =>
    rw [List.countP_cons]
    split
    · rename_i hpe
      obtain ⟨k, hl, hd⟩ := hp hs hpe
      -- a later death would be of a serial that is dead already
      have hzero : es.countP p = 0 := by
        rw [List.countP_eq_zero]
        intro e' he' hpe'
        obtain ⟨before, after, rfl⟩ := List.append_of_mem he'
        obtain ⟨s₁, hbefore, hrest⟩ := ht.of_append
        cases hrest with
        | cons hs' _ =>
          obtain ⟨k', hl', -⟩ := hp hs' hpe'
          exact h.dies hs hi hl hd hbefore hl'
      omega
    · exact ih (h.step_sound hs hi)

end Serial
