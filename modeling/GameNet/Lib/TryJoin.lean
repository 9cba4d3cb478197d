import GameNet.Lib.Trace
import Mathlib.Data.Fintype.Basic

/-!
# GameNet.Lib.TryJoin

Futures that are polled together until all are done or one has failed. The parts make their steps in
any order; the join is over at the step at which the last part is done, or one fails, or the join
itself is dropped, and then all parts are dropped.

A part runs as it does alone: an invariant of a part's steps holds of every part in every reachable
state (`part_invariant`), and a step that a part can make it can make whatever the others do
(`advances`). `status_ok_iff` and `status_error_iff` say what the result means.
-/

inductive JoinStatus (φ : Type) where
  | pending
  | ok
  | error (e : φ)
  /-- It was dropped before it returned. -/
  | dropped

def JoinStatus.over {φ : Type} : JoinStatus φ → Bool
  | .pending => false
  | .ok | .error _ | .dropped => true

structure TryJoin (ι σ φ : Type) where
  parts : ι → σ
  status : JoinStatus φ

namespace TryJoin

variable {ι σ δ φ : Type} [DecidableEq ι] [Fintype ι]

inductive Event (ι δ φ : Type) where
  | step (i : ι) (e : δ)
  | failed (i : ι) (e : φ)
  | dropped

def start (parts : ι → σ) : TryJoin ι σ φ := ⟨parts, .pending⟩

/-- The join after a step of a part. -/
def advance (done : σ → Bool) (s : TryJoin ι σ φ) (i : ι) (part : σ) : TryJoin ι σ φ :=
  let parts := Function.update s.parts i part
  ⟨parts, if ∀ j, done (parts j) then .ok else .pending⟩

inductive Step (step : σ → δ → σ → Prop) (fails : σ → φ → Prop) (done : σ → Bool) :
    TryJoin ι σ φ → Event ι δ φ → TryJoin ι σ φ → Prop where
  | step {s : TryJoin ι σ φ} {i : ι} {e : δ} {part : σ} (h : s.status = .pending)
      (hs : step (s.parts i) e part) : Step step fails done s (.step i e) (s.advance done i part)
  | fail {s : TryJoin ι σ φ} {i : ι} {e : φ} (h : s.status = .pending)
      (hf : fails (s.parts i) e) :
      Step step fails done s (.failed i e) { s with status := .error e }
  | drop {s : TryJoin ι σ φ} (h : s.status = .pending) :
      Step step fails done s .dropped { s with status := .dropped }

variable {step : σ → δ → σ → Prop} {fails : σ → φ → Prop} {done : σ → Bool}
  {s s' : TryJoin ι σ φ} {parts : ι → σ} {e : Event ι δ φ} {es : List (Event ι δ φ)}

@[simp] theorem advance_self {i : ι} {part : σ} : (s.advance done i part).parts i = part := by
  simp only [advance, Function.update_self]

theorem advance_of_ne {i j : ι} {part : σ} (h : j ≠ i) :
    (s.advance done i part).parts j = s.parts j := by
  simp only [advance, Function.update_of_ne h]

/-- No part makes a step when the join is over. -/
theorem Step.pending (h : Step step fails done s e s') : s.status = .pending := by
  cases h with
  | step h => exact h
  | fail h => exact h
  | drop h => exact h

/-- A part changes at its own steps only. -/
theorem Step.part (h : Step step fails done s e s') (i : ι) :
    s'.parts i = s.parts i ∨ ∃ e', e = .step i e' ∧ step (s.parts i) e' (s'.parts i) := by
  cases h with
  | @step i' e' part _ hs =>
    by_cases hi : i = i'
    · subst hi
      refine .inr ⟨e', rfl, ?_⟩
      rw [advance_self]
      exact hs
    · exact .inl (advance_of_ne hi)
  | fail => exact .inl rfl
  | drop => exact .inl rfl

/-- What a part can do next it can do whatever the others do. -/
theorem advances (h : s.status = .pending) {i : ι} {e : δ} {part : σ}
    (hs : step (s.parts i) e part) : ∃ s', Step step fails done s (.step i e) s' ∧
      s'.parts i = part ∧ ∀ j, j ≠ i → s'.parts j = s.parts j :=
  ⟨_, .step h hs, advance_self, fun _ hj => advance_of_ne hj⟩

theorem part_invariant {I : σ → Prop} (hI : ∀ p e p', I p → step p e p' → I p')
    (h : Trace (Step step fails done) (start parts) es s) (hs : ∀ i, I (parts i)) (i : ι) :
    I (s.parts i) := by
  refine h.invariant (I := fun s => ∀ i, I (s.parts i)) (fun s e s' hp hs i => ?_) hs i
  rcases hs.part i with hsame | ⟨e', -, hstep⟩
  · rw [hsame]
    exact hp i
  · exact hI _ e' _ (hp i) hstep

/-- The join is `ok` when all parts are done, if they were not to begin with. -/
theorem status_ok_iff (h : Trace (Step step fails done) (start parts) es s)
    (hs : ¬∀ i, done (parts i)) : s.status = .ok ↔ ∀ i, done (s.parts i) := by
  refine h.invariant (I := fun s => s.status = .ok ↔ ∀ i, done (s.parts i)) ?_ ?_
  · intro s e s' hok hstep
    have hpending := hstep.pending
    rw [hpending] at hok
    have hnot : ¬∀ i, done (s.parts i) := fun hd => by cases hok.mpr hd
    cases hstep with
    | step =>
      simp only [advance]
      split
      · exact iff_of_true rfl ‹_›
      · exact iff_of_false nofun ‹_›
    | fail => exact iff_of_false nofun hnot
    | drop => exact iff_of_false nofun hnot
  · exact iff_of_false nofun hs

/-- It is an error when a part has failed. -/
theorem status_error_iff (h : Trace (Step step fails done) (start parts) es s) (e : φ) :
    s.status = .error e ↔ ∃ i, .failed i e ∈ es := by
  refine h.history (R := fun s past => s.status = .error e ↔ ∃ i, .failed i e ∈ past) ?_ ?_
  · intro s e' s' past herr hstep
    have hpending := hstep.pending
    have hnone : ∀ i, .failed i e ∉ past := by
      intro i hm
      have hs := herr.mpr ⟨i, hm⟩
      rw [hpending] at hs
      cases hs
    simp only [List.mem_append, hnone, false_or, List.mem_singleton]
    cases hstep with
    | @step i e' part =>
      refine iff_of_false ?_ nofun
      simp only [advance]
      split
      · nofun
      · nofun
    | @fail i e' =>
      constructor
      · rintro ⟨⟩
        exact ⟨i, rfl⟩
      · rintro ⟨j, ⟨⟩⟩
        rfl
    | drop => exact iff_of_false nofun nofun
  · exact iff_of_false nofun nofun

end TryJoin
