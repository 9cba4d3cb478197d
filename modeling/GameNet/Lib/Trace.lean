import Mathlib.Data.List.Forall2

/-!
# GameNet.Lib.Trace

Runs of a labelled transition system: `Trace step s es s'` says that the events `es`, in order,
take `s` to `s'`. The rules carry a fact about one step over a whole run: an invariant
(`invariant`), a ghost value that follows the events (`track`), a measure that bounds how many there
are (`countP_le`) or leads them to an end (`completes`), and a simulation by another system, step by
step (`refines`) or with any number of steps for one (`simulates`). A run can be computed from a
schedule of moves (`schedule`).
-/

inductive Trace {σ ε : Type} (step : σ → ε → σ → Prop) : σ → List ε → σ → Prop where
  | refl {s : σ} : Trace step s [] s
  | cons {s s' s'' : σ} {e : ε} {es : List ε} :
      step s e s' → Trace step s' es s'' → Trace step s (e :: es) s''

namespace Trace

variable {σ ε τ : Type} {step : σ → ε → σ → Prop} {s s' s'' : σ} {e : ε} {es es' : List ε}

theorem single (h : step s e s') : Trace step s [e] s' := .cons h .refl

theorem trans (h : Trace step s es s') (h' : Trace step s' es' s'') :
    Trace step s (es ++ es') s'' := by
  induction h with
  | refl => exact h'
  | cons hs _ ih => exact .cons hs (ih h')

theorem snoc (h : Trace step s es s') (hs : step s' e s'') : Trace step s (es ++ [e]) s'' :=
  h.trans (.single hs)

/-- A run of two lists of events stops between them. -/
theorem of_append (h : Trace step s (es ++ es') s'') :
    ∃ s', Trace step s es s' ∧ Trace step s' es' s'' := by
  induction es generalizing s with
  | nil => exact ⟨s, .refl, h⟩
  | cons e es ih =>
    cases h with
    | cons hs ht =>
      obtain ⟨s', h₁, h₂⟩ := ih ht
      exact ⟨s', .cons hs h₁, h₂⟩

theorem mono {step' : σ → ε → σ → Prop} (hm : ∀ s e s', step s e s' → step' s e s')
    (h : Trace step s es s') : Trace step' s es s' := by
  induction h with
  | refl => exact .refl
  | cons hs _ ih => exact .cons (hm _ _ _ hs) ih

/-- What every step preserves holds at the end of every run from where it holds. -/
theorem invariant {I : σ → Prop} (hI : ∀ s e s', I s → step s e s' → I s')
    (h : Trace step s es s') (hs : I s) : I s' := by
  induction h with
  | refl => exact hs
  | cons h₁ _ ih => exact ih (hI _ _ _ hs h₁)

/-- A value computed from the events alone stays related to the state. -/
theorem track {γ : Type} {R : σ → γ → Prop} {next : γ → ε → γ}
    (hR : ∀ s e s' g, R s g → step s e s' → R s' (next g e)) {g : γ}
    (h : Trace step s es s') (hs : R s g) : R s' (es.foldl next g) := by
  induction h generalizing g with
  | refl => exact hs
  | cons h₁ _ ih => exact ih (hR _ _ _ _ hs h₁)

/-- The state stays related to the events so far. -/
theorem history {R : σ → List ε → Prop}
    (hR : ∀ s e s' past, R s past → step s e s' → R s' (past ++ [e]))
    (h : Trace step s es s') (hs : R s []) : R s' es := by
  have hpast : ∀ past, R s past → R s' (past ++ es) := by
    clear hs
    induction h with
    | refl =>
      intro past hp
      rw [List.append_nil]
      exact hp
    | @cons s s' s'' e es h₁ _ ih =>
      intro past hp
      rw [List.append_cons past e es]
      exact ih _ (hR _ _ _ _ hp h₁)
  exact hpast [] hs

/-- Every event that `P` counts takes something from a measure that no step raises, so a run has no
more of them than the measure has at its start. -/
theorem countP_le {I : σ → Prop} {P : ε → Bool} {m : σ → Nat}
    (hI : ∀ s e s', I s → step s e s' → I s')
    (hlt : ∀ s e s', P e = true → I s → step s e s' → m s' < m s)
    (hle : ∀ s e s', P e = false → I s → step s e s' → m s' ≤ m s)
    (h : Trace step s es s') (hs : I s) : es.countP P + m s' ≤ m s := by
  induction h with
  | refl =>
    rw [List.countP_nil]
    omega
  | cons h₁ _ ih =>
    have hrest := ih (hI _ _ _ hs h₁)
    rw [List.countP_cons]
    split
    · have hless := hlt _ _ _ ‹_› hs h₁
      omega
    · have hless := hle _ _ _ (Bool.eq_false_iff.mpr ‹_›) hs h₁
      omega

/-- As long as `F` does not hold, some step takes from the measure. Then a run gets to `F`, in no
more steps than the measure has at its start. -/
theorem completes {I F : σ → Prop} {m : σ → Nat} (hI : ∀ s e s', I s → step s e s' → I s')
    (hgo : ∀ s, I s → ¬F s → ∃ e s', step s e s' ∧ m s' < m s) (hs : I s) :
    ∃ es s', Trace step s es s' ∧ F s' ∧ es.length ≤ m s := by
  generalize hn : m s = n
  induction n using Nat.strongRecOn generalizing s with
  | ind n ih =>
    by_cases hF : F s
    · exact ⟨[], s, .refl, hF, Nat.zero_le n⟩
    · obtain ⟨e, s₁, hstep, hlt⟩ := hgo s hs hF
      obtain ⟨es, s', ht, hF', hle⟩ := ih (m s₁) (hn ▸ hlt) (hI _ _ _ hs hstep) rfl
      refine ⟨e :: es, s', .cons hstep ht, hF', ?_⟩
      rw [List.length_cons]
      omega

/-- Every step is simulated by a step of `step'` with the same event, so every run is. -/
theorem refines {step' : τ → ε → τ → Prop} {R : σ → τ → Prop}
    (hR : ∀ s e s' t, R s t → step s e s' → ∃ t', step' t e t' ∧ R s' t') {t : τ}
    (h : Trace step s es s') (hs : R s t) : ∃ t', Trace step' t es t' ∧ R s' t' := by
  induction h generalizing t with
  | refl => exact ⟨t, .refl, hs⟩
  | cons h₁ _ ih =>
    obtain ⟨t₁, ht₁, hr₁⟩ := hR _ _ _ _ hs h₁
    obtain ⟨t₂, ht₂, hr₂⟩ := ih hr₁
    exact ⟨t₂, .cons ht₁ ht₂, hr₂⟩

/-- Every step is simulated by a run of `step'`, which may be empty, so every run is. `L` relates a
step's event to the events that simulate it. -/
theorem simulates {ε' : Type} {step' : τ → ε' → τ → Prop} {R : σ → τ → Prop}
    {L : ε → List ε' → Prop}
    (hR : ∀ s e s' t, R s t → step s e s' →
      ∃ segment t', L e segment ∧ Trace step' t segment t' ∧ R s' t') {t : τ}
    (h : Trace step s es s') (hs : R s t) :
    ∃ segments t', List.Forall₂ L es segments ∧ Trace step' t segments.flatten t' ∧ R s' t' := by
  induction h generalizing t with
  | refl => exact ⟨[], t, .nil, .refl, hs⟩
  | cons h₁ _ ih =>
    obtain ⟨segment, t₁, hl, ht₁, hr₁⟩ := hR _ _ _ _ hs h₁
    obtain ⟨segments, t₂, hls, ht₂, hr₂⟩ := ih hr₁
    exact ⟨segment :: segments, t₂, .cons hl hls, ht₁.trans ht₂, hr₂⟩

/-- The states that some run from an initial state ends in. -/
def Reached {σ ε : Type} (init : σ → Prop) (step : σ → ε → σ → Prop) (s : σ) : Prop :=
  ∃ s₀ es, init s₀ ∧ Trace step s₀ es s

/-- The state after the moves, when each of them is allowed and can be made. -/
def schedule {μ : Type} (move : σ → μ → Option σ) (allowed : σ → μ → Bool) (s : σ) :
    List μ → Option σ
  | [] => some s
  | m :: rest =>
    if allowed s m then
      match move s m with
      | none => none
      | some s => schedule move allowed s rest
    else none

namespace Reached

variable {init : σ → Prop}

theorem of_init (h : init s) : Reached init step s := ⟨s, [], h, .refl⟩

theorem trace (h : Reached init step s) (ht : Trace step s es s') : Reached init step s' := by
  obtain ⟨s₀, es₀, h₀, ht₀⟩ := h
  exact ⟨s₀, es₀ ++ es, h₀, ht₀.trans ht⟩

theorem next (h : Reached init step s) (hs : step s e s') : Reached init step s' :=
  h.trace (.single hs)

theorem mono {step' : σ → ε → σ → Prop} (hm : ∀ s e s', step s e s' → step' s e s')
    (h : Reached init step s) : Reached init step' s := by
  obtain ⟨s₀, es, h₀, ht⟩ := h
  exact ⟨s₀, es, h₀, ht.mono hm⟩

theorem invariant {I : σ → Prop} (h₀ : ∀ s, init s → I s)
    (hI : ∀ s e s', I s → step s e s' → I s') (h : Reached init step s) : I s := by
  obtain ⟨s₀, es, hs₀, ht⟩ := h
  exact ht.invariant hI (h₀ s₀ hs₀)

/-- Allowed moves are steps, so a schedule of them is a run. -/
theorem schedule {μ : Type} {move : σ → μ → Option σ} {allowed : σ → μ → Bool} {ms : List μ}
    (hm : ∀ s m s', Reached init step s → allowed s m = true → move s m = some s' →
      ∃ e, step s e s') (h : Reached init step s)
    (hs : Trace.schedule move allowed s ms = some s') : Reached init step s' := by
  induction ms generalizing s with
  | nil =>
    cases hs
    exact h
  | cons m rest ih =>
    simp only [Trace.schedule] at hs
    split at hs
    · rename_i ha
      split at hs
      · cases hs
      · rename_i hmove
        obtain ⟨e, he⟩ := hm _ _ _ h ha hmove
        exact ih (h.next he) hs
    · cases hs

end Reached

end Trace
