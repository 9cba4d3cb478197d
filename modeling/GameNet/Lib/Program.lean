/-!
# GameNet.Lib.Program

Programs that talk to their environment. A program is done, or has failed, or makes a call and
goes on with the answer; what a call does is left to whoever runs it. So one text of a program can
be run alone, stopped between any two calls, or interleaved with others.

A `Contract` says which calls are allowed and what an answer teaches, over any type `γ` of what is
known. `Obeys` is the weakest precondition: every call the program makes is allowed, whatever
answers it gets, and its result satisfies the postcondition. The rules follow the program text:
`obeys_bind` cuts a program at any point, `Obeys.answer` is one step of a run, `Obeys.transfer` goes
over to another contract, and `Obeys.handle` replaces the calls by the programs that carry them out.
-/

/-- Calls `C`, of which `c` is answered in `A c`; errors `ε`; results `α`. -/
inductive Program (C : Type) (A : C → Type) (ε α : Type) where
  | pure (a : α)
  | fail (e : ε)
  | call (c : C) (k : A c → Program C A ε α)

namespace Program

variable {C : Type} {A : C → Type} {ε α β γ : Type}

def bind : Program C A ε α → (α → Program C A ε β) → Program C A ε β
  | .pure a, f => f a
  | .fail e, _ => .fail e
  | .call c k, f => .call c fun a => (k a).bind f

instance : Monad (Program C A ε) where
  pure := .pure
  bind := .bind

/-- One call. -/
def perform (c : C) : Program C A ε (A c) := .call c .pure

/-- The program with its failure as a result. -/
def attempt : Program C A ε α → Program C A ε (Except ε α)
  | .pure a => .pure (.ok a)
  | .fail e => .pure (.error e)
  | .call c k => .call c fun a => (k a).attempt

/-- The program with each call carried out by a program of its own, over other calls. -/
def handle {C' : Type} {A' : C' → Type} (h : (c : C) → Program C' A' ε (A c)) :
    Program C A ε α → Program C' A' ε α
  | .pure a => .pure a
  | .fail e => .fail e
  | .call c k => (h c).bind fun a => (k a).handle h

/-- The call the program is about to make. -/
def pending? : Program C A ε α → Option C
  | .call c _ => some c
  | _ => none

theorem pending?_eq_some {p : Program C A ε α} {c : C} (h : p.pending? = some c) :
    ∃ k, p = .call c k := by
  cases p with
  | pure a => cases h
  | fail e => cases h
  | call c' k =>
    cases h
    exact ⟨k, rfl⟩

theorem bind_assoc {p : Program C A ε α} {f : α → Program C A ε β} {g : β → Program C A ε γ} :
    (p.bind f).bind g = p.bind fun a => (f a).bind g := by
  induction p with
  | pure a => rfl
  | fail e => rfl
  | call c k ih =>
    simp only [bind, ih]

/-- What the program has returned. -/
def result? : Program C A ε α → Option α
  | .pure a => some a
  | _ => none

theorem result?_eq_some {p : Program C A ε α} {a : α} (h : p.result? = some a) : p = .pure a := by
  cases p with
  | pure a' =>
    cases h
    rfl
  | fail e => cases h
  | call c k => cases h

/-- The program returns `a` for some answers, and makes only calls that satisfy `ok` on its way. -/
inductive Returns (ok : C → Prop) : Program C A ε α → α → Prop where
  | pure {a : α} : Returns ok (.pure a) a
  | call {c : C} {k : A c → Program C A ε α} {a : α} (answer : A c) :
      ok c → Returns ok (k answer) a → Returns ok (.call c k) a

theorem Returns.bind {ok : C → Prop} {p : Program C A ε α} {f : α → Program C A ε β} {a : α} {b : β}
    (h : p.Returns ok a) (hf : (f a).Returns ok b) : (p >>= f).Returns ok b := by
  induction h with
  | pure => exact hf
  | call answer hok _ ih => exact .call answer hok (ih hf)

/-! ## Contracts -/

structure Contract (C : Type) (A : C → Type) (γ : Type) where
  allowed : γ → C → Prop
  /-- What may be known after an answer. -/
  next : γ → (c : C) → A c → γ → Prop

variable {K : Contract C A γ} {Q Q' : α → γ → Prop} {E E' : ε → γ → Prop} {g : γ}
  {p : Program C A ε α} {f : α → Program C A ε β}

/-- Every call is allowed, results satisfy `Q` and failures `E`. -/
def Obeys (K : Contract C A γ) (Q : α → γ → Prop) (E : ε → γ → Prop) :
    Program C A ε α → γ → Prop
  | .pure a, g => Q a g
  | .fail e, g => E e g
  | .call c k, g => K.allowed g c ∧ ∀ a g', K.next g c a g' → (k a).Obeys K Q E g'

@[simp] theorem obeys_pure {a : α} :
    (Pure.pure a : Program C A ε α).Obeys K Q E g ↔ Q a g := Iff.rfl

@[simp] theorem obeys_fail {e : ε} :
    (.fail e : Program C A ε α).Obeys K Q E g ↔ E e g := Iff.rfl

theorem obeys_call {c : C} {k : A c → Program C A ε α} :
    (.call c k : Program C A ε α).Obeys K Q E g ↔
      K.allowed g c ∧ ∀ a g', K.next g c a g' → (k a).Obeys K Q E g' := Iff.rfl

@[simp] theorem obeys_perform {c : C} {Q : A c → γ → Prop} :
    (perform c : Program C A ε (A c)).Obeys K Q E g ↔
      K.allowed g c ∧ ∀ a g', K.next g c a g' → Q a g' := Iff.rfl

/-- A program obeys at a sequence when its first part leads to where the second part obeys. -/
@[simp] theorem obeys_bind {Q : β → γ → Prop} :
    (p >>= f).Obeys K Q E g ↔ p.Obeys K (fun a g => (f a).Obeys K Q E g) E g := by
  change (p.bind f).Obeys K Q E g ↔ _
  induction p generalizing g with
  | pure a => exact Iff.rfl
  | fail e => exact Iff.rfl
  | call c k ih =>
    simp only [bind, obeys_call, ih]

@[simp] theorem obeys_attempt {Q : Except ε α → γ → Prop} :
    p.attempt.Obeys K Q E g ↔
      p.Obeys K (fun a g => Q (.ok a) g) (fun e g => Q (.error e) g) g := by
  induction p generalizing g with
  | pure a => exact Iff.rfl
  | fail e => exact Iff.rfl
  | call c k ih =>
    simp only [attempt, obeys_call, ih]

theorem Obeys.mono (hQ : ∀ a g, Q a g → Q' a g) (hE : ∀ e g, E e g → E' e g)
    (h : p.Obeys K Q E g) : p.Obeys K Q' E' g := by
  induction p generalizing g with
  | pure a => exact hQ a g h
  | fail e => exact hE e g h
  | call c k ih => exact ⟨h.1, fun a g' hn => ih a (h.2 a g' hn)⟩

/-- A handler that does for each call what its contract says, over more that is known, does so for
every program. -/
theorem Obeys.handle {C' : Type} {A' : C' → Type} {γ' : Type} {K' : Contract C' A' γ'}
    {h : (c : C) → Program C' A' ε (A c)} (view : γ' → γ)
    (hh : ∀ c g, K.allowed (view g) c →
      (h c).Obeys K' (fun a g' => K.next (view g) c a (view g')) (fun e g' => E e (view g')) g)
    {g : γ'} (hp : p.Obeys K Q E (view g)) :
    (p.handle h).Obeys K' (fun a g => Q a (view g)) (fun e g => E e (view g)) g := by
  induction p generalizing g with
  | pure a => exact hp
  | fail e => exact hp
  | call c k ih =>
    refine obeys_bind.mpr ((hh c g hp.1).mono ?_ fun _ _ he => he)
    intro a g' hn
    exact ih a (hp.2 a _ hn)

/-- A program that obeys a contract obeys every contract that `R` relates to it: what is allowed by
the one is allowed by the other, and what the other teaches the one teaches too. -/
theorem Obeys.transfer {γ' : Type} {L : Contract C A γ'} {R : γ → γ' → Prop}
    (hallowed : ∀ g g' c, R g g' → K.allowed g c → L.allowed g' c)
    (hnext : ∀ g g' c a g₁', R g g' → K.allowed g c → L.next g' c a g₁' →
      ∃ g₁, K.next g c a g₁ ∧ R g₁ g₁')
    (hp : p.Obeys K Q E g) {g' : γ'} (hr : R g g') :
    p.Obeys L (fun a g' => ∃ g, Q a g ∧ R g g') (fun e g' => ∃ g, E e g ∧ R g g') g' := by
  induction p generalizing g g' with
  | pure a => exact ⟨g, hp, hr⟩
  | fail e => exact ⟨g, hp, hr⟩
  | call c k ih =>
    refine ⟨hallowed g g' c hr hp.1, fun a g₁' hn' => ?_⟩
    obtain ⟨g₁, hn, hr₁⟩ := hnext g g' c a g₁' hr hp.1 hn'
    exact ih a (hp.2 a g₁ hn) hr₁

/-- One step of a run: the call is allowed, and the rest obeys after any answer. -/
theorem Obeys.answer {c : C} {k : A c → Program C A ε α} {a : A c} {g' : γ}
    (h : (Program.call c k : Program C A ε α).Obeys K Q E g) (hn : K.next g c a g') :
    (k a).Obeys K Q E g' := h.2 a g' hn

end Program
