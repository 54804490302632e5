import Mathlib.Data.List.Basic

/-!
# Runs of a system that may stop with a fault

A system is a step function `σ → ε → Except φ σ`. A run folds it over a list of events and
stops at the first fault. `run_invariant` is the induction rule for what every step preserves,
and `always_iff_along` the one for what a step preserves under a condition.
-/

namespace Transition

universe u

section Except

variable {φ : Type*} {α β : Type u}

theorem bind_eq_ok {x : Except φ α} {f : α → Except φ β} {b : β} :
    x >>= f = .ok b ↔ ∃ a, x = .ok a ∧ f a = .ok b := by
  cases x with
  | error e => simp [bind, Except.bind]
  | ok a => simp [bind, Except.bind]

@[simp] theorem map_eq_ok {x : Except φ α} {f : α → β} {b : β} :
    f <$> x = .ok b ↔ ∃ a, x = .ok a ∧ f a = b := by
  cases x with
  | error e => simp [Functor.map, Except.map]
  | ok a => simp [Functor.map, Except.map]

@[simp] theorem ok_bind (a : α) (f : α → Except φ β) : (Except.ok a >>= f) = f a := rfl

end Except

variable {σ τ ε φ : Type*} (step : σ → ε → Except φ σ)

/-- The state after a list of events, unless one of them faults. -/
def run (s : σ) (events : List ε) : Except φ σ := events.foldlM step s

theorem run_cons (s : σ) (e : ε) (events : List ε) :
    run step s (e :: events) = step s e >>= fun s' => run step s' events := by
  simp [run]

theorem run_cons_eq_ok {s t : σ} {e : ε} {events : List ε} :
    run step s (e :: events) = .ok t ↔ ∃ s', step s e = .ok s' ∧ run step s' events = .ok t := by
  rw [run_cons, bind_eq_ok]

theorem run_append (s : σ) (first second : List ε) :
    run step s (first ++ second) = run step s first >>= fun s' => run step s' second :=
  List.foldlM_append

variable {step}

/-- What every step preserves holds after every run. -/
theorem run_invariant {I : σ → Prop} (hstep : ∀ s e s', I s → step s e = .ok s' → I s')
    {s t : σ} {events : List ε} (hs : I s) (h : run step s events = .ok t) : I t := by
  induction events generalizing s with
  | nil => cases h; exact hs
  | cons e events ih =>
    obtain ⟨s', he, h⟩ := (run_cons_eq_ok step).mp h
    have hs' : I s' := hstep s e s' hs he
    exact ih hs' h

theorem run_fixed {s : σ} {events : List ε} (h : ∀ e ∈ events, step s e = .ok s) :
    run step s events = .ok s := by
  induction events with
  | nil => rfl
  | cons e events ih =>
    obtain ⟨he, hrest⟩ := List.forall_mem_cons.mp h
    rw [run_cons, he]
    exact ih hrest

variable (step) in
theorem run_of_eval (s : σ) (events : List ε) (p : σ → Bool)
    (h : (run step s events).toOption.map p = some true) :
    ∃ t, run step s events = .ok t ∧ p t = true := by
  cases hr : run step s events with
  | error e => simp [hr, Except.toOption] at h
  | ok t => exact ⟨t, rfl, by simpa [hr, Except.toOption] using h⟩

variable (step) in
theorem exists_of_run {I : σ → Prop} (hstep : ∀ s e s', I s → step s e = .ok s' → I s') {s : σ}
    (hs : I s) (events : List ε) (p : σ → Bool)
    (h : (run step s events).toOption.map p = some true) : ∃ t, I t ∧ p t = true := by
  obtain ⟨t, hr, hp⟩ := run_of_eval step s events p h
  exact ⟨t, run_invariant hstep hs hr, hp⟩

variable (step) in
/-- Every state of a run has a property, the first and the last one included. -/
def Always (Q : σ → Prop) : σ → List ε → Prop
  | s, [] => Q s
  | s, e :: events => Q s ∧ ∀ s', step s e = .ok s' → Always Q s' events

variable (step) in
/-- Every step of a run meets a condition on the state before it and its event. -/
def Along (P : σ → ε → Prop) : σ → List ε → Prop
  | _, [] => True
  | s, e :: events => ∀ s', step s e = .ok s' → P s e ∧ Along P s' events

instance Along.decidable (P : σ → ε → Prop) [∀ s e, Decidable (P s e)] (s : σ) :
    (events : List ε) → Decidable (Along step P s events)
  | [] => isTrue trivial
  | e :: events =>
    match h : step s e with
    | .error _ => isTrue fun s' he => by
      rw [h] at he
      cases he
    | .ok s' =>
      haveI := Along.decidable P s' events
      decidable_of_iff (P s e ∧ Along step P s' events) <| by
        constructor
        · intro hp s'' he
          obtain rfl : s' = s'' := Except.ok.inj (h.symm.trans he)
          exact hp
        · exact fun hp => hp s' h

/-- When a step keeps a property exactly under a condition, a run keeps it exactly when all of
its steps meet the condition. -/
theorem always_iff_along {I Q : σ → Prop} {P : σ → ε → Prop}
    (hI : ∀ s e s', I s → step s e = .ok s' → I s')
    (hQ : ∀ s e s', I s → Q s → step s e = .ok s' → (Q s' ↔ P s e))
    {s : σ} (hs : I s) (hq : Q s) (events : List ε) :
    Always step Q s events ↔ Along step P s events := by
  induction events generalizing s with
  | nil => simp [Always, Along, hq]
  | cons e events ih =>
    have hfirst {s' : σ} (h : Always step Q s' events) : Q s' := by
      cases events with
      | nil => exact h
      | cons e' events => exact h.1
    constructor
    · intro h s' he
      have hrest : Always step Q s' events := h.2 s' he
      have hq' : Q s' := hfirst hrest
      have hp : P s e := (hQ s e s' hs hq he).mp hq'
      exact ⟨hp, (ih (hI s e s' hs he) hq').mp hrest⟩
    · intro h
      refine ⟨hq, ?_⟩
      intro s' he
      obtain ⟨hp, hrest⟩ := h s' he
      have hq' : Q s' := (hQ s e s' hs hq he).mpr hp
      exact (ih (hI s e s' hs he) hq').mpr hrest

theorem Along.imp {I : σ → Prop} {P P' : σ → ε → Prop}
    (hI : ∀ s e s', I s → P s e → step s e = .ok s' → I s')
    (hP : ∀ s e, I s → P s e → P' s e) {s : σ} (hs : I s) {events : List ε}
    (h : Along step P s events) : Along step P' s events := by
  induction events generalizing s with
  | nil => trivial
  | cons e events ih =>
    intro s' he
    obtain ⟨hp, hrest⟩ := h s' he
    have hs' : I s' := hI s e s' hs hp he
    exact ⟨hP s e hs hp, ih hs' hrest⟩

/-- What the steps that meet a condition preserve holds after every run of them. -/
theorem Along.invariant {I : σ → Prop} {P : σ → ε → Prop}
    (hI : ∀ s e s', I s → P s e → step s e = .ok s' → I s') {s t : σ} (hs : I s) {events : List ε}
    (h : Along step P s events) (hr : run step s events = .ok t) : I t := by
  induction events generalizing s with
  | nil => cases hr; exact hs
  | cons e events ih =>
    obtain ⟨s', he, hr⟩ := (run_cons_eq_ok step).mp hr
    obtain ⟨hp, hrest⟩ := h s' he
    have hs' : I s' := hI s e s' hs hp he
    exact ih hs' hrest hr

theorem Along.mem {P : σ → ε → Prop} {s : σ} {events : List ε} (h : Along step P s events) :
    Along step (fun s e => P s e ∧ e ∈ events) s events := by
  have hsub {all : List ε} (hall : ∀ e ∈ events, e ∈ all) :
      Along step (fun s e => P s e ∧ e ∈ all) s events := by
    induction events generalizing s with
    | nil => trivial
    | cons e events ih =>
      intro s' he
      obtain ⟨hp, hrest⟩ := h s' he
      obtain ⟨hmem, hall⟩ := List.forall_mem_cons.mp hall
      exact ⟨⟨hp, hmem⟩, ih hrest hall⟩
  exact hsub fun e he => he

theorem Along.last {P : σ → ε → Prop} {s t : σ} {events : List ε} {e : ε}
    (h : Along step P s (events ++ [e])) (hr : run step s (events ++ [e]) = .ok t) :
    ∃ s', step s' e = .ok t ∧ P s' e := by
  induction events generalizing s with
  | nil =>
    obtain ⟨s', he, hr⟩ := (run_cons_eq_ok step).mp hr
    cases hr
    exact ⟨s, he, (h t he).1⟩
  | cons e' events ih =>
    obtain ⟨s', he, hr⟩ := (run_cons_eq_ok step).mp hr
    exact ih (h s' he).2 hr

/-- Two conditions that say the same of every step under an invariant that they keep say the same
of a run. -/
theorem along_congr {I : σ → Prop} {P P' : σ → ε → Prop}
    (hI : ∀ s e s', I s → step s e = .ok s' → P s e → I s')
    (hP : ∀ s e s', I s → step s e = .ok s' → (P s e ↔ P' s e)) {s : σ} (hs : I s)
    (events : List ε) : Along step P s events ↔ Along step P' s events := by
  induction events generalizing s with
  | nil => exact Iff.rfl
  | cons e events ih =>
    constructor
    · intro h s' he
      obtain ⟨hp, hrest⟩ := h s' he
      have hs' : I s' := hI s e s' hs he hp
      exact ⟨(hP s e s' hs he).mp hp, (ih hs').mp hrest⟩
    · intro h s' he
      obtain ⟨hp', hrest⟩ := h s' he
      have hp : P s e := (hP s e s' hs he).mpr hp'
      have hs' : I s' := hI s e s' hs he hp
      exact ⟨hp, (ih hs').mpr hrest⟩

end Transition
