import HwoodiwissHelper.Library.Transition
import Mathlib.Logic.Function.Basic

/-!
# Threads over a shared state

Every thread has a state of its own, and an event lets one of them act on it and on the shared
state. An outline says what holds of the shared state and of each thread: a thread that acts keeps
it for itself, and does not interfere with the others. `Outline.run` is the rule for every
interleaving whose actions meet a condition.
-/

namespace Threads

open Transition

structure Config (ι σ τ : Type) where
  shared : σ
  threads : ι → τ

variable {ι σ τ ε : Type} [DecidableEq ι] (act : ε → σ → τ → Option (σ × τ))

/-- An action that is not enabled stops the run. -/
def step (c : Config ι σ τ) (e : ι × ε) : Except Unit (Config ι σ τ) :=
  match act e.2 c.shared (c.threads e.1) with
  | none => .error ()
  | some (shared, thread) => .ok ⟨shared, Function.update c.threads e.1 thread⟩

variable {act}

theorem step_eq_ok {c c' : Config ι σ τ} {e : ι × ε} (h : step act c e = .ok c') :
    ∃ shared thread, act e.2 c.shared (c.threads e.1) = some (shared, thread) ∧
      c' = ⟨shared, Function.update c.threads e.1 thread⟩ := by
  unfold step at h
  split at h
  · cases h
  next shared thread hact =>
    cases h
    exact ⟨shared, thread, hact, rfl⟩

/-- The shared state satisfies `I`, and every thread satisfies its `J` with it. -/
structure Config.Holds (I : σ → Prop) (J : ι → σ → τ → Prop) (c : Config ι σ τ) : Prop where
  shared : I c.shared
  thread : ∀ i, J i c.shared (c.threads i)

variable (act) in
/-- Actions that meet `P` keep `I` and their own `J`, and interfere with no other `J`. -/
structure Outline (P : ε → σ → τ → Prop) (I : σ → Prop) (J : ι → σ → τ → Prop) : Prop where
  own : ∀ {i e s t s' t'}, P e s t → I s → J i s t → act e s t = some (s', t') →
    I s' ∧ J i s' t'
  other : ∀ {i j e s t s' t' u}, P e s t → I s → J i s t → J j s u →
    act e s t = some (s', t') → J j s' u

variable {P : ε → σ → τ → Prop} {I : σ → Prop} {J : ι → σ → τ → Prop}

theorem Outline.step (h : Outline act P I J) {c c' : Config ι σ τ} (hc : c.Holds I J)
    {e : ι × ε} (hP : P e.2 c.shared (c.threads e.1)) (he : Threads.step act c e = .ok c') :
    c'.Holds I J := by
  obtain ⟨shared, thread, hact, rfl⟩ := step_eq_ok he
  have hmine := hc.thread e.1
  obtain ⟨hshared, hthread⟩ := h.own hP hc.shared hmine hact
  refine ⟨hshared, ?_⟩
  intro i
  change J i shared (Function.update c.threads e.1 thread i)
  by_cases hi : i = e.1
  · rw [hi, Function.update_self]
    exact hthread
  · rw [Function.update_of_ne hi]
    exact h.other hP hc.shared hmine (hc.thread i) hact

/-- Every action of a run meets a condition on the states that it finds. -/
abbrev AlongThreads (act : ε → σ → τ → Option (σ × τ)) (P : ε → σ → τ → Prop) :
    Config ι σ τ → List (ι × ε) → Prop :=
  Along (Threads.step act) fun c e => P e.2 c.shared (c.threads e.1)

/-- An outline holds after every interleaving. -/
theorem Outline.run (h : Outline act P I J) {c c' : Config ι σ τ} (hc : c.Holds I J)
    {events : List (ι × ε)} (hP : AlongThreads act P c events)
    (hr : Transition.run (Threads.step act) c events = .ok c') : c'.Holds I J := by
  induction events generalizing c with
  | nil =>
    cases hr
    exact hc
  | cons e events ih =>
    obtain ⟨c₁, he, hr⟩ := (run_cons_eq_ok _).mp hr
    obtain ⟨hfirst, hrest⟩ := hP c₁ he
    exact ih (h.step hc hfirst he) hrest hr

omit [DecidableEq ι] in
theorem Outline.comap {δ : Type} (h : Outline act P I J) (f : δ → ε) :
    Outline (fun d => act (f d)) (fun d => P (f d)) I J where
  own hP hs ht hact := h.own hP hs ht hact
  other hP hs ht hu hact := h.other hP hs ht hu hact

theorem alongThreads_of_mem {c : Config ι σ τ} {events : List (ι × ε)}
    (h : ∀ e ∈ events, ∀ s t, P e.2 s t) : AlongThreads act P c events := by
  induction events generalizing c with
  | nil => trivial
  | cons e events ih =>
    intro c₁ he
    exact ⟨h e List.mem_cons_self _ _, ih fun e' he' => h e' (List.mem_cons_of_mem e he')⟩

variable (act) in
/-- The actions of one thread in a row. -/
def runThread (s : σ) (t : τ) : List ε → Option (σ × τ)
  | [] => some (s, t)
  | e :: events => (act e s t).bind fun next => runThread next.1 next.2 events

theorem run_alone {c : Config ι σ τ} {i : ι} {events : List ε} {s : σ} {t : τ}
    (h : runThread act c.shared (c.threads i) events = some (s, t)) :
    Transition.run (step act) c (events.map (i, ·)) =
      .ok ⟨s, Function.update c.threads i t⟩ := by
  induction events generalizing c with
  | nil =>
    obtain ⟨rfl, rfl⟩ := Prod.mk.inj (Option.some.inj h)
    rw [Function.update_eq_self]
    rfl
  | cons e events ih =>
    obtain ⟨⟨s₁, t₁⟩, hact, hrest⟩ := Option.bind_eq_some_iff.mp h
    have hstep : step act c (i, e) = .ok ⟨s₁, Function.update c.threads i t₁⟩ := by
      simp only [step, hact]
    have hc := ih (c := ⟨s₁, Function.update c.threads i t₁⟩) (by simpa using hrest)
    rw [List.map_cons, run_cons, hstep, ok_bind, hc, Function.update_idem]

end Threads
