import Mathlib.Data.List.Basic

/-!
# Code that throws and keeps what it did

A computation has a state and may throw; the state then stays as it was when it threw. `wp m Q s`
says that `m`, started in `s`, ends with a result and a state that satisfy `Q`, whether it returns
or throws. The rules follow the constructs of such code, and `wp_mono` is the rule of consequence.
-/

namespace Throwing

abbrev Code (σ φ : Type) := ExceptT φ (StateM σ)

variable {σ τ φ α β : Type}

/-- The result of a computation and the state after it. -/
def eval (m : Code σ φ α) (s : σ) : Except φ α × σ := m.run.run s

def wp (m : Code σ φ α) (Q : Except φ α → σ → Prop) (s : σ) : Prop :=
  Q (eval m s).1 (eval m s).2

theorem wp_of_eval {m : Code σ φ α} {s t : σ} {r : Except φ α} (h : eval m s = (r, t))
    (Q : Except φ α → σ → Prop) : wp m Q s ↔ Q r t := by
  rw [wp, h]

theorem wp_mono {m : Code σ φ α} {Q R : Except φ α → σ → Prop} {s : σ} (h : wp m Q s)
    (hQR : ∀ r t, Q r t → R r t) : wp m R s := hQR _ _ h

def Then (k : α → Code σ φ β) (Q : Except φ β → σ → Prop) : Except φ α → σ → Prop
  | .ok a, s => wp (k a) Q s
  | .error e, s => Q (.error e) s

@[simp] theorem then_ok (k : α → Code σ φ β) (Q : Except φ β → σ → Prop) (a : α) (s : σ) :
    Then k Q (.ok a) s ↔ wp (k a) Q s := Iff.rfl

@[simp] theorem then_error (k : α → Code σ φ β) (Q : Except φ β → σ → Prop) (e : φ) (s : σ) :
    Then k Q (.error e) s ↔ Q (.error e) s := Iff.rfl

@[simp] theorem wp_pure (a : α) (Q : Except φ α → σ → Prop) (s : σ) :
    wp (pure a) Q s ↔ Q (.ok a) s := Iff.rfl

@[simp] theorem wp_throw (e : φ) (Q : Except φ α → σ → Prop) (s : σ) :
    wp (throw e) Q s ↔ Q (.error e) s := Iff.rfl

theorem eval_bind (m : Code σ φ α) (k : α → Code σ φ β) (s : σ) :
    eval (m >>= k) s =
      match eval m s with
      | (.ok a, t) => eval (k a) t
      | (.error e, t) => (.error e, t) := by
  simp only [eval, ExceptT.run_bind, StateT.run_bind]
  rcases m.run.run s with ⟨e | a, t⟩ <;> rfl

theorem eval_get_bind (k : σ → Code σ φ β) (s : σ) : eval (get >>= k) s = eval (k s) s := by
  rw [eval_bind]
  rfl

theorem eval_bind_ok {m : Code σ φ α} {s t : σ} {a : α} (h : eval m s = (.ok a, t))
    (k : α → Code σ φ β) : eval (m >>= k) s = eval (k a) t := by
  rw [eval_bind, h]

theorem eval_bind_error {m : Code σ φ α} {s t : σ} {e : φ} (h : eval m s = (.error e, t))
    (k : α → Code σ φ β) : eval (m >>= k) s = (.error e, t) := by
  rw [eval_bind, h]

@[simp] theorem wp_bind (m : Code σ φ α) (k : α → Code σ φ β) (Q : Except φ β → σ → Prop)
    (s : σ) : wp (m >>= k) Q s ↔ wp m (Then k Q) s := by
  rw [wp, eval_bind, wp]
  rcases eval m s with ⟨e | a, t⟩ <;> rfl

@[simp] theorem wp_get (Q : Except φ σ → σ → Prop) (s : σ) :
    wp (get : Code σ φ σ) Q s ↔ Q (.ok s) s := Iff.rfl

@[simp] theorem wp_modify (f : σ → σ) (Q : Except φ Unit → σ → Prop) (s : σ) :
    wp (modify f : Code σ φ Unit) Q s ↔ Q (.ok ()) (f s) := Iff.rfl

@[simp] theorem wp_ofExcept (r : Except φ α) (Q : Except φ α → σ → Prop) (s : σ) :
    wp (ofExcept r : Code σ φ α) Q s ↔ Q r s := by
  cases r <;> rfl

def Caught (handler : φ → Code σ φ α) (Q : Except φ α → σ → Prop) : Except φ α → σ → Prop
  | .ok a, s => Q (.ok a) s
  | .error e, s => wp (handler e) Q s

@[simp] theorem caught_ok (handler : φ → Code σ φ α) (Q : Except φ α → σ → Prop) (a : α)
    (s : σ) : Caught handler Q (.ok a) s ↔ Q (.ok a) s := Iff.rfl

@[simp] theorem caught_error (handler : φ → Code σ φ α) (Q : Except φ α → σ → Prop) (e : φ)
    (s : σ) : Caught handler Q (.error e) s ↔ wp (handler e) Q s := Iff.rfl

@[simp] theorem wp_tryCatch (m : Code σ φ α) (handler : φ → Code σ φ α)
    (Q : Except φ α → σ → Prop) (s : σ) :
    wp (tryCatch m handler) Q s ↔ wp m (Caught handler Q) s := by
  have heval : eval (tryCatch m handler) s =
      match eval m s with
      | (.ok a, t) => (.ok a, t)
      | (.error e, t) => eval (handler e) t := by
    simp only [eval, tryCatch, tryCatchThe, MonadExceptOf.tryCatch, ExceptT.tryCatch,
      ExceptT.run, ExceptT.mk, StateT.run_bind]
    rcases StateT.run m s with ⟨e | a, t⟩ <;> rfl
  rw [wp, heval, wp]
  rcases eval m s with ⟨e | a, t⟩ <;> rfl

/-- The state is the same afterwards, whether the code returns or throws. -/
def Silent (m : Code σ φ α) : Prop := ∀ s, wp m (fun _ t => t = s) s

theorem silent_pure (a : α) : Silent (pure a : Code σ φ α) := fun _ => rfl

theorem silent_throw (e : φ) : Silent (throw e : Code σ φ α) := fun _ => rfl

theorem Silent.bind {m : Code σ φ α} {k : α → Code σ φ β} (hm : Silent m)
    (hk : ∀ a, Silent (k a)) : Silent (m >>= k) := by
  intro s
  rw [Throwing.wp_bind]
  apply wp_mono (hm s)
  rintro r t rfl
  cases r with
  | ok a => exact hk a _
  | error e => rfl

theorem Silent.wp_bind {m : Code σ φ α} (hm : Silent m) {k : α → Code σ φ β}
    {Q : Except φ β → σ → Prop} {s : σ} (hthrow : ∀ e, Q (.error e) s)
    (hk : ∀ a, wp (k a) Q s) : wp (m >>= k) Q s := by
  rw [Throwing.wp_bind]
  apply wp_mono (hm s)
  rintro r t rfl
  cases r with
  | ok a => exact hk a
  | error e => exact hthrow e

/-- The invariant holds afterwards, whether the code returns or throws. -/
def Keeps (I : σ → Prop) (m : Code σ φ α) : Prop := ∀ s, I s → wp m (fun _ t => I t) s

section Keeps

variable {I : σ → Prop}

theorem Silent.keeps {m : Code σ φ α} (hm : Silent m) : Keeps I m := by
  intro s hs
  apply wp_mono (hm s)
  rintro _ t rfl
  exact hs

theorem keeps_modify {f : σ → σ} (hf : ∀ s, I s → I (f s)) : Keeps I (modify f : Code σ φ Unit) :=
  hf

theorem Keeps.bind {m : Code σ φ α} {k : α → Code σ φ β} (hm : Keeps I m)
    (hk : ∀ a, Keeps I (k a)) : Keeps I (m >>= k) := by
  intro s hs
  rw [Throwing.wp_bind]
  apply wp_mono (hm s hs)
  intro r t ht
  cases r with
  | ok a => exact hk a t ht
  | error e => exact ht

theorem Keeps.tryCatch {m : Code σ φ α} {handler : φ → Code σ φ α} (hm : Keeps I m)
    (hhandler : ∀ e, Keeps I (handler e)) : Keeps I (tryCatch m handler) := by
  intro s hs
  rw [wp_tryCatch]
  apply wp_mono (hm s hs)
  intro r t ht
  cases r with
  | ok a => exact ht
  | error e => exact hhandler e t ht

end Keeps

/-- The code returns a value exactly when the condition holds. -/
def ReturnsIff (m : Code σ φ β) (s : σ) (b : β) (P : Prop) : Prop :=
  wp m (fun r _ => r = .ok b ↔ P) s

section ReturnsIff

variable {m : Code σ φ α} {s t : σ} {a : α} {b : β} {P Q : Prop}

theorem ReturnsIff.congr (h : ReturnsIff m s a P) (hPQ : P ↔ Q) : ReturnsIff m s a Q :=
  wp_mono h fun _ _ hr => hr.trans hPQ

theorem returnsIff_pure (a : α) (s : σ) : ReturnsIff (pure a : Code σ φ α) s a True :=
  iff_of_true rfl trivial

theorem returnsIff_throw (e : φ) (a : α) (s : σ) : ReturnsIff (throw e : Code σ φ α) s a False :=
  iff_of_false nofun id

theorem returnsIff_bind_of_eval {k : α → Code σ φ β} (h : eval m s = (.ok a, t))
    (hk : ReturnsIff (k a) t b P) : ReturnsIff (m >>= k) s b P := by
  rw [ReturnsIff, wp_of_eval (eval_bind_ok h k)]
  exact hk

theorem ReturnsIff.bind {m : Code σ φ Unit} {k : Unit → Code σ φ β} (hm : Silent m)
    (h : ReturnsIff m s () P) (hk : ReturnsIff (k ()) s b Q) :
    ReturnsIff (m >>= k) s b (P ∧ Q) := by
  rcases heval : eval m s with ⟨e | _, t⟩
  · have hP : ¬ P := mt ((wp_of_eval heval _).mp h).mpr (by simp)
    rw [ReturnsIff, wp_of_eval (eval_bind_error heval k)]
    exact iff_of_false (by simp) fun hPQ => hP hPQ.1
  · obtain rfl : t = s := (wp_of_eval heval _).mp (hm s)
    have hP : P := ((wp_of_eval heval _).mp h).mp rfl
    exact (returnsIff_bind_of_eval heval hk).congr (and_iff_right hP).symm

theorem ReturnsIff.andThen {m : Code σ φ Unit} (h : ReturnsIff m s () P) (b : β) :
    ReturnsIff (m >>= fun _ => pure b) s b P := by
  rcases heval : eval m s with ⟨e | _, t⟩
  · have hP : ¬ P := mt ((wp_of_eval heval _).mp h).mpr (by simp)
    rw [ReturnsIff, wp_of_eval (eval_bind_error heval _)]
    exact iff_of_false (by simp) hP
  · have hP : P := ((wp_of_eval heval _).mp h).mp rfl
    exact (returnsIff_bind_of_eval heval (returnsIff_pure b t)).congr (iff_of_true trivial hP)

end ReturnsIff

/-- A part of the state with a computation of its own. -/
def onPart (get : σ → τ) (put : τ → σ → σ) (m : τ → Except φ α × τ) : Code σ φ α :=
  ExceptT.mk fun s => ((m (get s)).1, put (m (get s)).2 s)

theorem eval_onPart (get : σ → τ) (put : τ → σ → σ) (m : τ → Except φ α × τ) (s : σ) :
    eval (onPart get put m) s = ((m (get s)).1, put (m (get s)).2 s) := rfl

@[simp] theorem wp_onPart (get : σ → τ) (put : τ → σ → σ) (m : τ → Except φ α × τ)
    (Q : Except φ α → σ → Prop) (s : σ) :
    wp (onPart get put m) Q s ↔ Q (m (get s)).1 (put (m (get s)).2 s) := Iff.rfl

end Throwing
