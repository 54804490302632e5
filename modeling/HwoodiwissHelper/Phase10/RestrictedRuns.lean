import HwoodiwissHelper.Phase10.Archive

/-!
# Runs of some operations only

A run may leave operations out, or call them in some states only. What those that are left keep is
kept by the run, also by games that are saved and read back.
-/

namespace HwoodiwissHelper.Phase10

open Phase10GameService Transition

namespace Archive

/-- Runs in which all operations are allowed where they are called; any game that was saved may be
loaded. -/
inductive ReachableBy (allowed : Phase10GameState → Operation → Prop) : Archive → Prop where
  | launch : ReachableBy allowed { state := initial }
  | relaunch {s : Archive} (h : ReachableBy allowed s) :
      ReachableBy allowed { s with state := initial }
  | load {s s' : Archive} {stored : Option Phase10StoredGame} (h : ReachableBy allowed s)
      (ha : s.Admits (.load stored)) (he : s.step (.load stored) = .ok s') : ReachableBy allowed s'
  | call {s s' : Archive} {operation : Operation} (h : ReachableBy allowed s)
      (ha : s.Admits (.call operation)) (hallowed : allowed s.state operation)
      (he : s.step (.call operation) = .ok s') : ReachableBy allowed s'

variable {allowed : Phase10GameState → Operation → Prop} {s : Archive}

theorem ReachableBy.reachable (h : s.ReachableBy allowed) : s.Reachable := by
  induction h with
  | launch => exact .launch
  | relaunch _ ih => exact ih.relaunch
  | load _ ha he ih => exact ih.step ha he
  | call _ ha _ he ih => exact ih.step ha he

/-- A property of states holds throughout as soon as it holds of the first one, and is kept by
reading a state back and by the allowed operations. -/
theorem ReachableBy.invariant {P : Phase10GameState → Prop} (hinitial : P initial)
    (hrefreshed : ∀ state, P state → P state.refreshed)
    (hperform : ∀ state operation next, state.Sound → P state → allowed state operation →
      operation.perform state = .ok next → P next.1) (h : s.ReachableBy allowed) :
    P s.state ∧ ∀ stored ∈ s.saved, ∃ state : Phase10GameState,
      state.Sound ∧ saveGame state = .setItem stored ∧ P state := by
  induction h with
  | launch => exact ⟨hinitial, by simp⟩
  | relaunch _ ih => exact ⟨hinitial, ih.2⟩
  | @load s s' stored h ha he ih =>
    obtain ⟨state, hload, rfl⟩ : ∃ state, loadGame stored s.state = .ok state ∧
        { s with state := state } = s' := by simpa [Archive.step] using he
    refine ⟨?_, ih.2⟩
    cases stored with
    | none =>
      cases hload
      exact ih.1
    | some stored =>
      obtain ⟨saved, hsound, hsave, hp⟩ := ih.2 stored (ha stored rfl)
      cases (parseStoredGame_saved hsound hsave).symm.trans hload
      exact hrefreshed saved hp
  | @call s s' operation h ha hallowed he ih =>
    have hsound := h.reachable.sound.state
    obtain ⟨next, hnext, rfl⟩ : ∃ next, operation.perform s.state = .ok next ∧
        (⟨next.1, s.saved ++ next.2.saved⟩ : Archive) = s' := by simpa [Archive.step] using he
    have hp := hperform _ _ _ hsound ih.1 hallowed hnext
    refine ⟨hp, ?_⟩
    intro stored hstored
    rcases List.mem_append.mp hstored with hold | hnew
    · exact ih.2 stored hold
    · have hout := hsound.perform hnext
      cases hout with
      | kept => simp [StoreCall.saved] at hnew
      | saved hsound' => exact ⟨_, hsound', StoreCall.saved_saveGame hnew, hp⟩
      | removed => simp [StoreCall.saved] at hnew

end Archive

namespace Session

def Allows (allowed : Phase10GameState → Operation → Prop) (s : Session) : Event → Prop
  | .load => True
  | .call operation => allowed s.state operation

instance (allowed : Phase10GameState → Operation → Prop)
    [∀ state operation, Decidable (allowed state operation)] (s : Session) :
    (e : Event) → Decidable (Allows allowed s e)
  | .load => isTrue trivial
  | .call operation => inferInstanceAs (Decidable (allowed s.state operation))

/-- Sessions whose archives are reached by allowed operations, with the save in the store. -/
def Archived (allowed : Phase10GameState → Operation → Prop) (s : Session) : Prop :=
  ∃ saved, Archive.ReachableBy allowed ⟨s.state, saved⟩ ∧
    ∀ stored, s.store = some stored → stored ∈ saved

variable {allowed : Phase10GameState → Operation → Prop}

theorem Archived.step {s s' : Session} {e : Event} (h : s.Archived allowed)
    (hallowed : s.Allows allowed e) (he : s.step e = .ok s') : s'.Archived allowed := by
  obtain ⟨saved, hreach, hstore⟩ := h
  cases e with
  | load =>
    obtain ⟨state, hload, rfl⟩ : ∃ state, loadGame s.store s.state = .ok state ∧
        { s with state := state } = s' := by simpa [Session.step] using he
    have hread : Archive.step ⟨s.state, saved⟩ (.load s.store) = .ok ⟨state, saved⟩ := by
      simp [Archive.step, hload]
    exact ⟨saved, hreach.load hstore hread, hstore⟩
  | call operation =>
    obtain ⟨next, hnext, rfl⟩ := perform_of_step he
    rcases Archive.admits_or_unchanged hnext saved with hadmits | rfl
    · refine ⟨saved ++ next.2.saved, hreach.call hadmits hallowed ?_, ?_⟩
      · simp [Archive.step, hnext, Session.commit]
      · intro stored hstored
        rcases StoreCall.mem_of_apply hstored with hold | hnew
        · exact List.mem_append_left _ (hstore stored hold)
        · exact List.mem_append_right _ hnew
    · exact ⟨saved, hreach, hstore⟩

theorem archived_of_run {s : Session} {events : List Event}
    (h : Along Session.step (Allows allowed) .launch events)
    (hr : run Session.step .launch events = .ok s) : s.Archived allowed := by
  apply h.invariant _ _ hr
  · intro s e s' hs hallowed he
    exact hs.step hallowed he
  · refine ⟨[], .launch, ?_⟩
    intro stored hstored
    cases hstored

end Session

end HwoodiwissHelper.Phase10
