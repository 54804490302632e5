import HwoodiwissHelper.Phase10.Reload

/-!
# Page visits over an unreliable store

The service lives as long as the app, and every visit of the page loads the game. A load reads
the store and assigns the state in two steps, with operations in between, and the store swallows
its failures: a write or a removal may do nothing, and a failed read gives nothing and tries to
remove the item.
-/

namespace HwoodiwissHelper.Phase10

open Phase10GameService Transition

inductive StateKind where
  | setup
  | inProgress
  | complete
  deriving DecidableEq, Repr

def Phase10GameState.kind : Phase10GameState → StateKind
  | .setup _ => .setup
  | .inProgress _ _ => .inProgress
  | .complete _ _ _ => .complete

/-- Two states save the same exactly when they have the same kind and the same game. -/
theorem saveGame_eq_iff {a b : Phase10GameState} :
    saveGame a = saveGame b ↔ a.kind = b.kind ∧ a.game? = b.game? := by
  constructor
  · intro h
    refine ⟨?_, game?_of_saveGame h⟩
    cases a <;> cases b <;> first | rfl | cases h | skip
    · exact absurd (toStoredGame_inj (StoreCall.setItem.inj h)).2 (by decide)
    · exact absurd (toStoredGame_inj (StoreCall.setItem.inj h)).2 (by decide)
  · rintro ⟨hkind, hgame⟩
    cases a <;> cases b <;> cases hkind
    · rfl
    · cases hgame; rfl
    · cases hgame; rfl

/-- The app: the state of its service, the store, what the loads in flight have read, and the
state the last accepted operation left. -/
structure App where
  state : Phase10GameState
  store : Option Phase10StoredGame
  reads : List (Option Phase10StoredGame)
  accepted : Option Phase10GameState
  deriving DecidableEq, Repr

inductive ReadOutcome where
  | succeeds
  | failsAndRemoves
  | failsAndKeeps
  deriving DecidableEq, Repr

inductive App.Event where
  | beginLoad (outcome : ReadOutcome)
  | finishLoad (k : ℕ)
  | call (operation : Operation) (storeFails : Bool)
  deriving DecidableEq, Repr

namespace App

def getItem (store : Option Phase10StoredGame) :
    ReadOutcome → Option Phase10StoredGame × Option Phase10StoredGame
  | .succeeds => (store, store)
  | .failsAndRemoves => (none, none)
  | .failsAndKeeps => (none, store)

/-- The operation was accepted when it made a store call. -/
def recordAccepted (s : App) (next : Phase10GameState × StoreCall) : Option Phase10GameState :=
  if next.2 = .none then s.accepted else some next.1

def step (s : App) : Event → Except Fault App
  | .beginLoad outcome =>
    .ok { s with
      reads := s.reads ++ [(getItem s.store outcome).1], store := (getItem s.store outcome).2 }
  | .finishLoad k =>
    match s.reads[k]? with
    | none => .ok s
    | some stored => do
      return { s with state := ← loadGame stored s.state, reads := s.reads.eraseIdx k }
  | .call operation storeFails => do
    let next ← operation.perform s.state
    return { s with
      state := next.1
      store := if storeFails then s.store else next.2.apply s.store
      accepted := s.recordAccepted next }

inductive StepFrom (s : App) : Event → App → Prop where
  | beginLoad (outcome) : StepFrom s (.beginLoad outcome) { s with
      reads := s.reads ++ [(getItem s.store outcome).1], store := (getItem s.store outcome).2 }
  | noRead {k} (hk : s.reads[k]? = none) : StepFrom s (.finishLoad k) s
  | finishLoad {k stored state} (hk : s.reads[k]? = some stored)
      (hload : loadGame stored s.state = .ok state) :
      StepFrom s (.finishLoad k) { s with state := state, reads := s.reads.eraseIdx k }
  | call {operation storeFails next} (hnext : Operation.perform s.state operation = .ok next) :
      StepFrom s (.call operation storeFails) { s with
        state := next.1
        store := if storeFails then s.store else next.2.apply s.store
        accepted := s.recordAccepted next }

theorem stepFrom_of_step {s s' : App} {e : Event} (he : s.step e = .ok s') : s.StepFrom e s' := by
  cases e with
  | beginLoad outcome =>
    cases he
    exact .beginLoad outcome
  | finishLoad k =>
    rw [step] at he
    split at he
    · next hk =>
      cases he
      exact .noRead hk
    · next stored hk =>
      obtain ⟨state, hload, rfl⟩ : ∃ state, loadGame stored s.state = .ok state ∧
          { s with state := state, reads := s.reads.eraseIdx k } = s' := by simpa using he
      exact .finishLoad hk hload
  | call operation storeFails =>
    obtain ⟨next, hnext, rfl⟩ : ∃ next, operation.perform s.state = .ok next ∧
        { s with state := next.1, store := if storeFails then s.store else next.2.apply s.store,
                 accepted := s.recordAccepted next } = s' := by
      simpa [step] using he
    exact .call hnext

def start (store : Option Phase10StoredGame) : App := ⟨initial, store, [], none⟩

inductive Reachable : App → Prop where
  | launch : Reachable (start none)
  | relaunch {s} (h : Reachable s) : Reachable (start s.store)
  | step {s s'} {e : Event} (h : Reachable s) (he : s.step e = .ok s') : Reachable s'

/-- The state has the kind and the game the last accepted operation left. -/
def KeepsAccepted (s : App) : Prop :=
  ∀ left, s.accepted = some left → s.state.kind = left.kind ∧ s.state.game? = left.game?

/-- The condition on a step: a load that completes after an accepted operation has read nothing,
or just what that operation asked the store to hold. -/
def ReadsAccepted (s : App) (e : Event) : Prop :=
  ∀ k stored left, e = .finishLoad k → s.reads[k]? = some (some stored) →
    s.accepted = some left → saveGame left = .setItem stored

/-- What the store holds and the loads have read was saved by sound states. -/
structure Sound (s : App) : Prop where
  state : s.state.Sound
  store : StoreSound s.store
  reads : ∀ stored ∈ s.reads, StoreSound stored

theorem sound_start {store : Option Phase10StoredGame} (h : StoreSound store) :
    (start store).Sound := ⟨.setup _, h, by simp [start]⟩

theorem getItem_sound {store : Option Phase10StoredGame} (h : StoreSound store)
    (outcome : ReadOutcome) :
    StoreSound (getItem store outcome).1 ∧ StoreSound (getItem store outcome).2 := by
  cases outcome with
  | succeeds => exact ⟨h, h⟩
  | failsAndRemoves => exact ⟨.none, .none⟩
  | failsAndKeeps => exact ⟨.none, h⟩

theorem apply_call_sound {state : Phase10GameState} {next : Phase10GameState × StoreCall}
    (h : Outcome state next) {store : Option Phase10StoredGame} (hstore : StoreSound store) :
    StoreSound (next.2.apply store) := by
  cases h with
  | kept => exact hstore
  | saved hsound => exact hstore.apply_saveGame hsound
  | removed => exact .none

theorem Sound.step {s s' : App} (h : s.Sound) {e : Event} (he : s.step e = .ok s') : s'.Sound := by
  cases stepFrom_of_step he with
  | beginLoad outcome =>
    obtain ⟨hread, hleft⟩ := getItem_sound h.store outcome
    refine ⟨h.state, hleft, ?_⟩
    intro stored hstored
    rcases List.mem_append.mp hstored with hmem | hmem
    · exact h.reads stored hmem
    · rw [List.mem_singleton.mp hmem]
      exact hread
  | noRead => exact h
  | finishLoad hk hload =>
    obtain ⟨state', hload', hsound⟩ :=
      loadGame_sound (h.reads _ (List.mem_of_getElem? hk)) h.state
    cases hload.symm.trans hload'
    refine ⟨hsound, h.store, ?_⟩
    intro r hr
    exact h.reads r (List.mem_of_mem_eraseIdx hr)
  | @call operation storeFails next hnext =>
    have hout := h.state.perform hnext
    refine ⟨hout.sound, ?_, h.reads⟩
    cases storeFails with
    | true => exact h.store
    | false => exact apply_call_sound hout h.store

theorem Reachable.sound {s : App} (h : s.Reachable) : s.Sound := by
  induction h with
  | launch => exact sound_start .none
  | relaunch _ ih => exact sound_start ih.store
  | step _ he ih => exact ih.step he

theorem keepsAccepted_step {s s' : App} (h : s.Sound) (hkeeps : s.KeepsAccepted) {e : Event}
    (he : s.step e = .ok s') : s'.KeepsAccepted ↔ ReadsAccepted s e := by
  cases stepFrom_of_step he with
  | beginLoad =>
    refine ⟨?_, fun _ => hkeeps⟩
    intro _ _ _ _ heq
    cases heq
  | noRead hk =>
    refine ⟨?_, fun _ => hkeeps⟩
    intro _ k' stored left heq hk'
    cases heq
    simp [hk] at hk'
  | @finishLoad k read state hk hload =>
    cases read with
    | none =>
      cases hload
      refine ⟨?_, fun _ => hkeeps⟩
      intro _ k' stored left heq hk'
      cases heq
      simp [hk] at hk'
    | some stored =>
      obtain ⟨saved, hsound, hsave⟩ := h.reads _ (List.mem_of_getElem? hk) stored rfl
      cases (parseStoredGame_saved hsound hsave).symm.trans hload
      constructor
      · rintro hkeeps' k' stored' left heq hk' hleft
        cases heq
        obtain rfl : stored = stored' := by simpa [hk] using hk'
        rw [← hsave, ← saveGame_refreshed saved]
        exact (saveGame_eq_iff.mpr (hkeeps' left hleft)).symm
      · intro hreads left hleft
        apply saveGame_eq_iff.mp
        rw [hreads k stored left rfl hk hleft, ← hsave]
        exact saveGame_refreshed saved
  | @call operation storeFails next hnext =>
    refine ⟨fun _ _ _ _ heq => (by cases heq), ?_⟩
    intro _ left hleft
    by_cases hquiet : next.2 = .none
    · have hsave : saveGame next.1 = saveGame s.state := (h.state.perform hnext).saveGame_eq hquiet
      obtain ⟨hkind, hgame⟩ := saveGame_eq_iff.mp hsave
      rw [hkind, hgame]
      exact hkeeps left (by simpa [recordAccepted, hquiet] using hleft)
    · obtain rfl : next.1 = left := by simpa [recordAccepted, hquiet] using hleft
      exact ⟨rfl, rfl⟩

/-- In every run over what an earlier run left in the store, loads keep accepted work exactly when
each of them that completes after an accepted operation has read nothing or what that operation
asked the store to hold. -/
theorem loads_keep_accepted_iff {s : App} (h : s.Reachable) (events : List Event) :
    Always App.step KeepsAccepted (start s.store) events ↔
      Along App.step ReadsAccepted (start s.store) events :=
  always_iff_along (I := App.Sound) (fun _ _ _ hs he => hs.step he)
    (fun _ _ _ hs hkeeps he => keepsAccepted_step hs hkeeps he) (sound_start h.sound.store)
    (fun left hleft => by cases hleft) events

instance (s : App) : (e : Event) → Decidable (ReadsAccepted s e)
  | .beginLoad _ => isTrue nofun
  | .call _ _ => isTrue nofun
  | .finishLoad k =>
    decidable_of_iff (∀ stored ∈ s.reads[k]?.join, ∀ left ∈ s.accepted,
        saveGame left = .setItem stored) <| by
      constructor
      · rintro h k' stored left heq hk hleft
        cases heq
        exact h stored (by simp [hk]) left hleft
      · intro h stored hk left hleft
        exact h k stored left rfl (Option.join_eq_some_iff.mp hk) hleft

/-- A visit, a game with one round, of which the entry is typed while a load is in flight whose read
fails, and another visit. -/
def reliableVisits : List Event :=
  [.beginLoad .succeeds, .finishLoad 0, .call (.typeNames ["Ann", "Bob"]) false,
    .call .startGame false, .beginLoad .failsAndKeeps, .call (.typeEntry 0 ⟨5, true⟩) false,
    .finishLoad 0, .call .submitRound false, .beginLoad .succeeds, .finishLoad 0]

theorem loads_keep_accepted_launch : ∃ s, Transition.run App.step (start none) reliableVisits =
      .ok s ∧ s.state.game?.map (·.rounds.length) = some 1 ∧
    App.Reachable (start none) ∧ Always App.step KeepsAccepted (start none) reliableVisits := by
  obtain ⟨s, hr, hp⟩ := run_of_eval App.step (start none) reliableVisits
    (fun s => s.state.game?.map (·.rounds.length) = some 1) (by decide +kernel)
  have hreads : Along App.step ReadsAccepted (start none) reliableVisits := by decide +kernel
  exact ⟨s, hr, of_decide_eq_true hp, .launch, (loads_keep_accepted_iff .launch _).mpr hreads⟩

/-- A round whose write failed is lost at the next visit: the store still holds the game as it
was started. -/
theorem failed_write_loses_round : ∃ s : App, s.Reachable ∧
    (s.accepted.bind (·.game?)).map (·.rounds.length) = some 1 ∧
    s.state.game?.map (·.rounds.length) = some 0 ∧ ¬ s.KeepsAccepted := by
  obtain ⟨s, hs, hp⟩ := exists_of_run (I := Reachable) App.step (fun _ _ _ hs he => hs.step he)
    .launch
    [.beginLoad .succeeds, .finishLoad 0, .call (.typeNames ["Ann", "Bob"]) false,
      .call .startGame false, .call (.typeEntry 0 ⟨5, true⟩) false, .call .submitRound true,
      .beginLoad .succeeds, .finishLoad 0]
    (fun s => (s.accepted.bind (·.game?)).map (·.rounds.length) = some 1 ∧
      s.state.game?.map (·.rounds.length) = some 0) (by decide +kernel)
  obtain ⟨hleft, hstate⟩ := of_decide_eq_true hp
  refine ⟨s, hs, hleft, hstate, fun hkeeps => ?_⟩
  cases haccepted : s.accepted with
  | none => simp [haccepted] at hleft
  | some left =>
    rw [(hkeeps left haccepted).2] at hstate
    simp [haccepted, hstate] at hleft

/-- A step that accepts an operation has a store that does what it is asked, and no load in
flight. -/
def Reliable (s : App) (e : Event) : Prop :=
  ∀ operation storeFails next, e = .call operation storeFails →
    operation.perform s.state = .ok next → next.2 ≠ .none → storeFails = false ∧ s.reads = []

/-- The store and the loads in flight know nothing but the last accepted operation. -/
def Current (s : App) : Prop :=
  ∀ left, s.accepted = some left → ∀ stored, (s.store = some stored ∨ some stored ∈ s.reads) →
    saveGame left = .setItem stored

theorem Current.step {s s' : App} (h : s.Sound) (hcurrent : s.Current) {e : Event}
    (hreliable : Reliable s e) (he : s.step e = .ok s') : s'.Current := by
  cases stepFrom_of_step he with
  | beginLoad outcome =>
    intro left hleft stored hstored
    apply hcurrent left hleft stored
    cases outcome <;> simp_all [getItem, or_comm, eq_comm]
  | noRead => exact hcurrent
  | finishLoad hk hload =>
    intro left hleft stored hstored
    exact hcurrent left hleft stored (hstored.imp_right List.mem_of_mem_eraseIdx)
  | @call operation storeFails next hnext =>
    intro left hleft stored hstored
    by_cases hquiet : next.2 = .none
    · simp only [recordAccepted, hquiet, if_true, StoreCall.apply, ite_self] at hleft hstored
      exact hcurrent left hleft stored hstored
    · obtain ⟨rfl, hreads⟩ := hreliable operation storeFails next rfl hnext hquiet
      obtain rfl : next.1 = left := by simpa [recordAccepted, hquiet] using hleft
      simp only [hreads, List.not_mem_nil, or_false, Bool.false_eq_true, if_false] at hstored
      cases h.state.perform hnext with
      | kept => exact absurd rfl hquiet
      | removed => cases hstored
      | @saved state' game _ hg =>
        cases hsave : saveGame state' with
        | none => exact absurd hsave hquiet
        | removeItem => cases state' <;> cases hsave
        | setItem value =>
          simp only [hsave, StoreCall.apply, Option.some.injEq] at hstored
          rw [hstored]

/-- With a reliable store and no operation accepted while a load is in flight, no load discards
accepted work. -/
theorem loads_keep_accepted_of_reliable {store : Option Phase10StoredGame} (h : StoreSound store)
    {events : List Event} (hreliable : Along App.step Reliable (start store) events) :
    Always App.step KeepsAccepted (start store) events := by
  refine (always_iff_along (I := App.Sound) (fun _ _ _ hs he => hs.step he)
    (fun _ _ _ hs hkeeps he => keepsAccepted_step hs hkeeps he) (sound_start h)
    (fun left hleft => by cases hleft) events).mpr ?_
  refine hreliable.imp (I := fun s => s.Sound ∧ s.Current)
    (fun s e s' hs hp he => ⟨hs.1.step he, hs.2.step hs.1 hp he⟩) ?_
    ⟨sound_start h, fun left hleft => by cases hleft⟩
  rintro s e ⟨-, hcurrent⟩ - k stored left rfl hk hleft
  exact hcurrent left hleft stored (.inr (List.mem_of_getElem? hk))

end App

end HwoodiwissHelper.Phase10
