import HwoodiwissHelper.Phase10.Soundness

/-!
# Reloading a game

After its first load a service keeps the store in step with its state. A fresh service that
loads that store stands where the first one stands, up to pending entries, and the two stay
together from there on.
-/

namespace HwoodiwissHelper.Phase10

open Phase10GameService Transition

/-- The store holds what saving the state puts into an empty store. -/
def Session.Synced (s : Session) : Prop := s.store = (saveGame s.state).apply none

theorem apply_saveGame_of_live {state : Phase10GameState} {game : Phase10Game}
    (hg : state.game? = some game) (store : Option Phase10StoredGame) :
    (saveGame state).apply store = (saveGame state).apply none := by
  cases state with
  | setup names => cases hg
  | inProgress game entries => rfl
  | complete game winner count => rfl

@[simp] theorem saveGame_refreshed (state : Phase10GameState) :
    saveGame state.refreshed = saveGame state := by cases state <;> rfl

theorem loadGame_synced {s : Session} (h : s.Sound) (hs : s.Synced) :
    loadGame s.store s.state = .ok s.state.refreshed := by
  cases hsave : saveGame s.state with
  | none =>
    rw [hs, hsave]
    cases hstate : s.state with
    | setup names => rfl
    | inProgress game entries => simp [hstate, saveGame] at hsave
    | complete game winner count => simp [hstate, saveGame] at hsave
  | setItem stored =>
    rw [hs, hsave]
    exact parseStoredGame_saved h.state hsave
  | removeItem => cases hstate : s.state <;> simp [hstate, saveGame] at hsave

theorem Session.Synced.step {s s' : Session} (h : s.Sound) (hs : s.Synced) {e : Session.Event}
    (he : s.step e = .ok s') : s'.Synced := by
  cases e with
  | load =>
    cases (step_load (loadGame_synced h hs)).symm.trans he
    have hsave : saveGame s.state = saveGame s.state.refreshed :=
      (saveGame_refreshed s.state).symm
    exact hs.trans (congrArg (StoreCall.apply · none) hsave)
  | call operation =>
    obtain ⟨next, hnext, rfl⟩ := Session.perform_of_step he
    cases h.state.perform hnext with
    | kept _ hsave => exact hs.trans (congrArg (StoreCall.apply · none) hsave.symm)
    | saved _ hg => exact apply_saveGame_of_live hg s.store
    | removed => rfl

namespace Session

/-- The sessions of a service that began by loading the store an earlier session left. -/
inductive Loaded : Session → Prop where
  | load {s s' : Session} (h : s.Reachable) (he : s.relaunch.step .load = .ok s') : Loaded s'
  | step {s s' : Session} {e : Event} (h : Loaded s) (he : s.step e = .ok s') : Loaded s'

theorem loaded_launch : Loaded launch := .load .launch rfl

theorem Loaded.reachable {s : Session} (h : s.Loaded) : s.Reachable := by
  induction h with
  | load h he => exact h.relaunch.step he
  | step _ he ih => exact ih.step he

theorem synced_of_load {s s' : Session} (h : s.Sound) (he : s.relaunch.step .load = .ok s') :
    s'.Synced := by
  cases hstore : s.store with
  | none =>
    obtain rfl : relaunch s = s' := by simpa [Session.step, relaunch, hstore, loadGame] using he
    exact hstore
  | some stored =>
    obtain ⟨saved, hsound, hsave⟩ := h.store stored hstore
    have hload : loadGame s.relaunch.store s.relaunch.state = .ok saved.refreshed := by
      rw [relaunch, hstore]
      exact parseStoredGame_saved hsound hsave
    cases (step_load hload).symm.trans he
    have hkept : some stored = (saveGame saved.refreshed).apply none := by
      rw [saveGame_refreshed, hsave]
      rfl
    exact hstore.trans hkept

theorem Loaded.synced {s : Session} (h : s.Loaded) : s.Synced := by
  induction h with
  | load h he => exact synced_of_load h.sound he
  | step h he ih => exact ih.step h.reachable.sound he

end Session

/-- The same kind of state with the same content, pending entries apart. -/
inductive Agree : Phase10GameState → Phase10GameState → Prop where
  | setup (playerNames) : Agree (.setup playerNames) (.setup playerNames)
  | inProgress (game entries entries') :
      Agree (.inProgress game entries) (.inProgress game entries')
  | complete (game winner count) : Agree (.complete game winner count) (.complete game winner count)

theorem agree_refl (state : Phase10GameState) : Agree state state := by
  cases state with
  | setup names => exact .setup names
  | inProgress game entries => exact .inProgress game entries entries
  | complete game winner count => exact .complete game winner count

theorem agree_refreshed (state : Phase10GameState) : Agree state state.refreshed := by
  cases state with
  | setup names => exact .setup names
  | inProgress game entries => exact .inProgress game entries _
  | complete game winner count => exact .complete game winner count

theorem Agree.refreshed {a b : Phase10GameState} (h : Agree a b) : a.refreshed = b.refreshed := by
  cases h <;> rfl

theorem Agree.game? {a b : Phase10GameState} (h : Agree a b) : a.game? = b.game? := by
  cases h <;> rfl

theorem Agree.of_refreshed {a b : Phase10GameState} (h : a.refreshed = b.refreshed) :
    Agree a b := by
  cases a <;> cases b <;> simp only [Phase10GameState.refreshed, reduceCtorEq] at h
  · cases h
    exact .setup _
  · obtain ⟨rfl, -⟩ := Phase10GameState.inProgress.inj h
    exact .inProgress _ _ _
  · cases h
    exact .complete _ _ _

theorem Settled.agree {game : Phase10Game} {entries entries' : List RoundEntryModel}
    {a b : Phase10GameState} (ha : Settled game entries a) (hb : Settled game entries' b) :
    Agree a b := by
  cases ha with
  | inProgress hc =>
    cases hb with
    | inProgress => exact .inProgress _ _ _
    | complete hc' => exact absurd hc hc'
  | complete hc hw =>
    cases hb with
    | inProgress hc' => exact absurd hc' hc
    | complete _ hw' =>
      cases hw.symm.trans hw'
      exact .complete _ _ _

def Phase10GameState.entries? : Phase10GameState → Option (List RoundEntryModel)
  | .inProgress _ entries => some entries
  | _ => none

/-- What submits need of two services to record the same round. -/
def SamePending (a b : Phase10GameState) (operation : Operation) : Prop :=
  operation = .submitRound → a.entries? = b.entries?

theorem Agree.perform {a b : Phase10GameState} (h : Agree a b) (ha : a.Sound) (hb : b.Sound)
    {operation : Operation} (hp : SamePending a b operation)
    {next : Phase10GameState × StoreCall} (he : operation.perform a = .ok next) :
    ∃ next', operation.perform b = .ok next' ∧ Agree next.1 next'.1 := by
  by_cases hsame : a = b
  · exact ⟨next, hsame ▸ he, agree_refl _⟩
  · cases h with
    | setup names => exact absurd rfl hsame
    | complete game winner count => exact absurd rfl hsame
    | inProgress game entries entries' =>
      cases operation with
      | submitRound => exact absurd (by rw [Option.some.inj (hp rfl)]) hsame
      | editRound roundIndex updates =>
        rcases roundIndex_cases (.inProgress game entries) roundIndex with
          hout | ⟨game', k, round, hg, rfl, hround⟩
        · cases (editRound_of_not_mem hout updates).symm.trans he
          have hout' : ∀ game', (Phase10GameState.inProgress game entries').game? = some game' →
              roundIndex < 0 ∨ game'.rounds.length ≤ roundIndex := hout
          exact ⟨_, editRound_of_not_mem hout' updates, .inProgress _ _ _⟩
        · obtain ⟨a', hedit, hsettled, -⟩ := editRound_spec ha hg hround updates
          obtain ⟨b', hedit', hsettled', -⟩ := editRound_spec hb hg hround updates
          cases hedit.symm.trans he
          exact ⟨_, hedit', hsettled.agree hsettled'⟩
      | addPlayer => cases he; exact ⟨_, rfl, .inProgress _ _ _⟩
      | removePlayer index => cases he; exact ⟨_, rfl, .inProgress _ _ _⟩
      | typeNames names => cases he; exact ⟨_, rfl, .inProgress _ _ _⟩
      | startGame => cases he; exact ⟨_, rfl, .inProgress _ _ _⟩
      | typeEntry index entry => cases he; exact ⟨_, rfl, .inProgress _ _ _⟩
      | abandonGame => cases he; exact ⟨_, rfl, .setup _⟩
      | newGame => cases he; exact ⟨_, rfl, .setup _⟩

namespace Session

/-- Two sound sessions in step with their stores whose states agree. -/
structure Twins (s t : Session) : Prop where
  sound : s.Sound
  sound' : t.Sound
  synced : s.Synced
  synced' : t.Synced
  agree : Agree s.state t.state

/-- Whatever step one of two twins can make, the other can make too. -/
theorem Twins.step {s t s' : Session} (h : Twins s t) {e : Event}
    (hp : ∀ operation, e = .call operation → SamePending s.state t.state operation)
    (he : s.step e = .ok s') : ∃ t', t.step e = .ok t' ∧ Twins s' t' := by
  obtain ⟨t', ht', hagree⟩ : ∃ t', t.step e = .ok t' ∧ Agree s'.state t'.state := by
    cases e with
    | load =>
      cases (step_load (loadGame_synced h.sound h.synced)).symm.trans he
      refine ⟨_, step_load (loadGame_synced h.sound' h.synced'), ?_⟩
      change Agree s.state.refreshed t.state.refreshed
      rw [h.agree.refreshed]
      exact agree_refl _
    | call operation =>
      obtain ⟨next, hnext, rfl⟩ := Session.perform_of_step he
      obtain ⟨next', hnext', hagree⟩ :=
        h.agree.perform h.sound.state h.sound'.state (hp operation rfl) hnext
      exact ⟨_, step_call hnext', hagree⟩
  have hsynced : s'.Synced := h.synced.step h.sound he
  have hsynced' : t'.Synced := h.synced'.step h.sound' ht'
  exact ⟨t', ht', h.sound.step he, h.sound'.step ht', hsynced, hsynced', hagree⟩

theorem agree_typeEntry (index : ℕ) (entry : RoundEntryModel) (state : Phase10GameState) :
    Agree (Phase10.typeEntry index entry state) state := by
  cases state with
  | setup names => exact .setup names
  | inProgress game entries => exact .inProgress game _ entries
  | complete game winner count => exact .complete game winner count

/-- Two sessions after the same events, given the same pending entries at every submit. What is
typed in between may differ. -/
inductive Jointly (s t : Session) : Session → Session → Prop where
  | start : Jointly s t s t
  | typeLeft {s' s'' t' : Session} {index entry} (h : Jointly s t s' t')
      (he : s'.step (.call (.typeEntry index entry)) = .ok s'') : Jointly s t s'' t'
  | typeRight {s' t' t'' : Session} {index entry} (h : Jointly s t s' t')
      (he : t'.step (.call (.typeEntry index entry)) = .ok t'') : Jointly s t s' t''
  | both {s' s'' t' t'' : Session} {e : Event} (h : Jointly s t s' t')
      (hp : ∀ operation, e = .call operation → SamePending s'.state t'.state operation)
      (hs : s'.step e = .ok s'') (ht : t'.step e = .ok t'') : Jointly s t s'' t''

theorem Twins.jointly {s t s' t' : Session} (h : Twins s t) (hj : Jointly s t s' t') :
    Twins s' t' := by
  induction hj with
  | start => exact h
  | @typeLeft s' s'' t' index entry _ he ih =>
    have hstate : s''.state = Phase10.typeEntry index entry s'.state := by
      cases he
      rfl
    have htyped : Agree s''.state s'.state := hstate ▸ agree_typeEntry index entry _
    have hagree : Agree s''.state t'.state :=
      .of_refreshed (htyped.refreshed.trans ih.agree.refreshed)
    exact ⟨ih.sound.step he, ih.sound', ih.synced.step ih.sound he, ih.synced', hagree⟩
  | @typeRight s' t' t'' index entry _ he ih =>
    have hstate : t''.state = Phase10.typeEntry index entry t'.state := by
      cases he
      rfl
    have htyped : Agree t''.state t'.state := hstate ▸ agree_typeEntry index entry _
    have hagree : Agree s'.state t''.state :=
      .of_refreshed (ih.agree.refreshed.trans htyped.refreshed.symm)
    exact ⟨ih.sound, ih.sound'.step he, ih.synced, ih.synced'.step ih.sound' he, hagree⟩
  | both _ hp hs ht ih =>
    obtain ⟨t₁, ht₁, htwins⟩ := ih.step hp hs
    cases ht₁.symm.trans ht
    exact htwins

theorem Loaded.reload {s : Session} (h : s.Loaded) :
    (∀ names, s.state = .setup names → s.relaunch.step .load = .ok ⟨initial, s.store⟩) ∧
    (∀ game, s.state.game? = some game →
      s.relaunch.step .load = .ok ⟨s.state.refreshed, s.store⟩) := by
  have hsynced : s.store = (saveGame s.state).apply none := h.synced
  constructor
  · intro names hstate
    have hstore : s.store = none := by
      rw [hsynced, hstate]
      rfl
    apply step_load
    rw [relaunch, hstore]
    rfl
  · intro game hg
    apply step_load
    obtain ⟨stored, hsave⟩ : ∃ stored, saveGame s.state = .setItem stored := by
      cases hstate : s.state with
      | setup names => simp [hstate, Phase10GameState.game?] at hg
      | inProgress game entries => exact ⟨_, rfl⟩
      | complete game winner count => exact ⟨_, rfl⟩
    rw [relaunch, hsynced, hsave]
    exact parseStoredGame_saved h.reachable.sound.state hsave

/-- Reloading is transparent: a fresh service that loads the store of a loaded one reaches the
same state, with zeroed pending entries, and given the same events and the same entries at every
submit the two stay in states that agree. -/
theorem reload_transparent {s : Session} (h : s.Loaded) :
    ∃ t, s.relaunch.step .load = .ok t ∧
      (∀ names, s.state = .setup names → t.state = initial) ∧
      ∀ game, s.state.game? = some game → t.state = s.state.refreshed ∧
        ∀ s' t', Jointly s t s' t' → Agree s'.state t'.state ∧
          ∀ e s'', (∀ operation, e = .call operation → SamePending s'.state t'.state operation) →
            s'.step e = .ok s'' → ∃ t'', t'.step e = .ok t'' := by
  obtain ⟨hsetup, hlive⟩ := h.reload
  cases hg : s.state.game? with
  | none =>
    obtain ⟨names, hstate⟩ := Phase10GameState.setup_of_game? hg
    refine ⟨_, hsetup names hstate, fun _ _ => rfl, ?_⟩
    intro game hgame
    cases hgame
  | some game =>
    have hload := hlive game hg
    have hagain : Loaded ⟨s.state.refreshed, s.store⟩ := .load h.reachable hload
    have htwins : Twins s ⟨s.state.refreshed, s.store⟩ :=
      ⟨h.reachable.sound, hagain.reachable.sound, h.synced, hagain.synced,
        agree_refreshed s.state⟩
    refine ⟨_, hload, ?_, ?_⟩
    · intro names hstate
      simp [hstate, Phase10GameState.game?] at hg
    · intro _ _
      refine ⟨rfl, ?_⟩
      intro s' t' hj
      have hlater : Twins s' t' := htwins.jointly hj
      refine ⟨hlater.agree, ?_⟩
      intro e s'' hp hs
      obtain ⟨t'', ht'', -⟩ := hlater.step hp hs
      exact ⟨t'', ht''⟩

theorem reload_transparent_ann_bob : ∃ s t : Session, s.Loaded ∧
    s.state.game?.map (·.players) = some [.active ⟨"Ann", 2, 5⟩, .active ⟨"Bob", 1, 20⟩] ∧
    s.state.entries? = some [⟨30, true⟩, ⟨0, false⟩] ∧
    s.relaunch.step .load = .ok t ∧ t.state.entries? = some [⟨0, false⟩, ⟨0, false⟩] ∧
    ∀ s' t', Jointly s t s' t' → Agree s'.state t'.state := by
  obtain ⟨s, hs, hp⟩ := exists_of_run Session.step (fun _ _ _ hs he => hs.step he) loaded_launch
    ([.call (.typeNames ["Ann", "Bob"]), .call .startGame] ++
      playRound [⟨5, true⟩, ⟨20, false⟩] ++ [.call (.typeEntry 0 ⟨30, true⟩)])
    (fun s => s.state.game?.map (·.players) =
        some [.active ⟨"Ann", 2, 5⟩, .active ⟨"Bob", 1, 20⟩] ∧
      s.state.entries? = some [⟨30, true⟩, ⟨0, false⟩] ∧
      s.state.refreshed.entries? = some [⟨0, false⟩, ⟨0, false⟩]) (by decide +kernel)
  obtain ⟨hplayers, hentries, hfresh⟩ := of_decide_eq_true hp
  obtain ⟨game, hg, -⟩ := Option.map_eq_some_iff.mp hplayers
  obtain ⟨t, ht, -, hlive⟩ := reload_transparent hs
  obtain ⟨hstate, hjoint⟩ := hlive game hg
  exact ⟨s, t, hs, hplayers, hentries, ht, hstate ▸ hfresh, fun s' t' hj => (hjoint s' t' hj).1⟩

end Session

end HwoodiwissHelper.Phase10
