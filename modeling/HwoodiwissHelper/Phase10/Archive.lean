import HwoodiwissHelper.Phase10.Soundness

/-!
# A service that is handed any game it saved

`LoadGameAsync` is not tied to the last save here: the store may answer nothing or any game saved
before, also one that was abandoned since. Whatever is done in whatever order, no operation runs
into a fault.
-/

namespace HwoodiwissHelper.Phase10

open Phase10GameService Transition

/-- The state of a service with every game that was saved so far. -/
structure Archive where
  state : Phase10GameState
  saved : List Phase10StoredGame := []
  deriving DecidableEq, Repr

inductive Archive.Event where
  | load (stored : Option Phase10StoredGame)
  | call (operation : Operation)
  deriving DecidableEq, Repr

def StoreCall.saved : StoreCall → List Phase10StoredGame
  | .setItem value => [value]
  | _ => []

namespace Archive

def step (s : Archive) : Event → Except Fault Archive
  | .load stored => do return { s with state := ← loadGame stored s.state }
  | .call operation => do
    let (state, call) ← operation.perform s.state
    return ⟨state, s.saved ++ call.saved⟩

/-- What the store and the page can ask for: a load answers nothing or a saved game, and the
setup screen removes a slot it shows. -/
def Admits (s : Archive) : Event → Prop
  | .load stored => ∀ game, stored = some game → game ∈ s.saved
  | .call (.removePlayer index) =>
    ∀ playerNames, s.state = .setup playerNames → 0 ≤ index ∧ index < playerNames.length
  | .call _ => True

inductive Reachable : Archive → Prop where
  | launch : Reachable { state := initial }
  | relaunch {s : Archive} (h : Reachable s) : Reachable { s with state := initial }
  | step {s s' : Archive} {e : Event} (h : Reachable s) (ha : s.Admits e) (he : s.step e = .ok s') :
      Reachable s'

/-- The state is sound, and so was the state of every save. -/
structure Sound (s : Archive) : Prop where
  state : s.state.Sound
  saved : ∀ stored ∈ s.saved, ∃ state : Phase10GameState,
    state.Sound ∧ saveGame state = .setItem stored

end Archive

theorem StoreCall.saved_saveGame {state : Phase10GameState} {stored : Phase10StoredGame}
    (h : stored ∈ (saveGame state).saved) : saveGame state = .setItem stored := by
  cases state with
  | setup names => simp [saveGame, StoreCall.saved] at h
  | inProgress game entries =>
    obtain rfl : stored = toStoredGame game false := by simpa [saveGame, StoreCall.saved] using h
    rfl
  | complete game winner count =>
    obtain rfl : stored = toStoredGame game true := by simpa [saveGame, StoreCall.saved] using h
    rfl

theorem Outcome.saved_sound {state : Phase10GameState} {next : Phase10GameState × StoreCall}
    (h : Outcome state next) {stored : Phase10StoredGame} (hs : stored ∈ next.2.saved) :
    ∃ state' : Phase10GameState, state'.Sound ∧ saveGame state' = .setItem stored := by
  cases h with
  | kept => simp [StoreCall.saved] at hs
  | saved hsound => exact ⟨_, hsound, StoreCall.saved_saveGame hs⟩
  | removed => simp [StoreCall.saved] at hs

theorem Phase10GameState.Sound.perform_ok {state : Phase10GameState} (h : state.Sound)
    (operation : Operation)
    (hremove : ∀ index playerNames, operation = .removePlayer index →
      state = .setup playerNames → 0 ≤ index ∧ index < playerNames.length) :
    ∃ next, operation.perform state = .ok next := by
  cases operation with
  | removePlayer index =>
    cases state with
    | setup names =>
      have hin := hremove index names rfl rfl
      by_cases htwo : names.length ≤ 2
      · exact ⟨(.setup names, .none), by
          simp [Operation.perform, Phase10GameService.removePlayer, htwo]⟩
      · exact ⟨(.setup (names.eraseIdx index.toNat), .none), by
          simp [Operation.perform, Phase10GameService.removePlayer, htwo, hin]⟩
    | inProgress game entries => exact ⟨_, rfl⟩
    | complete game winner count => exact ⟨_, rfl⟩
  | submitRound =>
    cases state with
    | setup names => exact ⟨_, rfl⟩
    | inProgress game entries =>
      obtain ⟨_, state', -, -, hsubmit, -⟩ := submitRound_spec h
      exact ⟨_, hsubmit⟩
    | complete game winner count => exact ⟨_, rfl⟩
  | editRound roundIndex updates =>
    rcases roundIndex_cases state roundIndex with hout | ⟨game, k, round, hg, rfl, hround⟩
    · exact ⟨_, editRound_of_not_mem hout updates⟩
    · obtain ⟨state', hedit, -⟩ := editRound_spec h hg hround updates
      exact ⟨_, hedit⟩
  | addPlayer => exact ⟨_, rfl⟩
  | typeNames names => exact ⟨_, rfl⟩
  | startGame => exact ⟨_, rfl⟩
  | typeEntry index entry => exact ⟨_, rfl⟩
  | abandonGame => exact ⟨_, rfl⟩
  | newGame => exact ⟨_, rfl⟩

namespace Archive

theorem Sound.loadGame {s : Archive} (h : s.Sound) {stored : Option Phase10StoredGame}
    (ha : s.Admits (.load stored)) :
    ∃ state, Phase10GameService.loadGame stored s.state = .ok state ∧ state.Sound := by
  refine loadGame_sound ?_ h.state
  intro game hgame
  have hmem : game ∈ s.saved := ha game hgame
  exact h.saved game hmem

/-- An admitted event succeeds and keeps the invariant. -/
theorem Sound.step {s : Archive} (h : s.Sound) {e : Event} (ha : s.Admits e) :
    ∃ s', s.step e = .ok s' ∧ s'.Sound := by
  cases e with
  | load stored =>
    obtain ⟨state, hload, hsound⟩ := h.loadGame ha
    exact ⟨{ s with state := state }, by simp [Archive.step, hload], hsound, h.saved⟩
  | call operation =>
    obtain ⟨next, hnext⟩ := h.state.perform_ok operation (by
      rintro index names rfl hstate
      exact ha names hstate)
    have hout := h.state.perform hnext
    refine ⟨⟨next.1, s.saved ++ next.2.saved⟩, by simp [Archive.step, hnext], hout.sound, ?_⟩
    intro stored hstored
    rcases List.mem_append.mp hstored with hold | hnew
    · exact h.saved stored hold
    · exact hout.saved_sound hnew

theorem Reachable.sound {s : Archive} (h : s.Reachable) : s.Sound := by
  induction h with
  | launch => exact ⟨.setup _, by simp⟩
  | relaunch _ ih => exact ⟨.setup _, ih.saved⟩
  | step _ ha he ih =>
    obtain ⟨t, ht, hsound⟩ := ih.step ha
    cases ht.symm.trans he
    exact hsound

/-- In every run of operations and of loads of saved games no admitted event meets a fault, and
in every game in progress there is one pending entry for each player. -/
theorem no_fault {s : Archive} (h : s.Reachable) :
    (∀ e, s.Admits e → ∃ s', s.step e = .ok s') ∧
      ∀ game entries, s.state = .inProgress game entries →
        entries.length = game.players.length := by
  have hsound := h.sound
  constructor
  · intro e ha
    obtain ⟨s', hs', -⟩ := hsound.step ha
    exact ⟨s', hs'⟩
  · intro game entries hstate
    have hstate' : Phase10GameState.Sound (.inProgress game entries) := hstate ▸ hsound.state
    exact hstate'.inProgress.2.1

/-- Removing a slot that does not exist only goes well where it does nothing. -/
theorem admits_or_unchanged {state : Phase10GameState} {operation : Operation}
    {next : Phase10GameState × StoreCall} (he : operation.perform state = .ok next)
    (saved : List Phase10StoredGame) :
    Archive.Admits ⟨state, saved⟩ (.call operation) ∨ next = (state, .none) := by
  cases operation with
  | removePlayer index =>
    cases state with
    | setup names =>
      by_cases htwo : names.length ≤ 2
      · right
        simpa [Operation.perform, removePlayer, htwo] using he.symm
      · left
        intro names' hnames
        obtain rfl := Phase10GameState.setup.inj hnames
        by_contra hout
        simp [Operation.perform, removePlayer, htwo, hout] at he
    | inProgress game entries => exact .inl (fun _ h => by cases h)
    | complete game winner count => exact .inl (fun _ h => by cases h)
  | _ => exact .inl trivial

/-- A game that was started, abandoned and loaded again. -/
theorem no_fault_abandoned : ∃ (s : Archive) (game : Phase10Game) (entries : List RoundEntryModel),
    s.Reachable ∧ s.state = .inProgress game entries ∧ game.playerNames = ["Ann", "Bob"] ∧
    entries.length = game.players.length ∧ ∃ s', s.step (.call .submitRound) = .ok s' := by
  have hnames := Reachable.launch.step (e := .call (.typeNames ["Ann", " Bob "])) trivial rfl
  have hstart := hnames.step (e := .call .startGame) trivial rfl
  have habandon := hstart.step (e := .call .abandonGame) trivial rfl
  have hload := habandon.step (e := .load (some (toStoredGame (newGameOf ["Ann", "Bob"]) false)))
    (by rintro game ⟨⟩; decide +kernel) rfl
  have h := no_fault hload
  exact ⟨_, _, _, hload, rfl, by decide +kernel, h.2 _ _ rfl, h.1 (.call .submitRound) trivial⟩

end Archive

theorem StoreCall.mem_of_apply {call : StoreCall} {store : Option Phase10StoredGame}
    {stored : Phase10StoredGame} (h : call.apply store = some stored) :
    store = some stored ∨ stored ∈ call.saved := by
  cases call with
  | none => exact .inl h
  | setItem value =>
    obtain rfl : value = stored := Option.some.inj h
    exact .inr (List.mem_singleton_self _)
  | removeItem => cases h

theorem Session.Reachable.archive {s : Session} (h : s.Reachable) :
    ∃ saved, Archive.Reachable ⟨s.state, saved⟩ ∧
      ∀ stored, s.store = some stored → stored ∈ saved := by
  induction h with
  | launch =>
    refine ⟨[], .launch, ?_⟩
    intro stored hstored
    cases hstored
  | relaunch _ ih =>
    obtain ⟨saved, hreach, hstore⟩ := ih
    exact ⟨saved, hreach.relaunch, hstore⟩
  | @step s s' e _ he ih =>
    obtain ⟨saved, hreach, hstore⟩ := ih
    cases e with
    | load =>
      obtain ⟨state, hload, rfl⟩ : ∃ state, loadGame s.store s.state = .ok state ∧
          { s with state := state } = s' := by simpa [Session.step] using he
      refine ⟨saved, hreach.step (e := .load s.store) hstore ?_, hstore⟩
      simp [Archive.step, hload]
    | call operation =>
      obtain ⟨next, hnext, rfl⟩ := perform_of_step he
      rcases Archive.admits_or_unchanged hnext saved with hadmits | rfl
      · refine ⟨saved ++ next.2.saved, hreach.step hadmits ?_, ?_⟩
        · simp [Archive.step, hnext, Session.commit]
        · intro stored hstored
          rcases StoreCall.mem_of_apply hstored with hold | hnew
          · exact List.mem_append_left _ (hstore stored hold)
          · exact List.mem_append_right _ hnew
      · exact ⟨saved, hreach, hstore⟩

end HwoodiwissHelper.Phase10
