import HwoodiwissHelper.Phase10.Ledger

/-!
# Sound states and sessions

A live state is sound when its game keeps the ledger and its kind, its pending entries and its
winner fit the players. Every operation of a sound session succeeds and leaves a sound session,
and what it saves is read back as the same game.
-/

namespace HwoodiwissHelper.Phase10

open Phase10GameService Transition KeyedList StableOrder

/-- The state a live game is in: over once somebody completed, in progress until then. -/
inductive Settled (game : Phase10Game) (entries : List RoundEntryModel) :
    Phase10GameState → Prop where
  | inProgress (h : game.completedPlayers = []) : Settled game entries (.inProgress game entries)
  | complete {winner} (h : game.completedPlayers ≠ [])
      (hw : lowestScore game.completedPlayers = .ok winner) :
      Settled game entries (.complete game winner game.completedPlayers.length)

theorem lowestScore_ok {players : List Phase10Player.Completed} (h : players ≠ []) :
    ∃ winner, lowestScore players = .ok winner := by
  obtain ⟨winner, hw⟩ := head?_orderBy_isSome (fun p : Phase10Player.Completed => p.score) h
  exact ⟨winner, by simp [lowestScore, hw]⟩

theorem lowestScore_spec {players : List Phase10Player.Completed} {winner}
    (h : lowestScore players = .ok winner) :
    winner ∈ players ∧ ∀ p ∈ players, winner.score ≤ p.score := by
  unfold lowestScore at h
  split at h
  · cases h
  · next w hw =>
    cases h
    exact head?_orderBy _ hw

/-- How an operation picks the next state of a live game. -/
theorem settle (game : Phase10Game) (entries : List RoundEntryModel) :
    ∃ state, completeOr game (.inProgress game entries) = .ok state ∧
      Settled game entries state := by
  by_cases h : game.completedPlayers = []
  · exact ⟨_, by simp [completeOr, h], .inProgress h⟩
  · obtain ⟨winner, hw⟩ := lowestScore_ok h
    have hpos : 0 < game.completedPlayers.length := List.length_pos_iff.mpr h
    refine ⟨_, ?_, .complete h hw⟩
    rw [completeOr, if_pos hpos, hw]
    rfl

/-- The invariant of `_state`. -/
inductive Phase10GameState.Sound : Phase10GameState → Prop where
  | setup (playerNames) : Sound (.setup playerNames)
  | live {game entries state} (hl : Ledger game) (he : entries.length = game.players.length)
      (hs : Settled game entries state) : Sound state

theorem Phase10GameState.setup_of_game? {state : Phase10GameState} (h : state.game? = none) :
    ∃ playerNames, state = .setup playerNames := by
  cases state with
  | setup playerNames => exact ⟨playerNames, rfl⟩
  | inProgress game entries => cases h
  | complete game winner count => cases h

theorem Settled.game? {game : Phase10Game} {entries : List RoundEntryModel}
    {state : Phase10GameState} (h : Settled game entries state) : state.game? = some game := by
  cases h <;> rfl

theorem Phase10GameState.Sound.ledger {state : Phase10GameState} (h : state.Sound)
    {game : Phase10Game} (hg : state.game? = some game) : Ledger game := by
  cases h with
  | setup => cases hg
  | live hl _ hs =>
    obtain rfl : _ = game := Option.some.inj (hs.game?.symm.trans hg)
    exact hl

theorem Phase10GameState.Sound.inProgress {game : Phase10Game} {entries : List RoundEntryModel}
    (h : Phase10GameState.Sound (.inProgress game entries)) :
    Ledger game ∧ entries.length = game.players.length ∧ game.completedPlayers = [] := by
  cases h with
  | live hl he hs =>
    cases hs with
    | inProgress hc => exact ⟨hl, he, hc⟩

theorem Phase10GameState.Sound.complete {game : Phase10Game} {winner : Phase10Player.Completed}
    {count : ℕ} (h : Phase10GameState.Sound (.complete game winner count)) :
    Ledger game ∧ game.completedPlayers ≠ [] ∧
      lowestScore game.completedPlayers = .ok winner ∧ count = game.completedPlayers.length := by
  cases h with
  | live hl he hs =>
    cases hs with
    | complete hc hw => exact ⟨hl, hc, hw, rfl⟩

theorem initEntries_length (game : Phase10Game) :
    (initEntries game).length = game.players.length := by simp [initEntries]

/-- With nobody completed, players and pending entries pair up into seats. -/
theorem seats_of_inProgress {players : List Phase10Player} {entries : List RoundEntryModel}
    (hc : players.filterMap (·.asCompleted) = []) (he : entries.length = players.length) :
    ∃ seats : List Seat, players = seats.map Seat.player ∧ entries = seats.map (·.2) := by
  induction players generalizing entries with
  | nil => exact ⟨[], rfl, List.length_eq_zero_iff.mp he⟩
  | cons p players ih =>
    cases entries with
    | nil => simp at he
    | cons entry entries =>
      cases p with
      | completed c => simp [Phase10Player.asCompleted] at hc
      | active a =>
        have hlen : entries.length = players.length := by simpa using he
        have hnone : players.filterMap (·.asCompleted) = [] := by
          simpa [Phase10Player.asCompleted] using hc
        obtain ⟨seats, hp, hes⟩ := ih hnone hlen
        exact ⟨(a, entry) :: seats, by simp [hp, Seat.player], by simp [hes]⟩

theorem submitRound_settles {game : Phase10Game} {entries : List RoundEntryModel}
    (hc : game.completedPlayers = []) (he : entries.length = game.players.length) :
    ∃ (seats : List Seat) (state : Phase10GameState),
      game.players = seats.map Seat.player ∧ entries = seats.map (·.2) ∧
      submitRound (.inProgress game entries) = .ok (state, saveGame state) ∧
      Settled (submittedGame game seats) (entries.map (fun _ => ⟨0, false⟩)) state := by
  obtain ⟨seats, hseats, hentries⟩ := seats_of_inProgress hc he
  obtain ⟨state, hstate, hsettled⟩ :=
    settle (submittedGame game seats) (entries.map (fun _ => ⟨0, false⟩))
  refine ⟨seats, state, hseats, hentries, ?_, hsettled⟩
  have hsubmit : submitPlayers game.players entries =
      .ok (seats.map Seat.recorded, seats.map Seat.submitted) := by
    rw [hseats, hentries]
    exact submitPlayers_eq seats
  rw [submitRound, hsubmit, ok_bind]
  change (completeOr (submittedGame game seats) (.inProgress (submittedGame game seats)
    (entries.map (fun _ => ⟨0, false⟩))) >>= fun _ => _) = _
  rw [hstate]
  rfl

theorem submitRound_spec {game : Phase10Game} {entries : List RoundEntryModel}
    (h : Phase10GameState.Sound (.inProgress game entries)) :
    ∃ (seats : List Seat) (state : Phase10GameState),
      game.players = seats.map Seat.player ∧ entries = seats.map (·.2) ∧
      submitRound (.inProgress game entries) = .ok (state, saveGame state) ∧
      Settled (submittedGame game seats) (entries.map (fun _ => ⟨0, false⟩)) state ∧
      state.Sound := by
  obtain ⟨hl, he, hc⟩ := h.inProgress
  obtain ⟨seats, state, hseats, hentries, hsubmit, hsettled⟩ := submitRound_settles hc he
  have hledger : Ledger (submittedGame game seats) := hl.submitted hseats
  have hlen : (entries.map (fun _ => (⟨0, false⟩ : RoundEntryModel))).length =
      (submittedGame game seats).players.length := by simp [submittedGame, hentries]
  exact ⟨seats, state, hseats, hentries, hsubmit, hsettled, .live hledger hlen hsettled⟩

/-- `EditRoundAsync` on a round of the history, whatever the history says. -/
theorem editRound_settles {state : Phase10GameState} {game : Phase10Game}
    (hg : state.game? = some game) {k : ℕ} {round : Phase10Round}
    (hround : game.rounds[k]? = some round) (updates : List RoundEntryModel) :
    ∃ state', editRound k updates state = .ok (state', saveGame state') ∧
      Settled (recalculated (withEdit game k round updates))
        (entriesAfterEdit state (recalculated (withEdit game k round updates))) state' := by
  obtain ⟨hk, -⟩ := List.getElem?_eq_some_iff.mp hround
  set edited := recalculated (withEdit game k round updates) with hedited
  obtain ⟨state', hstate, hsettled⟩ := settle edited (entriesAfterEdit state edited)
  have hguard : ¬ ((k : ℤ) < 0 ∨ (game.rounds.length : ℤ) ≤ (k : ℤ)) := by omega
  refine ⟨state', ?_, hsettled⟩
  simp only [editRound, hg, if_neg hguard, Int.toNat_natCast, hround, editGame_eq, ← hedited,
    ok_bind, hstate]
  rfl

theorem entriesAfterEdit_length {state : Phase10GameState} {game edited : Phase10Game}
    (hg : state.game? = some game) (hnames : edited.playerNames = game.playerNames)
    (hlen : ∀ game entries, state = .inProgress game entries →
      entries.length = game.players.length) :
    (entriesAfterEdit state edited).length = edited.players.length := by
  cases state with
  | setup _ => cases hg
  | inProgress game' entries =>
    obtain rfl : game' = game := Option.some.inj hg
    have hlength := congrArg List.length hnames
    simp only [Phase10Game.playerNames, List.length_map] at hlength
    exact (hlen game' entries rfl).trans hlength.symm
  | complete _ _ _ => exact initEntries_length edited

theorem editRound_spec {state : Phase10GameState} (h : state.Sound) {game : Phase10Game}
    (hg : state.game? = some game) {k : ℕ} {round : Phase10Round}
    (hround : game.rounds[k]? = some round) (updates : List RoundEntryModel) :
    ∃ state', editRound k updates state = .ok (state', saveGame state') ∧
      Settled (recalculated (withEdit game k round updates))
        (entriesAfterEdit state (recalculated (withEdit game k round updates))) state' ∧
      state'.Sound := by
  obtain ⟨state', hedit, hsettled⟩ := editRound_settles hg hround updates
  have hledger : Ledger (recalculated (withEdit game k round updates)) :=
    (h.ledger hg).edited hround updates
  have hlen := entriesAfterEdit_length hg
    (recalculated_playerNames (withEdit game k round updates)) (by
      rintro game' entries rfl
      exact h.inProgress.2.1)
  exact ⟨state', hedit, hsettled, .live hledger hlen hsettled⟩

theorem editRound_of_not_mem {state : Phase10GameState} {roundIndex : ℤ}
    (h : ∀ game, state.game? = some game → roundIndex < 0 ∨ game.rounds.length ≤ roundIndex)
    (updates : List RoundEntryModel) :
    editRound roundIndex updates state = .ok (state, .none) := by
  unfold editRound
  cases hg : state.game? with
  | none => rfl
  | some game => simp only [if_pos (h game hg)]

@[simp] theorem parseStoredPlayer_toStoredPlayer (p : Phase10Player) :
    parseStoredPlayer (toStoredPlayer p) = p := by cases p <;> rfl

/-- A live state with its pending entries emptied. -/
def Phase10GameState.refreshed : Phase10GameState → Phase10GameState
  | .inProgress game _ => .inProgress game (initEntries game)
  | state => state

theorem map_parseStoredPlayer (players : List Phase10Player) :
    (players.map toStoredPlayer).map parseStoredPlayer = players := by
  simp [Function.comp_def]

/-- What a sound live state saves is read back as that state. -/
theorem parseStoredGame_saved {state : Phase10GameState} (h : state.Sound)
    {stored : Phase10StoredGame} (hs : saveGame state = .setItem stored) :
    parseStoredGame stored = .ok state.refreshed := by
  cases state with
  | setup _ => cases hs
  | inProgress game entries =>
    obtain rfl : toStoredGame game false = stored := by simpa [saveGame] using hs
    simp only [parseStoredGame, toStoredGame, map_parseStoredPlayer, Bool.false_eq_true, if_false]
    rfl
  | complete game winner count =>
    obtain ⟨-, -, hw, rfl⟩ := h.complete
    obtain rfl : toStoredGame game true = stored := by simpa [saveGame] using hs
    simp only [parseStoredGame, toStoredGame, map_parseStoredPlayer, if_true]
    change (lowestScore game.completedPlayers >>= fun winner => _) = _
    rw [hw]
    rfl

theorem Phase10GameState.Sound.refreshed {state : Phase10GameState} (h : state.Sound) :
    state.refreshed.Sound := by
  cases h with
  | setup names => exact .setup names
  | live hl he hs =>
    cases hs with
    | inProgress hc => exact .live hl (initEntries_length _) (.inProgress hc)
    | complete hc hw => exact .live hl he (.complete hc hw)

/-- How an operation of a sound state leaves the state, and which store call it makes: it keeps
what would be saved and saves nothing, it saves the live state it leaves, or it removes the
game. -/
inductive Outcome (state : Phase10GameState) : Phase10GameState × StoreCall → Prop where
  | kept {state'} (h : state'.Sound) (hs : saveGame state' = saveGame state) :
      Outcome state (state', .none)
  | saved {state' game} (h : state'.Sound) (hg : state'.game? = some game) :
      Outcome state (state', saveGame state')
  | removed : Outcome state (resetToSetup, .removeItem)

namespace Phase10GameState.Sound

variable {state : Phase10GameState} (h : state.Sound)
include h

theorem addPlayer : Outcome state (Phase10GameService.addPlayer state, .none) := by
  cases state with
  | setup names =>
    rw [Phase10GameService.addPlayer]
    split <;> exact .kept (.setup _) rfl
  | inProgress game entries => exact .kept h rfl
  | complete game winner count => exact .kept h rfl

theorem removePlayer {index : ℤ} {state' : Phase10GameState}
    (hr : Phase10GameService.removePlayer index state = .ok state') :
    Outcome state (state', .none) := by
  cases state with
  | setup names =>
    rw [Phase10GameService.removePlayer] at hr
    split at hr
    · cases hr
      exact .kept (.setup _) rfl
    · split at hr <;> cases hr
      exact .kept (.setup _) rfl
  | inProgress game entries => cases hr; exact .kept h rfl
  | complete game winner count => cases hr; exact .kept h rfl

theorem typeNames (names : List String) :
    Outcome state (Phase10.typeNames names state, .none) := by
  cases state with
  | setup _ => exact .kept (.setup _) rfl
  | inProgress game entries => exact .kept h rfl
  | complete game winner count => exact .kept h rfl

theorem typeEntry (index : ℕ) (entry : RoundEntryModel) :
    Outcome state (Phase10.typeEntry index entry state, .none) := by
  cases state with
  | setup _ => exact .kept (.setup _) rfl
  | inProgress game entries =>
    obtain ⟨hl, hlen, hc⟩ := h.inProgress
    exact .kept (.live hl (by simpa using hlen) (.inProgress hc)) rfl
  | complete game winner count => exact .kept h rfl

theorem startGame : Outcome state (Phase10GameService.startGame state) := by
  cases state with
  | setup names =>
    by_cases hn : canStart names
    · have hc : (newGameOf names).completedPlayers = [] := by
        simp [Phase10Game.completedPlayers, newGameOf, Phase10Player.asCompleted]
      have hledger : Ledger (newGameOf names) := ledger_newGameOf hn
      rw [Phase10GameService.startGame, if_pos hn]
      exact .saved (.live hledger (initEntries_length _) (.inProgress hc)) rfl
    · rw [Phase10GameService.startGame, if_neg hn]
      exact .kept (.setup _) rfl
  | inProgress game entries => exact .kept h rfl
  | complete game winner count => exact .kept h rfl

theorem submitRound {next : Phase10GameState × StoreCall}
    (he : Phase10GameService.submitRound state = .ok next) : Outcome state next := by
  cases state with
  | setup names => cases he; exact .kept h rfl
  | inProgress game entries =>
    obtain ⟨seats, state, -, -, hsubmit, hsettled, hsound⟩ := submitRound_spec h
    cases hsubmit.symm.trans he
    exact .saved hsound hsettled.game?
  | complete game winner count => cases he; exact .kept h rfl

end Phase10GameState.Sound

theorem roundIndex_cases (state : Phase10GameState) (roundIndex : ℤ) :
    (∀ game, state.game? = some game → roundIndex < 0 ∨ game.rounds.length ≤ roundIndex) ∨
      ∃ game k round, state.game? = some game ∧ roundIndex = (k : ℕ) ∧
        game.rounds[k]? = some round := by
  cases hg : state.game? with
  | none => exact .inl (fun game hgame => by cases hgame)
  | some game =>
    by_cases hout : roundIndex < 0 ∨ game.rounds.length ≤ roundIndex
    · left
      intro game' hg'
      obtain rfl := Option.some.inj hg'
      exact hout
    · right
      have hnonneg : 0 ≤ roundIndex := by omega
      obtain ⟨k, rfl⟩ := Int.eq_ofNat_of_zero_le hnonneg
      have hk : k < game.rounds.length := by omega
      exact ⟨game, k, game.rounds[k], rfl, rfl, List.getElem?_eq_getElem hk⟩

theorem Phase10GameState.Sound.editRound {state : Phase10GameState} (h : state.Sound)
    {roundIndex : ℤ} {updates : List RoundEntryModel} {next : Phase10GameState × StoreCall}
    (he : Phase10GameService.editRound roundIndex updates state = .ok next) :
    Outcome state next := by
  rcases roundIndex_cases state roundIndex with hout | ⟨game, k, round, hg, rfl, hround⟩
  · cases (editRound_of_not_mem hout updates).symm.trans he
    exact .kept h rfl
  · obtain ⟨state', hedit, hsettled, hsound⟩ := editRound_spec h hg hround updates
    cases hedit.symm.trans he
    exact .saved hsound hsettled.game?

/-- Every operation of a sound state leaves a sound state. -/
theorem Phase10GameState.Sound.perform {state : Phase10GameState} (h : state.Sound)
    {operation : Operation} {next : Phase10GameState × StoreCall}
    (he : operation.perform state = .ok next) : Outcome state next := by
  cases operation with
  | addPlayer => cases he; exact h.addPlayer
  | removePlayer index =>
    obtain ⟨state', hremove, rfl⟩ : ∃ state',
        Phase10GameService.removePlayer index state = .ok state' ∧
          (state', StoreCall.none) = next := by simpa [Operation.perform] using he
    exact h.removePlayer hremove
  | typeNames names => cases he; exact h.typeNames names
  | startGame => cases he; exact h.startGame
  | typeEntry index entry => cases he; exact h.typeEntry index entry
  | submitRound => exact h.submitRound he
  | editRound roundIndex updates => exact h.editRound he
  | abandonGame => cases he; exact .removed
  | newGame => cases he; exact .removed

theorem toStoredGame_inj {game game' : Phase10Game} {isComplete isComplete' : Bool}
    (h : toStoredGame game isComplete = toStoredGame game' isComplete') :
    game = game' ∧ isComplete = isComplete' := by
  obtain ⟨players, rounds, currentRound⟩ := game
  obtain ⟨players', rounds', currentRound'⟩ := game'
  simp only [toStoredGame, Phase10StoredGame.mk.injEq] at h
  obtain ⟨hplayers, rfl, rfl, rfl⟩ := h
  have hparsed := congrArg (List.map parseStoredPlayer) hplayers
  rw [map_parseStoredPlayer, map_parseStoredPlayer] at hparsed
  exact ⟨by rw [hparsed], rfl⟩

theorem game?_of_saveGame {a b : Phase10GameState} (h : saveGame a = saveGame b) :
    a.game? = b.game? := by
  cases a <;> cases b <;>
    simp only [saveGame, reduceCtorEq, StoreCall.setItem.injEq] at h <;>
    first | rfl | exact congrArg some (toStoredGame_inj h).1

theorem Outcome.saveGame_eq {state : Phase10GameState} {next : Phase10GameState × StoreCall}
    (h : Outcome state next) (hcall : next.2 = .none) : saveGame next.1 = saveGame state := by
  cases h with
  | kept _ hs => exact hs
  | @saved state' game _ hg =>
    cases state' with
    | setup names => cases hg
    | inProgress game entries => cases hcall
    | complete game winner count => cases hcall
  | removed => cases hcall

theorem Outcome.game? {state state' : Phase10GameState} (h : Outcome state (state', .none)) :
    state'.game? = state.game? := game?_of_saveGame (h.saveGame_eq rfl)

theorem Outcome.sound {state : Phase10GameState} {next : Phase10GameState × StoreCall}
    (h : Outcome state next) : next.1.Sound := by
  cases h with
  | kept h => exact h
  | saved h => exact h
  | removed => exact .setup _

/-- A store holds nothing or what some sound live state saved. -/
def StoreSound (store : Option Phase10StoredGame) : Prop :=
  ∀ stored, store = some stored →
    ∃ state : Phase10GameState, state.Sound ∧ saveGame state = .setItem stored

theorem StoreSound.none : StoreSound none := by
  intro stored h
  cases h

theorem StoreSound.apply_saveGame {store : Option Phase10StoredGame} (h : StoreSound store)
    {state : Phase10GameState} (hs : state.Sound) : StoreSound ((saveGame state).apply store) := by
  intro stored hstored
  cases hsave : saveGame state with
  | none => exact h stored (by simpa [hsave, StoreCall.apply] using hstored)
  | removeItem => simp [hsave, StoreCall.apply] at hstored
  | setItem value =>
    obtain rfl : value = stored := by simpa [hsave, StoreCall.apply] using hstored
    exact ⟨state, hs, hsave⟩

theorem loadGame_sound {store : Option Phase10StoredGame} (h : StoreSound store)
    {state : Phase10GameState} (hs : state.Sound) :
    ∃ state', loadGame store state = .ok state' ∧ state'.Sound := by
  cases store with
  | none => exact ⟨state, rfl, hs⟩
  | some stored =>
    obtain ⟨saved, hsound, hsave⟩ := h stored rfl
    exact ⟨_, parseStoredGame_saved hsound hsave, hsound.refreshed⟩

structure Session.Sound (s : Session) : Prop where
  state : s.state.Sound
  store : StoreSound s.store

namespace Session

theorem Sound.step {s s' : Session} (h : s.Sound) {e : Event} (he : s.step e = .ok s') :
    s'.Sound := by
  cases e with
  | load =>
    obtain ⟨state, hload, hsound⟩ := loadGame_sound h.store h.state
    cases (step_load hload).symm.trans he
    exact ⟨hsound, h.store⟩
  | call operation =>
    obtain ⟨next, hnext, rfl⟩ := perform_of_step he
    have hout := h.state.perform hnext
    refine ⟨hout.sound, ?_⟩
    cases hout with
    | kept => exact h.store
    | saved hsound => exact h.store.apply_saveGame hsound
    | removed => exact .none

theorem sound_launch : launch.Sound := ⟨.setup _, .none⟩

theorem Reachable.sound {s : Session} (h : Reachable s) : s.Sound := by
  induction h with
  | launch => exact sound_launch
  | relaunch _ ih => exact ⟨.setup _, ih.store⟩
  | step _ he ih => exact ih.step he

end Session

end HwoodiwissHelper.Phase10
