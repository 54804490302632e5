import HwoodiwissHelper.Phase10.Columns
import HwoodiwissHelper.Phase10.Reload

/-!
# The history as a score sheet

A score sheet is what somebody keeping score on paper writes down: the names, and one row of
cells for every round. It listens to the operations and knows nothing of players, phases or
recalculations. The history of a live game is the sheet of its run, with repeated names too.
-/

namespace HwoodiwissHelper.Phase10

open Phase10GameService Transition

abbrev Cell := Bool × Int32

/-- What is written down for one pending or updated entry. -/
def RoundEntryModel.clamped (entry : RoundEntryModel) : Cell :=
  (entry.phaseCompleted, max 0 entry.points)

/-- The first cells of a row replaced, as far as row and updates go. -/
def overwrite (row : List Cell) (updates : List RoundEntryModel) : List Cell :=
  (updates.take row.length).map RoundEntryModel.clamped ++ row.drop updates.length

structure ScoreSheet where
  playerNames : List String
  rows : List (List Cell) := []
  deriving DecidableEq, Repr

namespace ScoreSheet

def submit (sheet : ScoreSheet) (entries : List RoundEntryModel) : ScoreSheet :=
  { sheet with rows := sheet.rows ++ [entries.map RoundEntryModel.clamped] }

def edit (sheet : ScoreSheet) (roundIndex : ℤ) (updates : List RoundEntryModel) : ScoreSheet :=
  if 0 ≤ roundIndex ∧ roundIndex < sheet.rows.length then
    { sheet with rows := sheet.rows.modify roundIndex.toNat (overwrite · updates) }
  else sheet

def listen (state : Phase10GameState) (operation : Operation) (sheet : Option ScoreSheet) :
    Option ScoreSheet :=
  match operation, state with
  | .startGame, .setup playerNames =>
    if canStart playerNames then some { playerNames := playerNames.map trim } else sheet
  | .submitRound, .inProgress _ entries => sheet.map (·.submit entries)
  | .editRound roundIndex updates, _ => sheet.map (·.edit roundIndex updates)
  | .abandonGame, _ => none
  | .newGame, _ => none
  | _, _ => sheet

end ScoreSheet

structure ScoredSession where
  session : Session
  sheet : Option ScoreSheet
  deriving DecidableEq, Repr

namespace ScoredSession

def step (s : ScoredSession) : Session.Event → Except Fault ScoredSession
  | .load => do return { s with session := ← s.session.step .load }
  | .call operation => do
    return ⟨← s.session.step (.call operation),
      ScoreSheet.listen s.session.state operation s.sheet⟩

/-- The sheet goes on when a fresh service loads the game. -/
inductive Reachable : ScoredSession → Prop where
  | launch : Reachable ⟨.launch, none⟩
  | reload {s : ScoredSession} {s' : Session} (h : Reachable s)
      (he : s.session.relaunch.step .load = .ok s') : Reachable ⟨s', s.sheet⟩
  | step {s s' : ScoredSession} {e : Session.Event} (h : Reachable s) (he : s.step e = .ok s') :
      Reachable s'

end ScoredSession

def Phase10Round.cells (round : Phase10Round) : List Cell := round.entries.map (·.cell)

def Phase10Game.sheet (game : Phase10Game) : ScoreSheet :=
  ⟨game.playerNames, game.rounds.map (·.cells)⟩

theorem column_sheet (game : Phase10Game) (i : ℕ) :
    game.sheet.rows.filterMap (·[i]?) = (game.column i).map (·.cell) := by
  simp [Phase10Game.sheet, Phase10Game.column, Phase10Round.cells, List.filterMap_map,
    List.map_filterMap]

theorem map_cell_editedEntries (entries : List Phase10RoundEntry)
    (updates : List RoundEntryModel) :
    (editedEntries entries updates).map (·.cell) = overwrite (entries.map (·.cell)) updates := by
  induction entries generalizing updates with
  | nil => simp [editedEntries, overwrite]
  | cons existing entries ih =>
    cases updates with
    | nil => simp [editedEntries, overwrite]
    | cons updated updates =>
      rw [editedEntries, List.map_cons, ih]
      simp [overwrite, editedEntry, Phase10RoundEntry.cell, RoundEntryModel.clamped]

theorem sheet_submittedGame {game : Phase10Game} {entries : List RoundEntryModel}
    {seats : List Seat} (hseats : game.players = seats.map Seat.player)
    (hentries : entries = seats.map (·.2)) :
    (submittedGame game seats).sheet = game.sheet.submit entries := by
  have hrow : (seats.map Seat.recorded).map (·.cell) = entries.map RoundEntryModel.clamped := by
    rw [hentries, List.map_map, List.map_map]
    rfl
  rw [Phase10Game.sheet, submittedGame_playerNames, ← playerNames_eq_seats hseats]
  simp [submittedGame, Phase10Game.sheet, ScoreSheet.submit, Phase10Round.cells, hrow]

@[simp] theorem sheet_recalculated (game : Phase10Game) :
    (recalculated game).sheet = game.sheet := by
  have hrows : (recalculated game).rounds.map (·.cells) = game.rounds.map (·.cells) :=
    map_rewriteRounds (fun round tallyOf names =>
      map_rewriteEntries (fun t e => t.rewrite_cell e) tallyOf names round.entries) _ _ _
  rw [Phase10Game.sheet, recalculated_playerNames, hrows]
  rfl

theorem sheet_withEdit {game : Phase10Game} {k : ℕ} {round : Phase10Round}
    (hround : game.rounds[k]? = some round) (updates : List RoundEntryModel) :
    (withEdit game k round updates).sheet = game.sheet.edit k updates := by
  obtain ⟨hk, rfl⟩ := List.getElem?_eq_some_iff.mp hround
  have hin : 0 ≤ (k : ℤ) ∧ (k : ℤ) < game.sheet.rows.length := by
    simpa [Phase10Game.sheet] using hk
  have hrows : (withEdit game k game.rounds[k] updates).rounds.map (·.cells) =
      (game.rounds.map (·.cells)).modify k (overwrite · updates) := by
    apply List.ext_getElem?
    intro j
    rw [List.getElem?_modify, List.getElem?_map, List.getElem?_map]
    by_cases hjk : k = j
    · subst hjk
      simp [withEdit, hk, Phase10Round.cells, map_cell_editedEntries]
    · simp [withEdit, hjk]
  rw [ScoreSheet.edit, if_pos hin, Int.toNat_natCast, Phase10Game.sheet, hrows]
  rfl

theorem ScoreSheet.edit_of_not_mem {sheet : ScoreSheet} {roundIndex : ℤ}
    (h : roundIndex < 0 ∨ sheet.rows.length ≤ roundIndex) (updates : List RoundEntryModel) :
    sheet.edit roundIndex updates = sheet := if_neg (by omega)

theorem ScoreSheet.edit_playerNames (sheet : ScoreSheet) (roundIndex : ℤ)
    (updates : List RoundEntryModel) :
    (sheet.edit roundIndex updates).playerNames = sheet.playerNames := by
  rw [edit]
  split <;> rfl

def Phase10GameState.sheet? (state : Phase10GameState) : Option ScoreSheet :=
  state.game?.map (·.sheet)

theorem sheet?_refreshed (state : Phase10GameState) : state.refreshed.sheet? = state.sheet? := by
  cases state <;> rfl

/-- Sheet and service take every operation to the same sheet. -/
theorem sheet?_perform {state : Phase10GameState} (h : state.Sound) {o : Operation}
    {next : Phase10GameState × StoreCall} (he : o.perform state = .ok next) :
    ScoreSheet.listen state o state.sheet? = next.1.sheet? := by
  cases o with
  | submitRound =>
    cases state with
    | setup names => cases he; rfl
    | inProgress game entries =>
      obtain ⟨seats, state', hseats, hentries, hsubmit, hsettled, -⟩ := submitRound_spec h
      cases hsubmit.symm.trans he
      simp only [ScoreSheet.listen, Phase10GameState.sheet?, hsettled.game?, Option.map_some,
        sheet_submittedGame hseats hentries]
      rfl
    | complete game winner count => cases he; rfl
  | editRound roundIndex updates =>
    rcases roundIndex_cases state roundIndex with hout | ⟨game, k, round, hg, rfl, hround⟩
    · cases (editRound_of_not_mem hout updates).symm.trans he
      cases hg : state.game? with
      | none => simp [ScoreSheet.listen, Phase10GameState.sheet?, hg]
      | some game =>
        have hout' : roundIndex < 0 ∨ game.sheet.rows.length ≤ roundIndex := by
          simpa [Phase10Game.sheet] using hout game hg
        have hsheet : game.sheet.edit roundIndex updates = game.sheet :=
          ScoreSheet.edit_of_not_mem hout' updates
        simp [ScoreSheet.listen, Phase10GameState.sheet?, hg, hsheet]
    · obtain ⟨state', hedit, hsettled, -⟩ := editRound_spec h hg hround updates
      cases hedit.symm.trans he
      simp [ScoreSheet.listen, Phase10GameState.sheet?, hg, hsettled.game?, sheet_withEdit hround]
  | startGame =>
    cases he
    cases state with
    | setup names =>
      by_cases hn : canStart names
      · simp [ScoreSheet.listen, startGame, hn, Phase10GameState.sheet?, Phase10GameState.game?,
          Phase10Game.sheet, newGameOf, Phase10Game.playerNames, Phase10Player.playerName,
          Function.comp_def]
      · simp [ScoreSheet.listen, startGame, hn]
    | inProgress game entries => rfl
    | complete game winner count => rfl
  | abandonGame => cases he; rfl
  | newGame => cases he; rfl
  | addPlayer => cases he; rw [Phase10GameState.sheet?, ← h.addPlayer.game?]; rfl
  | removePlayer index =>
    obtain ⟨state', hremove, rfl⟩ : ∃ state',
        Phase10GameService.removePlayer index state = .ok state' ∧
          (state', StoreCall.none) = next := by simpa [Operation.perform] using he
    rw [Phase10GameState.sheet?, ← (h.removePlayer hremove).game?]
    rfl
  | typeNames names => cases he; rw [Phase10GameState.sheet?, ← (h.typeNames names).game?]; rfl
  | typeEntry index entry =>
    cases he
    rw [Phase10GameState.sheet?, ← (h.typeEntry index entry).game?]
    rfl

namespace ScoredSession

theorem step_session {s s' : ScoredSession} {e : Session.Event} (he : s.step e = .ok s') :
    s.session.step e = .ok s'.session := by
  cases e with
  | load =>
    obtain ⟨t, ht, rfl⟩ : ∃ t, s.session.step .load = .ok t ∧ { s with session := t } = s' := by
      simpa [ScoredSession.step] using he
    exact ht
  | call operation =>
    obtain ⟨t, ht, rfl⟩ : ∃ t, s.session.step (.call operation) = .ok t ∧
        ⟨t, ScoreSheet.listen s.session.state operation s.sheet⟩ = s' := by
      simpa only [ScoredSession.step, map_eq_ok, bind_pure_comp] using he
    exact ht

theorem Reachable.loaded {s : ScoredSession} (h : s.Reachable) : s.session.Loaded := by
  induction h with
  | launch => exact Session.loaded_launch
  | reload _ he ih => exact .load ih.reachable he
  | step _ he ih => exact ih.step (step_session he)

theorem step_sheet {s s' : ScoredSession} (h : s.session.Loaded)
    (hs : s.sheet = s.session.state.sheet?) {e : Session.Event} (he : s.step e = .ok s') :
    s'.sheet = s'.session.state.sheet? := by
  have hsound := h.reachable.sound
  cases e with
  | load =>
    have hload := Session.step_load (loadGame_synced hsound h.synced)
    simp only [ScoredSession.step, hload, bind_pure_comp, map_eq_ok, Except.ok.injEq] at he
    obtain ⟨-, rfl, rfl⟩ := he
    exact hs.trans (sheet?_refreshed _).symm
  | call operation =>
    obtain ⟨next, hnext, rfl⟩ : ∃ next, operation.perform s.session.state = .ok next ∧
        ⟨s.session.commit next, ScoreSheet.listen s.session.state operation s.sheet⟩ = s' := by
      simpa [ScoredSession.step, Session.step] using he
    rw [hs]
    exact sheet?_perform hsound.state hnext

/-- The sheet of a run is the sheet of the game its session plays. -/
theorem Reachable.sheet_eq {s : ScoredSession} (h : s.Reachable) :
    s.sheet = s.session.state.sheet? := by
  induction h with
  | launch => rfl
  | @reload s s' h he ih =>
    obtain ⟨hsetup, hlive⟩ := h.loaded.reload
    rw [ih]
    cases hg : s.session.state.game? with
    | none =>
      obtain ⟨names, hstate⟩ := Phase10GameState.setup_of_game? hg
      cases (hsetup names hstate).symm.trans he
      rw [hstate]
      rfl
    | some game =>
      cases (hlive game hg).symm.trans he
      exact (sheet?_refreshed _).symm
  | step h he ih => exact step_sheet h.loaded ih he

end ScoredSession

/-- A game that reads as a sheet says: its rows in order, numbered from one, one entry for
every player under the name of the player. -/
structure MatchesSheet (game : Phase10Game) (sheet : ScoreSheet) : Prop where
  rows : game.rounds.map
    (fun round => round.entries.map (fun e => (e.phaseCompleted, e.pointsAdded))) = sheet.rows
  numbered : ∀ (k : ℕ) round, game.rounds[k]? = some round → round.roundNumber.toInt = k + 1
  current : game.currentRound.toInt = game.rounds.length + 1
  seats : ∀ round ∈ game.rounds,
    round.entries.map (·.playerName) = game.players.map (·.playerName)
  names : game.players.map (·.playerName) = sheet.playerNames

/-- The history is exactly the log of what was submitted and edited, in every run. -/
theorem history_is_score_sheet {s : ScoredSession} (h : s.Reachable) {game : Phase10Game}
    (hg : s.session.state.game? = some game) (hbound : game.rounds.length < 2 ^ 31 - 1) :
    ∃ sheet, s.sheet = some sheet ∧ MatchesSheet game sheet := by
  have hl := h.loaded.reachable.sound.state.ledger hg
  have hsheet : s.sheet = some game.sheet := by rw [h.sheet_eq, Phase10GameState.sheet?, hg]; rfl
  refine ⟨_, hsheet, rfl, ?_, ?_, hl.rows, rfl⟩
  · intro k round hround
    obtain ⟨hk, rfl⟩ := List.getElem?_eq_some_iff.mp hround
    have hnumber : game.rounds[k].roundNumber = Int32.ofNat (k + 1) := by
      have hget := congrArg (·[k]?) hl.numbered
      simpa [hk] using hget
    rw [hnumber, Int32.toInt_ofNat_of_lt (by omega)]
    rfl
  · rw [hl.current, Int32.toInt_ofNat_of_lt (by omega)]
    rfl

/-- Two players of one name, an edit of the second row and a submit after a reload. -/
theorem history_is_score_sheet_namesakes : ∃ (s : ScoredSession) (game : Phase10Game),
    s.Reachable ∧ s.session.state.game? = some game ∧
    s.sheet = some ⟨["Ann", "Ann"],
      [[(true, 5), (false, 0)], [(false, 30), (true, 7)], [(true, 0), (false, 25)]]⟩ ∧
    ∃ sheet, s.sheet = some sheet ∧ MatchesSheet game sheet := by
  obtain ⟨s, hs, hp⟩ := exists_of_run (I := ScoredSession.Reachable) ScoredSession.step
    (fun _ _ _ hs he => hs.step he) .launch
    ([.call (.typeNames ["Ann", " Ann"]), .call .startGame] ++
      Session.playRound [⟨5, true⟩, ⟨-3, false⟩] ++ Session.playRound [⟨10, true⟩, ⟨7, true⟩] ++
      [.call (.editRound 1 [⟨30, false⟩]), .call (.editRound 7 []), .load] ++
      Session.playRound [⟨0, true⟩, ⟨25, false⟩])
    (fun s => s.sheet = some ⟨["Ann", "Ann"],
        [[(true, 5), (false, 0)], [(false, 30), (true, 7)], [(true, 0), (false, 25)]]⟩ ∧
      s.session.state.game?.map (·.rounds.length) = some 3) (by decide +kernel)
  obtain ⟨hsheet, hrounds⟩ := of_decide_eq_true hp
  obtain ⟨game, hg, hlen⟩ := Option.map_eq_some_iff.mp hrounds
  have hbound : game.rounds.length < 2 ^ 31 - 1 := by
    rw [hlen]
    decide
  exact ⟨s, game, hs, hg, hsheet, history_is_score_sheet hs hg hbound⟩

end HwoodiwissHelper.Phase10
