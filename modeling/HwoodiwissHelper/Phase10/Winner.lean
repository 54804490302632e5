import HwoodiwissHelper.Phase10.ScoreSheet

/-!
# Who wins

A player finishes in the round of its tenth completed phase. Submits stop at the first round in
which anybody finishes, so all who completed finished together there. An edit can leave players
who finished in different rounds, and the winner is still looked for among all of them.
-/

namespace HwoodiwissHelper.Phase10

open Phase10GameService Transition Milestone

namespace Phase10Game

/-- The round in which the tenth completed phase of a seat lies. -/
def finishRound (game : Phase10Game) (i : ℕ) : Option ℕ :=
  position (·.phaseCompleted) 9 (game.column i)

/-- All seats that finished did so in one round. -/
def OneFinish (game : Phase10Game) : Prop :=
  ∀ i j r r', game.finishRound i = some r → game.finishRound j = some r' → r = r'

end Phase10Game

/-- The winner finished in the earliest round in which anybody did, with the lowest score of
those who finished in that round, and the count is theirs. -/
def RightWinner (game : Phase10Game) (winner : Phase10Player.Completed) (count : ℕ) : Prop :=
  ∃ r, (∀ i r', game.finishRound i = some r' → r ≤ r') ∧
    (∃ i, game.finishRound i = some r ∧ game.players[i]? = some (.completed winner)) ∧
    (∀ i p, game.finishRound i = some r → game.players[i]? = some p → winner.score ≤ p.score) ∧
    count = (List.range game.players.length).countP (fun i => game.finishRound i = some r)

theorem isSome_finishRound {game : Phase10Game} {i : ℕ} :
    (game.finishRound i).isSome ↔ 10 ≤ completedPhases (game.column i) :=
  position_isSome_iff _

theorem Ledger.completed_iff {game : Phase10Game} (h : Ledger game)
    (hn : game.playerNames.Nodup) {i : ℕ} {p : Phase10Player} (hp : game.players[i]? = some p) :
    (∃ c, p = .completed c) ↔ (game.finishRound i).isSome := by
  rw [isSome_finishRound, h.player_firstSeat (firstSeat_of_nodup hn hp), standing_eq]
  split
  · next h10 => exact ⟨fun _ => h10, fun _ => ⟨_, rfl⟩⟩
  · next h10 => exact ⟨fun ⟨c, hc⟩ => (by cases hc), fun h => absurd h h10⟩

theorem Ledger.seat_of_finishRound {game : Phase10Game} (h : Ledger game)
    (hn : game.playerNames.Nodup) {i r : ℕ} (hr : game.finishRound i = some r) :
    ∃ c, game.players[i]? = some (.completed c) := by
  cases hp : game.players[i]? with
  | none =>
    have hcol := h.column_of_le (List.getElem?_eq_none_iff.mp hp)
    simp [Phase10Game.finishRound, hcol, position] at hr
  | some p =>
    obtain ⟨c, rfl⟩ := (h.completed_iff hn hp).mpr (by rw [hr]; rfl)
    exact ⟨c, rfl⟩

theorem mem_completedPlayers {game : Phase10Game} {c : Phase10Player.Completed} :
    c ∈ game.completedPlayers ↔ ∃ i : ℕ, game.players[i]? = some (.completed c) := by
  rw [Phase10Game.completed_mem, List.mem_iff_getElem?]

theorem Ledger.completedPlayers_length {game : Phase10Game} (h : Ledger game)
    (hn : game.playerNames.Nodup) :
    game.completedPlayers.length =
      (List.range game.players.length).countP (fun i => (game.finishRound i).isSome) := by
  refine length_filterMap_eq_countP_range (fun i p hp => ?_)
  rw [Bool.eq_iff_iff, ← h.completed_iff hn hp]
  cases p <;> simp [Phase10Player.asCompleted]

/-- The winner of a game that is over is the right one exactly when all who finished did so in
one round. -/
theorem rightWinner_iff {game : Phase10Game} {winner : Phase10Player.Completed} {count : ℕ}
    (h : Phase10GameState.Sound (.complete game winner count)) (hn : game.playerNames.Nodup) :
    RightWinner game winner count ↔ game.OneFinish := by
  obtain ⟨hl, -, hwinner, hcount⟩ := h.complete
  obtain ⟨hmem, hlowest⟩ := lowestScore_spec hwinner
  rw [hl.completedPlayers_length hn] at hcount
  constructor
  · rintro ⟨r, -, -, -, hcount'⟩
    -- as many seats finished in round `r` as finished at all
    have hall (i r') (hr' : game.finishRound i = some r') : r' = r := by
      obtain ⟨c, hc⟩ := hl.seat_of_finishRound hn hr'
      have hmem : i ∈ List.range game.players.length :=
        List.mem_range.mpr (List.getElem?_eq_some_iff.mp hc).1
      have hi := imp_of_countP_eq (fun i _ hi => by simp_all) (hcount'.symm.trans hcount) i hmem
        (by simp [hr'])
      simpa [hr'] using hi
    intro i j r₁ r₂ h₁ h₂
    rw [hall i r₁ h₁, hall j r₂ h₂]
  · intro hone
    obtain ⟨i, hi⟩ := mem_completedPlayers.mp hmem
    have hfinished : (game.finishRound i).isSome := (hl.completed_iff hn hi).mp ⟨_, rfl⟩
    obtain ⟨r, hr⟩ := Option.isSome_iff_exists.mp hfinished
    refine ⟨r, ?_, ⟨i, hr, hi⟩, ?_, ?_⟩
    · intro j r' hr'
      exact (hone i j r r' hr hr').le
    · intro j p hj hp
      obtain ⟨c, hc⟩ := hl.seat_of_finishRound hn hj
      obtain rfl := Option.some.inj (hp.symm.trans hc)
      exact hlowest c (mem_completedPlayers.mpr ⟨j, hc⟩)
    · rw [hcount]
      apply List.countP_congr
      intro j _
      constructor
      · intro hj
        obtain ⟨r', hr'⟩ := Option.isSome_iff_exists.mp hj
        simp [hr', hone i j r r' hr hr']
      · intro hj
        simp_all

namespace ScoreSheet

def finishRound (sheet : ScoreSheet) (i : ℕ) : Option ℕ :=
  position (fun cell : Cell => cell.1) 9 (sheet.rows.filterMap (·[i]?))

def OneFinish (sheet : ScoreSheet) : Prop :=
  ∀ i j r r', sheet.finishRound i = some r → sheet.finishRound j = some r' → r = r'

theorem finishRound_sheet (game : Phase10Game) (i : ℕ) :
    game.sheet.finishRound i = game.finishRound i := by
  rw [finishRound, column_sheet, position_map]
  rfl

theorem oneFinish_sheet (game : Phase10Game) : game.sheet.OneFinish ↔ game.OneFinish := by
  simp only [OneFinish, Phase10Game.OneFinish, finishRound_sheet]

end ScoreSheet

/-- In a state that is over the winner is the right one, as long as the names are pairwise
different. -/
def RightlyWon (state : Phase10GameState) : Prop :=
  ∀ game winner count, state = .complete game winner count → game.playerNames.Nodup →
    RightWinner game winner count

theorem Ledger.finishRound_of_active {game : Phase10Game} (h : Ledger game)
    (hn : game.playerNames.Nodup) (hc : game.completedPlayers = []) (i : ℕ) :
    game.finishRound i = none := by
  apply Option.eq_none_iff_forall_ne_some.mpr
  intro r hr
  obtain ⟨c, hi⟩ := h.seat_of_finishRound hn hr
  have hmem := mem_completedPlayers.mpr ⟨i, hi⟩
  rw [hc] at hmem
  cases hmem

/-- The winner is right exactly when the sheet of the game has one finishing row. -/
theorem rightlyWon_iff {state : Phase10GameState} (h : state.Sound) :
    RightlyWon state ↔ ∀ sheet, state.sheet? = some sheet → sheet.playerNames.Nodup →
      sheet.OneFinish := by
  constructor
  · intro hright sheet hsheet hn
    obtain ⟨game, hg, rfl⟩ := Option.map_eq_some_iff.mp hsheet
    rw [ScoreSheet.oneFinish_sheet]
    cases state with
    | setup names => cases hg
    | inProgress game' entries =>
      obtain rfl := Option.some.inj hg
      intro i j r r' hr
      rw [h.inProgress.1.finishRound_of_active hn h.inProgress.2.2] at hr
      cases hr
    | complete game' winner count =>
      obtain rfl := Option.some.inj hg
      exact (rightWinner_iff h hn).mp (hright _ _ _ rfl hn)
  · rintro hone game winner count rfl hn
    exact (rightWinner_iff h hn).mpr
      ((ScoreSheet.oneFinish_sheet game).mp (hone game.sheet rfl hn))

theorem oneFinish_submittedGame {game : Phase10Game} (h : Ledger game)
    (hc : game.completedPlayers = []) {seats : List Seat}
    (hseats : game.players = seats.map Seat.player)
    (hn : (submittedGame game seats).playerNames.Nodup) : (submittedGame game seats).OneFinish := by
  have hl := h.submitted hseats
  have hn' : game.playerNames.Nodup := by
    rwa [playerNames_eq_seats hseats, ← submittedGame_playerNames game seats]
  have hlast (i r) (hr : (submittedGame game seats).finishRound i = some r) :
      r = game.rounds.length := by
    obtain ⟨c, hi⟩ := hl.seat_of_finishRound hn hr
    have hlen := hl.column_length hi
    have hlt := position_lt_length _ hr
    obtain ⟨p, hp⟩ : ∃ p, game.players[i]? = some p := by
      obtain ⟨seat, hseat, -⟩ : ∃ seat, seats[i]? = some seat ∧
          seat.submitted = .completed c := by
        simpa [submittedGame, Option.map_eq_some_iff] using hi
      refine ⟨seat.player, ?_⟩
      rw [hseats, List.getElem?_map, hseat]
      rfl
    have hcolumn : (submittedGame game seats).column i =
        game.column i ++ ((seats.map Seat.recorded)[i]?).toList := by
      simp only [Phase10Game.column, submittedGame, List.filterMap_append]
      cases hget : (seats.map Seat.recorded)[i]? <;> simp [hget]
    rw [Phase10Game.finishRound, hcolumn] at hr
    have hle := length_le_of_position_append _ (h.finishRound_of_active hn' hc i) hr
    have hrounds : (submittedGame game seats).rounds.length = game.rounds.length + 1 := by
      simp [submittedGame]
    rw [h.column_length hp] at hle
    omega
  intro i j r r' hr hr'
  rw [hlast i r hr, hlast j r' hr']

theorem ScoreSheet.oneFinish_empty (playerNames : List String) :
    ScoreSheet.OneFinish { playerNames := playerNames } := by
  intro i j r r' hr
  simp [finishRound, position] at hr

/-- The condition on a step: an edit leaves a sheet on which all seats that finish do so in one
row. -/
def KeepsOneFinish (s : Session) (e : Session.Event) : Prop :=
  ∀ roundIndex updates sheet, e = .call (.editRound roundIndex updates) →
    s.state.sheet? = some sheet → sheet.playerNames.Nodup →
    (sheet.edit roundIndex updates).OneFinish

theorem oneFinish_listen {state : Phase10GameState} (h : state.Sound)
    (hone : ∀ sheet, state.sheet? = some sheet → sheet.playerNames.Nodup → sheet.OneFinish)
    {operation : Operation} (hop : ∀ roundIndex updates, operation ≠ .editRound roundIndex updates)
    {sheet : ScoreSheet} (hsheet : ScoreSheet.listen state operation state.sheet? = some sheet)
    (hn : sheet.playerNames.Nodup) : sheet.OneFinish := by
  cases operation with
  | editRound roundIndex updates => exact absurd rfl (hop roundIndex updates)
  | startGame =>
    cases state with
    | setup names =>
      by_cases hstart : canStart names
      · obtain rfl : { playerNames := names.map trim } = sheet := by
          simpa [ScoreSheet.listen, hstart] using hsheet
        exact ScoreSheet.oneFinish_empty _
      · simp [ScoreSheet.listen, hstart, Phase10GameState.sheet?, Phase10GameState.game?] at hsheet
    | inProgress game entries => exact hone sheet hsheet hn
    | complete game winner count => exact hone sheet hsheet hn
  | submitRound =>
    cases state with
    | setup names => exact hone sheet hsheet hn
    | inProgress game entries =>
      obtain ⟨hl, -, hc⟩ := h.inProgress
      obtain ⟨seats, state', hseats, hentries, -⟩ := submitRound_spec h
      obtain rfl : (submittedGame game seats).sheet = sheet := by
        rw [sheet_submittedGame hseats hentries]
        exact Option.some.inj hsheet
      exact (ScoreSheet.oneFinish_sheet _).mpr (oneFinish_submittedGame hl hc hseats hn)
    | complete game winner count => exact hone sheet hsheet hn
  | abandonGame => cases hsheet
  | newGame => cases hsheet
  | addPlayer => exact hone sheet hsheet hn
  | removePlayer index => exact hone sheet hsheet hn
  | typeNames names => exact hone sheet hsheet hn
  | typeEntry index entry => exact hone sheet hsheet hn

/-- One operation keeps the right winner exactly under the condition. -/
theorem rightlyWon_perform {s : Session} (h : s.Sound) (hright : RightlyWon s.state)
    {operation : Operation} {next : Phase10GameState × StoreCall}
    (he : operation.perform s.state = .ok next) :
    RightlyWon next.1 ↔ KeepsOneFinish s (.call operation) := by
  rw [rightlyWon_iff (h.state.perform he).sound, ← sheet?_perform h.state he]
  by_cases hop : ∃ roundIndex updates, operation = .editRound roundIndex updates
  · obtain ⟨roundIndex, updates, rfl⟩ := hop
    constructor
    · intro hnext roundIndex' updates' sheet heq hsheet hn
      obtain ⟨rfl, rfl⟩ := Operation.editRound.inj (Session.Event.call.inj heq)
      refine hnext _ ?_ (by rwa [ScoreSheet.edit_playerNames])
      rw [ScoreSheet.listen, hsheet]
      rfl
    · intro hkeeps sheet hsheet hn
      obtain ⟨sheet', hsheet', rfl⟩ := Option.map_eq_some_iff.mp hsheet
      rw [ScoreSheet.edit_playerNames] at hn
      exact hkeeps _ _ _ rfl hsheet' hn
  · push Not at hop
    constructor
    · intro _ roundIndex updates sheet heq
      exact absurd (Session.Event.call.inj heq) (hop roundIndex updates)
    · intro _ sheet hsheet hn
      have hone := (rightlyWon_iff h.state).mp hright
      exact oneFinish_listen h.state hone hop hsheet hn

/-- Along a run the right player wins in every state that is over with pairwise different names,
exactly when every edit leaves a sheet with one finishing row. -/
theorem right_winner_iff (events : List Session.Event) :
    Always Session.step (fun s => RightlyWon s.state) .launch events ↔
      Along Session.step KeepsOneFinish .launch events := by
  refine always_iff_along (I := Session.Loaded) (fun _ _ _ hs he => hs.step he) ?_
    Session.loaded_launch (fun game winner count h => by cases h) events
  intro s e s' hs hright he
  have hsound := hs.reachable.sound
  cases e with
  | load =>
    cases (Session.step_load (loadGame_synced hsound hs.synced)).symm.trans he
    constructor
    · intro _ _ _ _ heq
      cases heq
    · intro _
      apply (rightlyWon_iff hsound.state.refreshed).mpr
      intro sheet hsheet
      rw [sheet?_refreshed] at hsheet
      exact (rightlyWon_iff hsound.state).mp hright sheet hsheet
  | call operation =>
    obtain ⟨next, hnext, rfl⟩ := Session.perform_of_step he
    exact rightlyWon_perform hsound hright hnext

/-- Nine rounds in which both complete a phase, one in which nobody does and one in which Bob
does; then round ten is edited to say that Ann completed her tenth phase there. She finished a
round before Bob, and Bob is announced as the winner of two. -/
theorem later_finisher_wins : ∃ (s : Session) (game : Phase10Game), s.Reachable ∧
    game.playerNames = ["Ann", "Bob"] ∧ game.finishRound 0 = some 9 ∧
    game.finishRound 1 = some 10 ∧ s.state = .complete game ⟨"Bob", 0⟩ 2 ∧
    ¬ RightWinner game ⟨"Bob", 0⟩ 2 := by
  obtain ⟨s, hs, hp⟩ := Session.reachable_of_run
    ([.call (.typeNames ["Ann", "Bob"]), .call .startGame] ++
      (List.replicate 9 (Session.playRound [⟨0, true⟩, ⟨0, true⟩])).flatten ++
      Session.playRound [⟨5, false⟩, ⟨0, false⟩] ++ Session.playRound [⟨5, false⟩, ⟨0, true⟩] ++
      [.call (.editRound 9 [⟨5, true⟩, ⟨0, false⟩])])
    (fun s => match s.state with
      | .complete game winner count => game.playerNames = ["Ann", "Bob"] ∧
        game.finishRound 0 = some 9 ∧ game.finishRound 1 = some 10 ∧ winner = ⟨"Bob", 0⟩ ∧ count = 2
      | _ => false) (by decide +kernel)
  cases hstate : s.state with
  | setup names => simp [hstate] at hp
  | inProgress game entries => simp [hstate] at hp
  | complete game winner count =>
    simp only [hstate, decide_eq_true_eq] at hp
    obtain ⟨hnames, hann, hbob, rfl, rfl⟩ := hp
    refine ⟨s, game, hs, hnames, hann, hbob, hstate, fun hright => ?_⟩
    have hsound : Phase10GameState.Sound (.complete game ⟨"Bob", 0⟩ 2) := hstate ▸ hs.sound.state
    have hone := (rightWinner_iff hsound (by rw [hnames]; decide)).mp hright
    exact absurd (hone 0 1 9 10 hann hbob) (by decide)

end HwoodiwissHelper.Phase10
