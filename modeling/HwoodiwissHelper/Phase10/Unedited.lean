import HwoodiwissHelper.Phase10.Replay
import HwoodiwissHelper.Phase10.RestrictedRuns

/-!
# Games without edits

As long as no round is edited every seat stands where its own column puts it, also that of a
namesake, and a game ends with its last round.
-/

namespace HwoodiwissHelper.Phase10

open Phase10GameService Transition Milestone KeyedList

/-- Where the game of a state comes from after an operation that is no edit: it is the same one, a
new one, or one more round was played. -/
inductive Continues (state : Phase10GameState) (game : Phase10Game) : Prop where
  | kept (hg : state.game? = some game)
  | started (names : List String) (hstate : state = .setup names) (hstart : canStart names = true)
      (hgame : game = newGameOf names)
  | played (prior : Phase10Game) (entries : List RoundEntryModel) (seats : List Seat)
      (hstate : state = .inProgress prior entries) (hseats : prior.players = seats.map Seat.player)
      (hentries : entries = seats.map (·.2)) (hgame : game = submittedGame prior seats)

def Operation.isEdit : Operation → Bool
  | .editRound _ _ => true
  | _ => false

def NoEdit (_ : Phase10GameState) (operation : Operation) : Prop := operation.isEdit = false

instance (state : Phase10GameState) (operation : Operation) : Decidable (NoEdit state operation) :=
  inferInstanceAs (Decidable (operation.isEdit = false))

theorem continues_perform {state : Phase10GameState} (h : state.Sound) {o : Operation}
    (hedit : NoEdit state o) {next : Phase10GameState × StoreCall}
    (he : o.perform state = .ok next) {game : Phase10Game} (hg : next.1.game? = some game) :
    Continues state game := by
  cases o with
  | submitRound =>
    cases state with
    | setup names => cases he; exact .kept hg
    | inProgress prior entries =>
      obtain ⟨seats, state', hseats, hentries, hsubmit, hsettled, -⟩ := submitRound_spec h
      cases hsubmit.symm.trans he
      obtain rfl := Option.some.inj (hsettled.game?.symm.trans hg)
      exact .played prior entries seats rfl hseats hentries rfl
    | complete game' winner count => cases he; exact .kept hg
  | editRound r updates => cases hedit
  | startGame =>
    cases he
    cases state with
    | setup names =>
      by_cases hn : canStart names = true
      · simp only [startGame, hn, if_true, Phase10GameState.game?, Option.some.injEq] at hg
        exact .started names rfl hn hg.symm
      · simp [startGame, hn, Phase10GameState.game?] at hg
    | inProgress game' entries => exact .kept hg
    | complete game' winner count => exact .kept hg
  | abandonGame => cases he; cases hg
  | newGame => cases he; cases hg
  | addPlayer =>
    cases he
    rw [h.addPlayer.game?] at hg
    exact .kept hg
  | removePlayer index =>
    obtain ⟨state', hremove, rfl⟩ : ∃ state',
        Phase10GameService.removePlayer index state = .ok state' ∧
          (state', StoreCall.none) = next := by simpa [Operation.perform] using he
    rw [(h.removePlayer hremove).game?] at hg
    exact .kept hg
  | typeNames names =>
    cases he
    rw [(h.typeNames names).game?] at hg
    exact .kept hg
  | typeEntry index entry =>
    cases he
    rw [(h.typeEntry index entry).game?] at hg
    exact .kept hg

/-- A game whose rounds were played and left alone: the player at every seat is what its column
amounts to, and the rounds before the last one completed nobody. -/
structure Played (game : Phase10Game) : Prop where
  seats : ∀ i p, game.players[i]? = some p → p = standing p.playerName (game.column i)
  phases : ∀ i, PhasesFrom 0 (game.column i)
  before : OpenRows game.players.length game.sheet.rows.dropLast

theorem played_newGameOf (names : List String) : Played (newGameOf names) where
  seats i p hp := by
    obtain ⟨name, -, rfl⟩ := List.mem_map.mp (List.mem_of_getElem? hp)
    rfl
  phases i := trivial
  before i _ := by
    change 0 < 10
    omega

theorem column_submittedGame (game : Phase10Game) (seats : List Seat) (i : ℕ) :
    (submittedGame game seats).column i =
      game.column i ++ (seats[i]?.map Seat.recorded).toList := by
  cases hseat : seats[i]? <;>
    simp [Phase10Game.column, submittedGame, List.filterMap_append, hseat]

theorem Played.open_rows {game : Phase10Game} (h : Played game) (hc : game.completedPlayers = []) :
    OpenRows game.players.length game.sheet.rows := by
  intro i hi
  have hp : game.players[i]? = some game.players[i] := List.getElem?_eq_getElem hi
  have hplayer := h.seats i _ hp
  rw [column_sheet, List.countP_map]
  by_contra hten
  have hten' : 10 ≤ completedPhases (game.column i) := Nat.not_lt.mp hten
  rw [standing_eq, if_pos hten'] at hplayer
  have hmem : .completed ⟨_, _⟩ ∈ game.players := hplayer ▸ List.getElem_mem hi
  rw [← Phase10Game.completed_mem, hc] at hmem
  cases hmem

theorem Played.seat {game : Phase10Game} (h : Played game) {seats : List Seat}
    (hseats : game.players = seats.map Seat.player) {i : ℕ} {seat : Seat}
    (hseat : seats[i]? = some seat) : ∃ name hits total pending, hits < 10 ∧
      tally (game.column i) = .running hits total ∧
        seat = (⟨name, phaseAfter hits, total⟩, pending) := by
  have hp : game.players[i]? = some seat.player := by simp [hseats, hseat]
  have hplayer := h.seats i _ hp
  have hopen := tally_open (game.column i)
  cases ht : tally (game.column i) with
  | done total => simp [standing, ht, playerOf, Seat.player] at hplayer
  | running hits total =>
    rw [ht] at hopen
    rw [standing, ht] at hplayer
    exact ⟨_, hits, total, seat.2, hopen, rfl, Prod.ext (Phase10Player.active.inj hplayer) rfl⟩

theorem Played.submitted {game : Phase10Game} (h : Played game)
    (hc : game.completedPlayers = []) {entries : List RoundEntryModel} {seats : List Seat}
    (hseats : game.players = seats.map Seat.player) (hentries : entries = seats.map (·.2)) :
    Played (submittedGame game seats) where
  seats i p hp := by
    obtain ⟨seat, hseat, rfl⟩ : ∃ seat, seats[i]? = some seat ∧ seat.submitted = p := by
      simpa [submittedGame, Option.map_eq_some_iff] using hp
    obtain ⟨name, hits, total, pending, hlt, ht, rfl⟩ := h.seat hseats hseat
    rw [column_submittedGame, hseat, Option.map_some, Option.toList_some, standing, tally_snoc, ht,
      Seat.submitted_playerName]
    exact submittedPlayer_eq name total pending hlt
  phases i := by
    rw [column_submittedGame, phasesFrom_append]
    refine ⟨h.phases i, ?_⟩
    cases hseat : seats[i]? with
    | none => trivial
    | some seat =>
      obtain ⟨name, hits, total, pending, -, ht, rfl⟩ := h.seat hseats hseat
      have hcount := tally_counts (game.column i)
      rw [ht] at hcount
      obtain rfl : hits = (game.column i).countP (·.phaseCompleted) := hcount
      refine ⟨?_, trivial⟩
      rw [Nat.zero_add]
      rfl
  before := by
    have hlen : (submittedGame game seats).players.length = game.players.length := by
      simp [submittedGame, hseats]
    rw [sheet_submittedGame hseats hentries, hlen]
    simp only [ScoreSheet.submit, List.dropLast_concat]
    exact h.open_rows hc

theorem Played.completedPlayers_of_open {game : Phase10Game} (h : Played game)
    (hopen : OpenRows game.players.length game.sheet.rows) : game.completedPlayers = [] := by
  apply List.filterMap_eq_nil_iff.mpr
  intro p hp
  obtain ⟨i, hi⟩ := List.getElem?_of_mem hp
  have hlt := hopen i (List.getElem?_eq_some_iff.mp hi).1
  rw [column_sheet, List.countP_map] at hlt
  have hten : ¬ 10 ≤ completedPhases (game.column i) := Nat.not_le.mpr hlt
  rw [h.seats i p hi, standing_eq, if_neg hten]
  rfl

theorem played_of_noEdit {s : Archive} (h : s.ReachableBy NoEdit) {game : Phase10Game}
    (hg : s.state.game? = some game) : Played game := by
  refine (h.invariant (P := fun state => ∀ game, state.game? = some game → Played game)
    ?_ ?_ ?_).1 game hg
  · intro game hg
    cases hg
  · intro state hp game hg
    apply hp
    cases state with
    | setup names => exact hg
    | inProgress game' entries => exact hg
    | complete game' winner count => exact hg
  · intro state operation next hsound hp hedit hnext game hg
    rcases continues_perform hsound hedit hnext hg with
      hkept | ⟨names, -, -, rfl⟩ | ⟨prior, entries, seats, rfl, hseats, hentries, rfl⟩
    · exact hp game hkept
    · exact played_newGameOf names
    · exact (hp prior rfl).submitted hsound.inProgress.2.2 hseats hentries

/-- What a player shows of a column of the history, and the phases that the column records. -/
structure ReadsOff (column : List Phase10RoundEntry) (p : Phase10Player) : Prop where
  completed : (∃ c, p = .completed c) ↔ 10 ≤ completedPhases column
  active : ∀ a, p = .active a → a.phase.toInt = 1 + (completedPhases column : ℤ)
  score : p.score = scoreOf column
  phases : ∀ k e, column[k]? = some e →
    e.phase.toInt = min 10 (1 + (completedPhases (column.take k) : ℤ))

theorem readsOff_standing {column : List Phase10RoundEntry} (h : PhasesFrom 0 column)
    (name : String) : ReadsOff column (standing name column) := by
  have hphases (k : ℕ) (e : Phase10RoundEntry) (he : column[k]? = some e) :
      e.phase.toInt = min 10 (1 + (completedPhases (column.take k) : ℤ)) := by
    rw [h.phase he, toInt_phaseAfter, Nat.zero_add]
    push_cast
    rfl
  rw [standing_eq]
  by_cases hten : 10 ≤ completedPhases column
  · rw [if_pos hten]
    exact ⟨⟨fun _ => hten, fun _ => ⟨_, rfl⟩⟩, nofun, rfl, hphases⟩
  · rw [if_neg hten]
    refine ⟨⟨?_, fun h10 => absurd h10 hten⟩, ?_, rfl, hphases⟩
    · rintro ⟨c, hc⟩
      cases hc
    · rintro a ⟨⟩
      change (phaseAfter (completedPhases column)).toInt = _
      rw [toInt_phaseAfter]
      omega

/-- As long as nothing is edited, every seat shows what its own column amounts to, also that of a
namesake, and a game is over as soon as somebody completed the tenth phase, in its last round. -/
theorem unedited_exact {s : Archive} (h : s.ReachableBy NoEdit) {game : Phase10Game}
    (hg : s.state.game? = some game) :
    (∀ i p, game.players[i]? = some p → ReadsOff (game.column i) p) ∧
      OpenRows game.players.length game.sheet.rows.dropLast ∧
      ((∃ winner count, s.state = .complete game winner count) ↔
        ¬ OpenRows game.players.length game.sheet.rows) := by
  have hplayed := played_of_noEdit h hg
  have hsound := h.reachable.sound.state
  refine ⟨?_, hplayed.before, ?_, ?_⟩
  · intro i p hp
    rw [hplayed.seats i p hp]
    exact readsOff_standing (hplayed.phases i) p.playerName
  · rintro ⟨winner, count, hstate⟩ hopen
    rw [hstate] at hsound
    exact hsound.complete.2.1 (hplayed.completedPlayers_of_open hopen)
  · intro hopen
    cases hstate : s.state with
    | setup names =>
      rw [hstate] at hg
      cases hg
    | inProgress game' entries =>
      rw [hstate] at hg hsound
      obtain rfl : game' = game := Option.some.inj hg
      exact absurd (hplayed.open_rows hsound.inProgress.2.2) hopen
    | complete game' winner count =>
      rw [hstate] at hg
      obtain rfl : game' = game := Option.some.inj hg
      exact ⟨winner, count, rfl⟩

/-- The second of two namesakes completes the game. -/
theorem unedited_exact_namesakes : ∃ (s : Archive) (game : Phase10Game), s.ReachableBy NoEdit ∧
    s.state.game? = some game ∧
    game.players = [.active ⟨"Ann", 1, 10⟩, .completed ⟨"Ann", 20⟩] ∧
    ReadsOff (game.column 1) (.completed ⟨"Ann", 20⟩) ∧
    ∃ winner count, s.state = .complete game winner count := by
  let events : List Session.Event := [.call (.typeNames ["Ann", "Ann"]), .call .startGame] ++
    (List.replicate 10 (Session.playRound [⟨1, false⟩, ⟨2, true⟩] ++ [.load])).flatten
  obtain ⟨s, hr, hp⟩ := run_of_eval Session.step .launch events
    (fun s => s.state.game?.map (·.players) =
        some [.active ⟨"Ann", 1, 10⟩, .completed ⟨"Ann", 20⟩] ∧
      s.state.game?.map (fun game => decide (OpenRows 2 game.sheet.rows)) = some false)
    (by decide +kernel)
  obtain ⟨hplayers, hopen⟩ := of_decide_eq_true hp
  have hedits : Along Session.step (Session.Allows NoEdit) .launch events := by decide +kernel
  obtain ⟨saved, hreach, -⟩ := Session.archived_of_run hedits hr
  obtain ⟨game, hg, hplayers⟩ := Option.map_eq_some_iff.mp hplayers
  have hover : ¬ OpenRows game.players.length game.sheet.rows := by
    rw [hplayers]
    simpa [hg] using hopen
  have hexact := unedited_exact hreach hg
  exact ⟨_, game, hreach, hg, hplayers, hexact.1 1 _ (by rw [hplayers]; rfl),
    hexact.2.2.mpr hover⟩

end HwoodiwissHelper.Phase10
