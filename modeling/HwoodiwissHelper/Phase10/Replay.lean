import HwoodiwissHelper.Phase10.EditRuns
import HwoodiwissHelper.Phase10.Page

/-!
# Edits as if they had never been

When the names of the players are different, the sheet decides everything: an edit is undone by
writing back what was there, and a game with edits is the game in which the rounds were played as
they read now.
-/

namespace HwoodiwissHelper.Phase10

open Phase10GameService Transition KeyedList

theorem not_repeats_of_nodup {names : List String} (h : names.Nodup) (i : ℕ) :
    ¬ Repeats names i := by
  rintro ⟨j, hj, name, hat, hname⟩
  obtain ⟨hlt, -⟩ := List.getElem?_eq_some_iff.mp hat
  have hji : j = i := (List.getElem?_inj hlt h).mp (hat.trans hname.symm)
  omega

theorem Ledger.eq_of_nodup {game game' : Phase10Game} (h : Ledger game) (h' : Ledger game')
    (hn : game.playerNames.Nodup) (hsheet : game.sheet = game'.sheet) : game = game' := by
  have hnames : game.playerNames = game'.playerNames := congrArg ScoreSheet.playerNames hsheet
  apply h.eq_of_sheet h' (h.recorded_of_nodup hn) (h'.recorded_of_nodup (hnames ▸ hn)) hsheet
  intro i hi
  exact absurd hi (not_repeats_of_nodup hn i)

/-- Sound live states with one sheet and different names agree. -/
theorem agree_of_sheet {a b : Phase10GameState} (ha : a.Sound) (hb : b.Sound) {game : Phase10Game}
    (hg : a.game? = some game) (hn : game.playerNames.Nodup)
    (hsheet : b.sheet? = some game.sheet) : Agree a b := by
  obtain ⟨game', hg', hsheet'⟩ := Option.map_eq_some_iff.mp hsheet
  obtain rfl : game = game' := (ha.ledger hg).eq_of_nodup (hb.ledger hg') hn hsheet'.symm
  obtain ⟨_, hsettled⟩ := ha.settled hg
  obtain ⟨_, hsettled'⟩ := hb.settled hg'
  exact hsettled.agree hsettled'

theorem overwrite_models (entries : List Phase10RoundEntry) (updates : List RoundEntryModel) :
    overwrite (entries.map (·.cell)) (entries.map (·.model) ++ updates) =
      entries.map (·.cell) := by
  induction entries with
  | nil => exact nil_overwrite _
  | cons e entries ih =>
    rw [List.map_cons, List.map_cons, List.cons_append, cons_overwrite_cons, ih,
      Page.clamped_model]

theorem Phase10Game.edit_models {game : Phase10Game} {k : ℕ} {round : Phase10Round}
    (hround : game.rounds[k]? = some round) (updates : List RoundEntryModel) :
    (game.sheet.edit k updates).edit k (round.entries.map (·.model)) = game.sheet := by
  have hrow : game.sheet.rows[k]? = some (round.entries.map (·.cell)) := by
    simp [Phase10Game.sheet, hround, Phase10Round.cells]
  obtain ⟨hk, -⟩ := List.getElem?_eq_some_iff.mp hrow
  have hin : 0 ≤ (k : ℤ) ∧ (k : ℤ) < game.sheet.rows.length := by omega
  rw [ScoreSheet.edit_edit, ScoreSheet.edit, if_pos hin, Int.toNat_natCast]
  have hrows : game.sheet.rows.modify k (overwrite · (round.entries.map (·.model) ++
      updates.drop (round.entries.map (·.model)).length)) = game.sheet.rows := by
    apply List.ext_getElem?
    intro j
    rw [List.getElem?_modify]
    by_cases hjk : k = j
    · subst hjk
      simp only [hrow, Option.map_eq_map, Option.map_some, if_true, overwrite_models]
    · simp [hjk]
  rw [hrows]

/-- Where names are different, an edit is undone by writing back what the round said, also when it
ended the game or reopened it. -/
theorem edit_undone {s : Archive} (hs : s.Reachable) {game : Phase10Game}
    (hg : s.state.game? = some game) (hn : game.playerNames.Nodup) {k : ℕ} {round : Phase10Round}
    (hround : game.rounds[k]? = some round) (updates : List RoundEntryModel) :
    ∃ t, run Archive.step s [.call (.editRound k updates),
        .call (.editRound k (round.entries.map (·.model)))] = .ok t ∧ Agree s.state t.state := by
  have hrecorded := (hs.sound.state.ledger hg).recorded_of_nodup hn
  let es : List RoundEdit := [⟨k, updates⟩, ⟨k, round.entries.map (·.model)⟩]
  have hsame : game.sheet.edits [] = game.sheet.edits es :=
    (Phase10Game.edit_models hround updates).symm
  obtain ⟨s', t, hs', ht, hagree⟩ :=
    edits_agree hs.sound.state hg [] es (.inl hrecorded) (.inl hrecorded) hsame
  obtain rfl : s = s' := Except.ok.inj hs'
  exact ⟨t, ht, hagree⟩

/-- A game that is over is reopened by the edit, and over again when it is undone. -/
theorem edit_undone_ann_bob : ∃ (s : Archive) (game : Phase10Game) (round : Phase10Round),
    s.Reachable ∧ s.state = .complete game ⟨"Ann", 10⟩ 1 ∧ game.rounds[9]? = some round ∧
    ∃ t, run Archive.step s [.call (.editRound 9 [⟨0, false⟩]),
        .call (.editRound 9 (round.entries.map (·.model)))] = .ok t ∧ Agree s.state t.state := by
  obtain ⟨s, hs, hp⟩ := Session.reachable_of_run
    ([.call (.typeNames ["Ann", "Bob"]), .call .startGame] ++
      (List.replicate 10 (Session.playRound [⟨1, true⟩, ⟨2, false⟩])).flatten)
    (fun s => match s.state with
      | .complete game winner count => winner = ⟨"Ann", 10⟩ ∧ count = 1 ∧
          game.playerNames = ["Ann", "Bob"] ∧ game.rounds.length = 10
      | _ => false) (by decide +kernel)
  obtain ⟨saved, hreach, -⟩ := hs.archive
  cases hstate : s.state with
  | setup names => simp [hstate] at hp
  | inProgress game entries => simp [hstate] at hp
  | complete game winner count =>
    simp only [hstate, decide_eq_true_eq] at hp
    obtain ⟨rfl, rfl, hnames, hlen⟩ := hp
    obtain ⟨round, hround⟩ : ∃ round, game.rounds[9]? = some round := by
      simp [hlen]
    have hn : game.playerNames.Nodup := by
      rw [hnames]
      decide
    have hg : (⟨s.state, saved⟩ : Archive).state.game? = some game := by
      rw [hstate]
      rfl
    exact ⟨⟨s.state, saved⟩, game, round, hreach, hstate, hround,
      edit_undone hreach hg hn hround _⟩

def OpenRows (seats : ℕ) (rows : List (List Cell)) : Prop :=
  ∀ i < seats, (rows.filterMap (·[i]?)).countP (fun cell => cell.1) < 10

instance (seats : ℕ) (rows : List (List Cell)) : Decidable (OpenRows seats rows) :=
  inferInstanceAs (Decidable (∀ i < seats, _ < 10))

theorem OpenRows.of_append {seats : ℕ} {rows rows' : List (List Cell)}
    (h : OpenRows seats (rows ++ rows')) : OpenRows seats rows := by
  intro i hseat
  have hi := h i hseat
  rw [List.filterMap_append, List.countP_append] at hi
  omega

theorem Ledger.completedPlayers_of_open {game : Phase10Game} (h : Ledger game)
    (hn : game.playerNames.Nodup) (hopen : OpenRows game.players.length game.sheet.rows) :
    game.completedPlayers = [] := by
  apply List.filterMap_eq_nil_iff.mpr
  intro p hp
  obtain ⟨i, hi⟩ := List.getElem?_of_mem hp
  have hcount : ¬ 10 ≤ completedPhases (game.column i) := by
    have hlt := hopen i (List.getElem?_eq_some_iff.mp hi).1
    rw [column_sheet, List.countP_map] at hlt
    exact Nat.not_le.mpr hlt
  rw [h.player_firstSeat (firstSeat_of_nodup hn hi), standing_eq, if_neg hcount]
  rfl

theorem run_typeEntries (game : Phase10Game) (store : Option Phase10StoredGame)
    (row : List RoundEntryModel) {typed pending : List RoundEntryModel}
    (h : pending.length = row.length) :
    run Session.step ⟨.inProgress game (typed ++ pending), store⟩
      ((row.zipIdx typed.length).map fun p => .call (.typeEntry p.2 p.1)) =
        .ok ⟨.inProgress game (typed ++ row), store⟩ := by
  induction row generalizing typed pending with
  | nil =>
    obtain rfl := List.length_eq_zero_iff.mp h
    rfl
  | cons entry row ih =>
    cases pending with
    | nil => simp at h
    | cons old pending =>
      have hset : (typed ++ old :: pending).set typed.length entry = typed ++ [entry] ++ pending := by
        simp
      have hlen : pending.length = row.length := by simpa using h
      have hrest : run Session.step ⟨.inProgress game (typed ++ [entry] ++ pending), store⟩
          ((row.zipIdx (typed ++ [entry]).length).map fun p => .call (.typeEntry p.2 p.1)) =
            .ok ⟨.inProgress game (typed ++ [entry] ++ row), store⟩ := ih hlen
      rw [List.zipIdx_cons, List.map_cons, run_cons]
      change run Session.step ⟨.inProgress game ((typed ++ old :: pending).set typed.length entry),
        store⟩ _ = _
      rw [hset]
      simpa using hrest

theorem run_playRound {game : Phase10Game} {pending row : List RoundEntryModel}
    (h : pending.length = row.length) (store : Option Phase10StoredGame) :
    run Session.step ⟨.inProgress game pending, store⟩ (Session.playRound row) =
      Session.step ⟨.inProgress game row, store⟩ (.call .submitRound) := by
  have htyped : run Session.step ⟨.inProgress game ([] ++ pending), store⟩
      ((row.zipIdx ([] : List RoundEntryModel).length).map fun p => .call (.typeEntry p.2 p.1)) =
        .ok ⟨.inProgress game ([] ++ row), store⟩ := run_typeEntries game store row h
  simp only [List.nil_append, List.length_nil] at htyped
  rw [Session.playRound, run_append, htyped, ok_bind, run_cons]
  cases Session.step ⟨.inProgress game row, store⟩ (.call .submitRound) <;> rfl

theorem run_round {game : Phase10Game} {entries row : List RoundEntryModel}
    (h : Phase10GameState.Sound (.inProgress game entries))
    (hlen : row.length = game.players.length) (store : Option Phase10StoredGame) :
    ∃ (seats : List Seat) (entries' : List RoundEntryModel) (t : Session),
      game.players = seats.map Seat.player ∧ row = seats.map (·.2) ∧
      run Session.step ⟨.inProgress game entries, store⟩ (Session.playRound row) = .ok t ∧
      Settled (submittedGame game seats) entries' t.state ∧ t.state.Sound := by
  obtain ⟨hl, hentries, hc⟩ := h.inProgress
  have hsound : Phase10GameState.Sound (.inProgress game row) := .live hl hlen (.inProgress hc)
  obtain ⟨seats, state, hseats, hrow, hsubmit, hsettled, hsound'⟩ := submitRound_spec hsound
  refine ⟨seats, _, ⟨state, (saveGame state).apply store⟩, hseats, hrow, ?_, hsettled, hsound'⟩
  rw [run_playRound (hentries.trans hlen.symm)]
  have hperform : Operation.submitRound.perform
      (Session.state ⟨.inProgress game row, store⟩) = .ok (state, saveGame state) := hsubmit
  exact Session.step_call hperform

theorem run_row {game : Phase10Game} {entries row : List RoundEntryModel}
    (h : Phase10GameState.Sound (.inProgress game entries))
    (hlen : row.length = game.players.length) (store : Option Phase10StoredGame) :
    ∃ game' entries' t,
      run Session.step ⟨.inProgress game entries, store⟩ (Session.playRound row) = .ok t ∧
      Settled game' entries' t.state ∧ t.state.Sound ∧ game'.sheet = game.sheet.submit row ∧
      game'.players.length = game.players.length := by
  obtain ⟨seats, entries', t, hseats, hrow, ht, hsettled, hsound⟩ := run_round h hlen store
  refine ⟨submittedGame game seats, entries', t, ht, hsettled, hsound,
    sheet_submittedGame hseats hrow, ?_⟩
  rw [hseats, List.length_map]
  exact List.length_map _

theorem run_rows {rows : List (List RoundEntryModel)} {game : Phase10Game}
    {entries : List RoundEntryModel} (h : Phase10GameState.Sound (.inProgress game entries))
    (hn : game.playerNames.Nodup) (hlen : ∀ row ∈ rows, row.length = game.players.length)
    (hopen : OpenRows game.players.length
      (game.sheet.rows ++ (rows.map (·.map RoundEntryModel.clamped)).dropLast))
    (store : Option Phase10StoredGame) :
    ∃ t, run Session.step ⟨.inProgress game entries, store⟩ (rows.flatMap Session.playRound) =
        .ok t ∧ t.state.Sound ∧ t.state.sheet? = some
          ⟨game.playerNames, game.sheet.rows ++ rows.map (·.map RoundEntryModel.clamped)⟩ := by
  induction rows generalizing game entries store with
  | nil =>
    refine ⟨_, rfl, h, ?_⟩
    rw [List.map_nil, List.append_nil]
    rfl
  | cons row rows ih =>
    obtain ⟨hrow, hrows⟩ := List.forall_mem_cons.mp hlen
    obtain ⟨game', entries', t, ht, hsettled, hsound, hsheet, hplayers⟩ := run_row h hrow store
    have hnames : game'.playerNames = game.playerNames := congrArg ScoreSheet.playerNames hsheet
    have hrest : game'.sheet.rows = game.sheet.rows ++ [row.map RoundEntryModel.clamped] :=
      congrArg ScoreSheet.rows hsheet
    rw [List.flatMap_cons, run_append, ht, ok_bind]
    cases rows with
    | nil =>
      refine ⟨t, rfl, hsound, ?_⟩
      rw [Phase10GameState.sheet?, hsettled.game?, Option.map_some, hsheet]
      rfl
    | cons next rows =>
      have hopen' : OpenRows game'.players.length (game'.sheet.rows ++
          ((next :: rows).map (·.map RoundEntryModel.clamped)).dropLast) := by
        rw [hrest, hplayers, List.append_assoc]
        exact hopen
      have hc : game'.completedPlayers = [] :=
        (hsound.ledger hsettled.game?).completedPlayers_of_open (hnames ▸ hn) hopen'.of_append
      obtain ⟨state, store'⟩ := t
      cases hsettled with
      | complete hc' => exact absurd hc hc'
      | inProgress =>
        obtain ⟨t', ht', hsound', hsheet'⟩ := ih hsound (hnames ▸ hn)
          (fun r hr => (hrows r hr).trans hplayers.symm) hopen' store'
        refine ⟨t', ht', hsound', ?_⟩
        rw [hsheet', hnames, hrest, List.append_assoc]
        rfl

theorem ScoreSheet.listen_playerNames {state : Phase10GameState} {o : Operation}
    {sheet : Option ScoreSheet} {next : ScoreSheet} (h : listen state o sheet = some next) :
    (∃ prior, sheet = some prior ∧ next.playerNames = prior.playerNames) ∨
      ∃ names, state = .setup names ∧ canStart names = true ∧
        next.playerNames = names.map trim := by
  unfold listen at h
  split at h
  · split at h
    next hn =>
      obtain rfl := Option.some.inj h
      exact .inr ⟨_, rfl, hn, rfl⟩
    next => exact .inl ⟨next, h, rfl⟩
  · obtain ⟨prior, hprior, rfl⟩ := Option.map_eq_some_iff.mp h
    exact .inl ⟨prior, hprior, rfl⟩
  · obtain ⟨prior, hprior, rfl⟩ := Option.map_eq_some_iff.mp h
    exact .inl ⟨prior, hprior, edit_playerNames _ _ _⟩
  · cases h
  · cases h
  · exact .inl ⟨next, h, rfl⟩

/-- The names of a sheet were trimmed when its game was started. -/
theorem ScoredSession.Reachable.started {s : ScoredSession} (h : s.Reachable) {sheet : ScoreSheet}
    (hs : s.sheet = some sheet) :
    ∃ names, canStart names = true ∧ sheet.playerNames = names.map trim := by
  induction h generalizing sheet with
  | launch => cases hs
  | reload _ _ ih => exact ih hs
  | @step s s' e h he ih =>
    cases e with
    | load =>
      obtain ⟨t, -, rfl⟩ : ∃ t, s.session.step .load = .ok t ∧ { s with session := t } = s' := by
        simpa [ScoredSession.step] using he
      exact ih hs
    | call operation =>
      obtain ⟨t, -, rfl⟩ : ∃ t, s.session.step (.call operation) = .ok t ∧
          ⟨t, ScoreSheet.listen s.session.state operation s.sheet⟩ = s' := by
        simpa only [ScoredSession.step, map_eq_ok, bind_pure_comp] using he
      rcases ScoreSheet.listen_playerNames hs with
        ⟨prior, hprior, hnames⟩ | ⟨names, -, hstart, hnames⟩
      · rw [hnames]
        exact ih hprior
      · exact ⟨names, hstart, hnames⟩

theorem playerNames_newGameOf (names : List String) :
    (newGameOf names).playerNames = names.map trim := by
  rw [Phase10Game.playerNames, newGameOf, List.map_map]
  rfl

theorem sound_newGameOf {names : List String} (h : canStart names = true) :
    Phase10GameState.Sound (.inProgress (newGameOf names) (initEntries (newGameOf names))) := by
  have hc : (newGameOf names).completedPlayers = [] := by
    apply List.filterMap_eq_nil_iff.mpr
    intro p hp
    obtain ⟨name, -, rfl⟩ := List.mem_map.mp hp
    rfl
  exact .live (ledger_newGameOf h) (initEntries_length _) (.inProgress hc)

theorem run_startGame {names : List String} (h : canStart names = true) :
    run Session.step .launch [.call (.typeNames names), .call .startGame] =
      .ok ⟨.inProgress (newGameOf names) (initEntries (newGameOf names)),
        some (toStoredGame (newGameOf names) false)⟩ := by
  have htyped : Session.step .launch (.call (.typeNames names)) = .ok ⟨.setup names, none⟩ := rfl
  have hstarted : Session.step ⟨.setup names, none⟩ (.call .startGame) =
      .ok ⟨.inProgress (newGameOf names) (initEntries (newGameOf names)),
        some (toStoredGame (newGameOf names) false)⟩ := by
    simp only [Session.step, Operation.perform, startGame, h, if_true]
    rfl
  rw [run_cons, htyped, ok_bind, run_cons, hstarted]
  rfl

/-- Names are typed in, and the rounds are played as they read in the history. -/
def replay (names : List String) (rounds : List Phase10Round) : List Session.Event :=
  [.call (.typeNames names), .call .startGame] ++
    (rounds.map fun round => round.entries.map (·.model)).flatMap Session.playRound

/-- Where names are different and nobody completed the tenth phase before the last round, a game is
the one that is played anew, round by round as the history reads now: it does not show what was
edited, nor that a game was over in between, nor reloads. -/
theorem edits_are_retroactive {s : ScoredSession} (h : s.Reachable) {game : Phase10Game}
    (hg : s.session.state.game? = some game) (hn : game.playerNames.Nodup)
    (hopen : OpenRows game.players.length game.sheet.rows.dropLast) :
    ∃ names t, names.map trim = game.playerNames ∧
      run Session.step .launch (replay names game.rounds) = .ok t ∧
      Agree s.session.state t.state := by
  have hsound := h.loaded.reachable.sound.state
  have hl := hsound.ledger hg
  have hsheet : s.sheet = some game.sheet := by rw [h.sheet_eq, Phase10GameState.sheet?, hg]; rfl
  obtain ⟨names, hstart, hnames⟩ := h.started hsheet
  have hnames' : (newGameOf names).playerNames = game.playerNames :=
    (playerNames_newGameOf names).trans hnames.symm
  let rows := game.rounds.map fun round => round.entries.map (·.model)
  have hrows : rows.map (·.map RoundEntryModel.clamped) = game.sheet.rows := by
    simp [rows, Phase10Game.sheet, Phase10Round.cells, Function.comp_def]
  have hseats : (newGameOf names).players.length = game.players.length := by
    simpa [Phase10Game.playerNames] using congrArg List.length hnames'
  have hlen : ∀ row ∈ rows, row.length = (newGameOf names).players.length := by
    intro row hrow
    obtain ⟨round, hround, rfl⟩ := List.mem_map.mp hrow
    rw [hseats]
    simpa [Phase10Game.playerNames] using congrArg List.length (hl.rows round hround)
  have hopen' : OpenRows (newGameOf names).players.length ((newGameOf names).sheet.rows ++
      (rows.map (·.map RoundEntryModel.clamped)).dropLast) := by
    rw [hseats, hrows]
    exact hopen
  obtain ⟨t, ht, hsound', hsheet'⟩ :=
    run_rows (sound_newGameOf hstart) (hnames' ▸ hn) hlen hopen' _
  refine ⟨names, t, hnames.symm, ?_, ?_⟩
  · rw [replay, run_append, run_startGame hstart]
    exact ht
  · apply agree_of_sheet hsound hsound' hg hn
    rw [hsheet', hrows, hnames']
    rfl

/-- Ann's tenth phase ends the game; it is taken back, reloaded, and completed in one more round. -/
theorem edits_are_retroactive_ann_bob : ∃ (s : ScoredSession) (game : Phase10Game),
    s.Reachable ∧ s.session.state.game? = some game ∧
    game.players = [.completed ⟨"Ann", 16⟩, .active ⟨"Bob", 1, 22⟩] ∧
    ∃ names t, names.map trim = game.playerNames ∧
      run Session.step .launch (replay names game.rounds) = .ok t ∧
      Agree s.session.state t.state := by
  obtain ⟨s, hs, hp⟩ := exists_of_run (I := ScoredSession.Reachable) ScoredSession.step
    (fun _ _ _ hs he => hs.step he) .launch
    ([.call (.typeNames ["Ann", " Bob"]), .call .startGame] ++
      (List.replicate 10 (Session.playRound [⟨1, true⟩, ⟨2, false⟩])).flatten ++
      [.call (.editRound 4 [⟨6, false⟩]), .load] ++ Session.playRound [⟨1, true⟩, ⟨2, false⟩])
    (fun s => match s.session.state.game? with
      | some game => game.players = [.completed ⟨"Ann", 16⟩, .active ⟨"Bob", 1, 22⟩] ∧
          OpenRows game.players.length game.sheet.rows.dropLast
      | none => false) (by decide +kernel)
  cases hg : s.session.state.game? with
  | none => simp [hg] at hp
  | some game =>
    simp only [hg, decide_eq_true_eq] at hp
    obtain ⟨hplayers, hopen⟩ := hp
    have hn : game.playerNames.Nodup := by
      rw [Phase10Game.playerNames, hplayers]
      decide
    exact ⟨s, game, hs, hg, hplayers, edits_are_retroactive hs hg hn hopen⟩

end HwoodiwissHelper.Phase10
