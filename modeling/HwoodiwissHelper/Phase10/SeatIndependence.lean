import HwoodiwissHelper.Phase10.Columns

/-!
# Which seats an edit touches

An edit rebuilds every player from the entries found under its name. With pairwise different
names that is its own column, and the other seats keep their players. A seat whose name occurs
earlier is rebuilt from the column of the earlier seat.
-/

namespace HwoodiwissHelper.Phase10

open Phase10GameService Transition Milestone KeyedList

/-- Whatever round is edited, and whichever single seat `j` the edit changes in it, the players
at the other seats stay the same. -/
def EditsSeatIndependent (state : Phase10GameState) : Prop :=
  ∀ game, state.game? = some game → ∀ (k : ℕ) round, game.rounds[k]? = some round →
    ∀ (j : ℕ) (updates : List RoundEntryModel), updates.length = round.entries.length →
      (∀ i e, i ≠ j → round.entries[i]? = some e → updates[i]? = some e.model) →
      ∃ next game', editRound k updates state = .ok next ∧ next.1.game? = some game' ∧
        ∀ i ≠ j, game'.players[i]? = game.players[i]?

theorem editedEntry_model (e : Phase10RoundEntry) : editedEntry e e.model = e := by
  simp [editedEntry, Phase10RoundEntry.model, max_pointsAdded]

theorem entry_editedEntries {entries : List Phase10RoundEntry} {updates : List RoundEntryModel}
    {i : ℕ} {e : Phase10RoundEntry} (he : entries[i]? = some e) (hu : updates[i]? = some e.model) :
    (editedEntries entries updates)[i]? = some e := by
  rw [getElem?_editedEntries, hu, he]
  exact congrArg some (editedEntry_model e)

theorem recordOf_set_eq {rounds : List Phase10Round} {k : ℕ} {round round' : Phase10Round}
    (hround : rounds[k]? = some round) {name : String}
    (h : entryOf name round'.entries = entryOf name round.entries) :
    recordOf name (rounds.set k round') = recordOf name rounds := by
  induction rounds generalizing k with
  | nil => rfl
  | cons first rounds ih =>
    cases k with
    | zero =>
      obtain rfl : first = round := by simpa using hround
      rw [List.set_cons_zero, recordOf_cons, recordOf_cons, h]
    | succ k =>
      rw [List.set_cons_succ, recordOf_cons, recordOf_cons, ih (by simpa using hround)]

theorem editRound_game {state : Phase10GameState} (h : state.Sound) {game : Phase10Game}
    (hg : state.game? = some game) {k : ℕ} {round : Phase10Round}
    (hround : game.rounds[k]? = some round) (updates : List RoundEntryModel) :
    ∃ next, editRound k updates state = .ok next ∧
      next.1.game? = some (recalculated (withEdit game k round updates)) := by
  obtain ⟨state', hedit, hsettled, -⟩ := editRound_spec h hg hround updates
  exact ⟨_, hedit, hsettled.game?⟩

theorem players_recalculated (game : Phase10Game) (i : ℕ) :
    (recalculated game).players[i]? =
      (game.playerNames[i]?).map (fun n => standing n (recordOf n game.rounds)) := by
  rw [recalculated, List.getElem?_map]

/-- With pairwise different names an edit touches the players of the edited seats only. -/
theorem editsSeatIndependent_of_nodup {state : Phase10GameState} (h : state.Sound)
    (hn : ∀ game, state.game? = some game → game.playerNames.Nodup) :
    EditsSeatIndependent state := by
  intro game hg k round hround j updates hlen hupdates
  have hl := h.ledger hg
  obtain ⟨next, hedit, hnext⟩ := editRound_game h hg hround updates
  refine ⟨next, _, hedit, hnext, ?_⟩
  intro i hij
  have hname : game.playerNames[i]? = (game.players[i]?).map (·.playerName) := List.getElem?_map
  have hnames : (withEdit game k round updates).playerNames = game.playerNames := rfl
  rw [players_recalculated, hnames, hname]
  cases hp : game.players[i]? with
  | none => rfl
  | some p =>
    have hfirst := firstSeat_of_nodup (hn game hg) hp
    have hmem : round ∈ game.rounds := List.mem_of_getElem? hround
    obtain ⟨e, he, hkey⟩ := hl.entry hp hmem
    have hrow := hl.rows round hmem
    -- seat `i` of the edited round still holds the entry recorded there
    have hsame : (editedEntries round.entries updates)[i]? = some e :=
      entry_editedEntries he (hupdates i e hij he)
    have hedited : entryOf p.playerName (editedEntries round.entries updates) =
        entryOf p.playerName round.entries := by
      rw [hl.entryOf_firstSeat hfirst hmem, he]
      refine lookup_eq_some_at _ ?_ hp hsame hfirst.2
      rw [map_playerName_editedEntries, hrow]
      rfl
    have hrecord : recordOf p.playerName (withEdit game k round updates).rounds =
        recordOf p.playerName game.rounds := recordOf_set_eq hround hedited
    change some (standing p.playerName (recordOf p.playerName _)) = some p
    rw [hrecord, ← hl.column_firstSeat hfirst]
    exact congrArg some (hl.player_firstSeat hfirst).symm

/-- After an edit, seats with one name hold the same player. -/
theorem players_eq_of_editsSeatIndependent {state : Phase10GameState} (h : state.Sound)
    (hi : EditsSeatIndependent state) {game : Phase10Game} (hg : state.game? = some game)
    {round : Phase10Round} (hround : game.rounds[0]? = some round) {i j : ℕ}
    (hname : game.playerNames[i]? = game.playerNames[j]?) (hlt : i < game.players.length)
    (hlt' : j < game.players.length) : game.players[i]? = game.players[j]? := by
  obtain ⟨next, game', hedit, hnext, hsame⟩ := hi game hg 0 round hround game.players.length
    (round.entries.map (·.model)) (by simp) (fun i e _ he => by simp [he])
  obtain ⟨next', hedit', hnext'⟩ := editRound_game h hg hround (round.entries.map (·.model))
  obtain rfl : next = next' := Except.ok.inj (hedit.symm.trans hedit')
  obtain rfl := Option.some.inj (hnext.symm.trans hnext')
  rw [← hsame i (by omega), ← hsame j (by omega), players_recalculated, players_recalculated]
  exact congrArg (Option.map _) hname

theorem reachable_newGameOf {playerNames : List String} (hn : canStart playerNames) :
    ∃ store, Session.Reachable
      ⟨.inProgress (newGameOf playerNames) (initEntries (newGameOf playerNames)), store⟩ := by
  have htyped : Session.Reachable ⟨.setup playerNames, none⟩ :=
    Session.Reachable.launch.step (e := .call (.typeNames playerNames)) rfl
  have hstarted := htyped.step (e := .call .startGame) rfl
  simp only [startGame, if_pos hn] at hstarted
  exact ⟨_, hstarted⟩

/-- After a first round in which seat `j` alone scores a point, the scores tell `j` from the
other seats. -/
theorem exists_pointFor {playerNames : List String} (hn : canStart playerNames) (j : ℕ) :
    ∃ (s : Session) (game : Phase10Game) (round : Phase10Round), s.Reachable ∧
      s.state.game? = some game ∧ game.rounds[0]? = some round ∧
      game.playerNames = playerNames.map trim ∧
      ∀ i p, game.players[i]? = some p → (p.score = 1 ↔ i = j) := by
  obtain ⟨store, hstarted⟩ := reachable_newGameOf hn
  have htyped := hstarted.step (e := .call (.typeEntry j ⟨1, false⟩)) rfl
  obtain ⟨seats, state, hseats, hentries, hsubmit, hsettled, -⟩ :=
    submitRound_spec htyped.sound.state
  have hsubmitted := htyped.step (Session.step_call (o := .submitRound) hsubmit)
  refine ⟨_, _, ⟨1, seats.map Seat.recorded⟩, hsubmitted, hsettled.game?, rfl, ?_, ?_⟩
  · rw [submittedGame_playerNames, ← playerNames_eq_seats hseats]
    simp [newGameOf, Phase10Game.playerNames, Phase10Player.playerName, Function.comp_def]
  · intro i p hp
    obtain ⟨⟨active, pending⟩, hseat, rfl⟩ : ∃ seat, seats[i]? = some seat ∧
        Seat.submitted seat = p := by simpa [submittedGame, Option.map_eq_some_iff] using hp
    -- a fresh player, and a pending entry that has a point at seat `j` only
    obtain ⟨name, -, hactive⟩ : ∃ name, playerNames[i]? = some name ∧
        Phase10Player.active ⟨trim name, 1, 0⟩ = .active active := by
      simpa [newGameOf, hseat, Seat.player] using congrArg (·[i]?) hseats
    obtain rfl := Phase10Player.active.inj hactive
    have hpending : pending = if j = i then ⟨1, false⟩ else {} := by
      have hget := congrArg (·[i]?) hentries
      simp only [List.getElem?_set, List.getElem?_map, hseat, initEntries] at hget
      by_cases hij : j = i
      · rw [if_pos hij] at hget ⊢
        split at hget
        · exact (Option.some.inj hget).symm
        · cases hget
      · rw [if_neg hij] at hget ⊢
        cases hplayer : (newGameOf playerNames).players[i]? <;> simp [hplayer] at hget
        exact hget.symm
    have hscore : (Seat.submitted (⟨trim name, 1, 0⟩, pending)).score =
        0 + max 0 pending.points := by
      rw [hpending]
      split <;> rfl
    rw [hscore, hpending]
    by_cases hij : j = i
    · simp only [hij, if_true, iff_true]
      decide
    · simp only [hij, Ne.symm hij, if_false, iff_false]
      decide

/-- The seats of a game are independent under edits, in every session that plays it, exactly when
the names it was started with differ after trimming. -/
theorem edits_seat_independent_iff {playerNames : List String} (hn : canStart playerNames) :
    (∀ s : Session, s.Reachable →
      (∀ game, s.state.game? = some game → game.playerNames = playerNames.map trim) →
      EditsSeatIndependent s.state) ↔ (playerNames.map trim).Nodup := by
  constructor
  · intro h
    by_contra hdup
    rw [List.nodup_iff_getElem?_ne_getElem?] at hdup
    push Not at hdup
    obtain ⟨i, j, hlt, hj, hname⟩ := hdup
    obtain ⟨s, game, round, hs, hg, hround, hnames, hpoint⟩ := exists_pointFor hn j
    have hlen : game.players.length = (playerNames.map trim).length := by
      rw [← hnames, Phase10Game.playerNames, List.length_map]
    have hplays : ∀ game', s.state.game? = some game' →
        game'.playerNames = playerNames.map trim := by
      intro game' hg'
      obtain rfl : game = game' := Option.some.inj (hg.symm.trans hg')
      exact hnames
    have hi : EditsSeatIndependent s.state := h s hs hplays
    have heq : game.players[i]? = game.players[j]? :=
      players_eq_of_editsSeatIndependent hs.sound.state hi hg hround (hnames ▸ hname) (by omega)
        (by omega)
    obtain ⟨p, hp⟩ : ∃ p, game.players[j]? = some p :=
      ⟨_, List.getElem?_eq_getElem (by omega)⟩
    -- seat `j` has the point, and seat `i` the same player
    have hscore : p.score = 1 := (hpoint j p hp).mpr rfl
    have hij : i = j := (hpoint i p (heq.trans hp)).mp hscore
    omega
  · intro hnodup s hs hnames
    apply editsSeatIndependent_of_nodup hs.sound.state
    intro game hg
    rw [hnames game hg]
    exact hnodup

theorem edits_seat_independent_ann_bob : canStart ["Ann", "Bob"] ∧
    ∀ s : Session, s.Reachable →
      (∀ game, s.state.game? = some game → game.playerNames = ["Ann", "Bob"].map trim) →
      EditsSeatIndependent s.state :=
  ⟨by decide, (edits_seat_independent_iff (by decide)).mpr (by decide)⟩

/-- Two players called Ann: saving round one with nothing changed gives the second Ann the
points of the first. -/
theorem edit_of_namesakes : ∃ (s : Session) (game : Phase10Game), canStart ["Ann", "Ann"] ∧
    s.Reachable ∧ s.state.game? = some game ∧ game.playerNames = ["Ann", "Ann"].map trim ∧
    game.players = [.active ⟨"Ann", 1, 10⟩, .active ⟨"Ann", 1, 20⟩] ∧
    (editRound 0 [⟨10, false⟩, ⟨20, false⟩] s.state).toOption.bind
      (fun next => next.1.game?.map (·.players)) =
        some [.active ⟨"Ann", 1, 10⟩, .active ⟨"Ann", 1, 10⟩] ∧
    ¬ EditsSeatIndependent s.state := by
  obtain ⟨s, hs, hp⟩ := Session.reachable_of_run
    ([.call (.typeNames ["Ann", "Ann"]), .call .startGame] ++
      Session.playRound [⟨10, false⟩, ⟨20, false⟩])
    (fun s => s.state.game?.map (·.players) =
        some [.active ⟨"Ann", 1, 10⟩, .active ⟨"Ann", 1, 20⟩] ∧
      (s.state.game?.bind (·.rounds[0]?)).isSome ∧
      (editRound 0 [⟨10, false⟩, ⟨20, false⟩] s.state).toOption.bind
        (fun next => next.1.game?.map (·.players)) =
          some [.active ⟨"Ann", 1, 10⟩, .active ⟨"Ann", 1, 10⟩]) (by decide +kernel)
  obtain ⟨hplayers, hround, hedit⟩ := of_decide_eq_true hp
  obtain ⟨game, hg, hplayers⟩ := Option.map_eq_some_iff.mp hplayers
  obtain ⟨round, hround⟩ := Option.isSome_iff_exists.mp hround
  simp only [hg, Option.bind_some] at hround
  refine ⟨s, game, by decide, hs, hg, ?_, hplayers, hedit, fun hi => ?_⟩
  · rw [Phase10Game.playerNames, hplayers]
    decide
  · have heq := players_eq_of_editsSeatIndependent hs.sound.state hi hg hround (i := 0) (j := 1)
      (by simp [Phase10Game.playerNames, hplayers, Phase10Player.playerName])
      (by simp [hplayers]) (by simp [hplayers])
    simp [hplayers] at heq

end HwoodiwissHelper.Phase10
