import HwoodiwissHelper.Phase10.Soundness

/-!
# The columns of the history

Column `i` of a game lists the `i`-th entries of its rounds. At the first seat of every name it
is the record of that name, so the player there can be read off it.
-/

namespace HwoodiwissHelper.Phase10

open Phase10GameService Transition Milestone KeyedList

namespace Phase10Game

def column (game : Phase10Game) (i : ℕ) : List Phase10RoundEntry :=
  game.rounds.filterMap (fun round => round.entries[i]?)

/-- Seat `i` is taken by `p`, and no earlier seat has its name. -/
def FirstSeat (game : Phase10Game) (i : ℕ) (p : Phase10Player) : Prop :=
  game.players[i]? = some p ∧
    ∀ j < i, ∀ q, game.players[j]? = some q → q.playerName ≠ p.playerName

end Phase10Game

theorem firstSeat_of_nodup {game : Phase10Game} (h : game.playerNames.Nodup) {i : ℕ}
    {p : Phase10Player} (hp : game.players[i]? = some p) : game.FirstSeat i p :=
  ⟨hp, first_of_nodup _ h hp⟩

theorem Phase10Game.FirstSeat.of_playerNames {game game' : Phase10Game} {i : ℕ}
    {p p' : Phase10Player} (hp : game.FirstSeat i p)
    (hnames : game'.playerNames = game.playerNames) (hp' : game'.players[i]? = some p') :
    game'.FirstSeat i p' ∧ p'.playerName = p.playerName := by
  have hname (j : ℕ) :
      (game'.players[j]?).map (·.playerName) = (game.players[j]?).map (·.playerName) := by
    rw [← List.getElem?_map, ← List.getElem?_map]
    exact congrArg (·[j]?) hnames
  have hkey : p'.playerName = p.playerName := by simpa [hp.1, hp'] using hname i
  refine ⟨⟨hp', ?_⟩, hkey⟩
  intro j hj q' hq'
  obtain ⟨q, hq, hqq'⟩ : ∃ q, game.players[j]? = some q ∧ q.playerName = q'.playerName := by
    simpa [hq', eq_comm, Option.map_eq_some_iff] using hname j
  rw [← hqq', hkey]
  exact hp.2 j hj q hq

section Rows

variable {game : Phase10Game} (h : Ledger game)
include h

theorem Ledger.entry {i : ℕ} {p : Phase10Player} (hp : game.players[i]? = some p)
    {round : Phase10Round} (hr : round ∈ game.rounds) :
    ∃ e, round.entries[i]? = some e ∧ e.playerName = p.playerName := by
  have hnames : (round.entries[i]?).map (·.playerName) = (game.players[i]?).map (·.playerName) := by
    rw [← List.getElem?_map, ← List.getElem?_map, h.rows round hr]
    rfl
  rw [hp] at hnames
  exact Option.map_eq_some_iff.mp hnames

theorem Ledger.entryOf_firstSeat {i : ℕ} {p : Phase10Player} (hp : game.FirstSeat i p)
    {round : Phase10Round} (hr : round ∈ game.rounds) :
    entryOf p.playerName round.entries = round.entries[i]? := by
  obtain ⟨e, he, -⟩ := h.entry hp.1 hr
  rw [he]
  exact lookup_eq_some_at _ (h.rows round hr).symm hp.1 he hp.2

theorem Ledger.column_firstSeat {i : ℕ} {p : Phase10Player} (hp : game.FirstSeat i p) :
    game.column i = recordOf p.playerName game.rounds :=
  List.filterMap_congr (fun _ hr => (h.entryOf_firstSeat hp hr).symm)

theorem Ledger.column_length {i : ℕ} {p : Phase10Player} (hp : game.players[i]? = some p) :
    (game.column i).length = game.rounds.length := by
  rw [Phase10Game.column, List.length_filterMap_eq_countP, List.countP_eq_length]
  intro round hr
  obtain ⟨e, he, -⟩ := h.entry hp hr
  simp [he]

theorem Ledger.column_of_le {i : ℕ} (hi : game.players.length ≤ i) : game.column i = [] := by
  apply List.filterMap_eq_nil_iff.mpr
  intro round hr
  refine List.getElem?_eq_none ?_
  have hlen := congrArg List.length (h.rows round hr)
  simp only [Phase10Game.playerNames, List.length_map] at hlen
  omega

theorem Ledger.player_firstSeat {i : ℕ} {p : Phase10Player} (hp : game.FirstSeat i p) :
    p = standing p.playerName (game.column i) := by
  have hmem : p.playerName ∈ game.playerNames :=
    List.mem_map_of_mem (List.mem_of_getElem? hp.1)
  have hlook := lookup_eq_getElem? Phase10Player.playerName hp.1 hp.2
  rw [h.standings _ hmem, ← h.column_firstSeat hp] at hlook
  exact (Option.some.inj hlook).symm

end Rows

abbrev completedPhases (column : List Phase10RoundEntry) : ℕ := column.countP (·.phaseCompleted)

/-- The points of a column up to and including its tenth completed phase, in `Int32`. -/
def scoreOf (column : List Phase10RoundEntry) : Int32 :=
  ((through (·.phaseCompleted) 10 column).map (·.pointsAdded)).sum

theorem standing_eq (name : String) (column : List Phase10RoundEntry) :
    standing name column =
      if 10 ≤ completedPhases column then .completed ⟨name, scoreOf column⟩
      else .active ⟨name, phaseAfter (completedPhases column), scoreOf column⟩ := by
  rw [standing, tally, progress_eq _ _ _ (by omega)]
  split
  · rfl
  · rw [scoreOf, through_eq_self _ (by omega)]
    rfl

theorem PhasesFrom.rewriteRecord_eq {t : Tally} {hits : ℕ} {record : List Phase10RoundEntry}
    (ht : t.Counts 10 hits) (h : PhasesFrom hits record) : rewriteRecord t record = record := by
  induction record generalizing t hits with
  | nil => rfl
  | cons e record ih =>
    rw [rewriteRecord, ih (ht.step _ 10 _ e) h.2]
    cases t with
    | done total => rfl
    | running k total =>
      obtain rfl : k = hits := ht
      rw [Tally.rewrite, ← h.1]
      rfl

/-- What a player owes to its column: its kind, phase and score, the phases recorded in it, and
that recalculating the game would change none of them. -/
structure SeatLedger (game : Phase10Game) (i : ℕ) (p : Phase10Player) : Prop where
  length : (game.column i).length = game.rounds.length
  completed : (∃ c, p = .completed c) ↔ 10 ≤ completedPhases (game.column i)
  active : ∀ a, p = .active a → a.phase.toInt = 1 + (completedPhases (game.column i) : ℤ)
  score : p.score = scoreOf (game.column i)
  phases : ∀ k e, (game.column i)[k]? = some e →
    e.phase.toInt = min 10 (1 + (completedPhases ((game.column i).take k) : ℤ))
  recomputed : ∃ game', recalculateGameState game = .ok game' ∧ game'.players[i]? = some p ∧
    game'.column i = game.column i

theorem Ledger.recomputed {game : Phase10Game} (h : Ledger game) {i : ℕ} {p : Phase10Player}
    (hp : game.FirstSeat i p) :
    (Phase10.recalculated game).players[i]? = some p ∧
      (Phase10.recalculated game).column i = game.column i := by
  have hmem : p.playerName ∈ game.playerNames :=
    List.mem_map_of_mem (List.mem_of_getElem? hp.1)
  have hname : game.playerNames[i]? = some p.playerName := by
    simp [Phase10Game.playerNames, hp.1]
  have hplayer : (Phase10.recalculated game).players[i]? = some p := by
    rw [Phase10.recalculated, List.getElem?_map, hname]
    conv_rhs => rw [h.player_firstSeat hp, h.column_firstSeat hp]
    rfl
  have hfirst := (hp.of_playerNames (recalculated_playerNames game) hplayer).1
  refine ⟨hplayer, ?_⟩
  rw [h.recalculated.column_firstSeat hfirst, h.column_firstSeat hp]
  exact (recordOf_rewriteRounds hmem _ _).trans
    ((h.phases _ hmem).rewriteRecord_eq noTally_counts)

/-- In every reachable session, at every seat whose name occurs at no earlier seat, the player
is what its column says, whichever mix of submits, edits and reloads led there. -/
theorem ledger_invariant {s : Session} (hs : s.Reachable) {game : Phase10Game}
    (hg : s.state.game? = some game) {i : ℕ} {p : Phase10Player} (hp : game.FirstSeat i p) :
    SeatLedger game i p := by
  have h := hs.sound.state.ledger hg
  have hplayer := h.player_firstSeat hp
  have hmem : p.playerName ∈ game.playerNames :=
    List.mem_map_of_mem (List.mem_of_getElem? hp.1)
  have hphases := h.phases _ hmem
  rw [← h.column_firstSeat hp] at hphases
  rw [standing_eq] at hplayer
  refine ⟨h.column_length hp.1, ?_, ?_, ?_, ?_, ?_⟩
  · split at hplayer
    · next hten => exact ⟨fun _ => hten, fun _ => ⟨_, hplayer⟩⟩
    · next hten =>
      constructor
      · rintro ⟨c, hc⟩
        rw [hc] at hplayer
        cases hplayer
      · intro h10
        exact absurd h10 hten
  · intro a ha
    split at hplayer
    · rw [ha] at hplayer
      cases hplayer
    · next hten =>
      rw [ha, Phase10Player.active.injEq] at hplayer
      rw [hplayer, toInt_phaseAfter]
      omega
  · split at hplayer <;> rw [hplayer] <;> rfl
  · intro k e he
    rw [hphases.phase he, toInt_phaseAfter, Nat.zero_add]
    push_cast
    rfl
  · exact ⟨_, recalculateGameState_eq game, h.recomputed hp⟩

theorem ledger_invariant_ann_bob : ∃ s game, Session.Reachable s ∧ s.state.game? = some game ∧
    game.players = [.active ⟨"Ann", 2, 15⟩, .active ⟨"Bob", 1, 7⟩] ∧
    SeatLedger game 1 (.active ⟨"Bob", 1, 7⟩) := by
  obtain ⟨s, hs, hp⟩ := Session.reachable_of_run
    ([.call (.typeNames ["Ann", " Bob "]), .call .startGame] ++
      Session.playRound [⟨5, true⟩, ⟨20, true⟩] ++ [.load] ++
      Session.playRound [⟨10, false⟩, ⟨7, false⟩] ++
      [.call (.editRound 0 [⟨5, true⟩, ⟨-20, false⟩])])
    (fun s => s.state.game?.map (·.players) =
      some [.active ⟨"Ann", 2, 15⟩, .active ⟨"Bob", 1, 7⟩]) (by decide +kernel)
  obtain ⟨game, hg, hplayers⟩ := Option.map_eq_some_iff.mp (of_decide_eq_true hp)
  have hbob : game.FirstSeat 1 (.active ⟨"Bob", 1, 7⟩) := by
    refine ⟨by simp [hplayers], ?_⟩
    intro j hj q hq
    obtain rfl : j = 0 := by omega
    obtain rfl : .active ⟨"Ann", 2, 15⟩ = q := by simpa [hplayers] using hq
    decide
  exact ⟨s, game, hs, hg, hplayers, ledger_invariant hs hg hbob⟩

end HwoodiwissHelper.Phase10
