import HwoodiwissHelper.Phase10.Soundness
import HwoodiwissHelper.Services.LocalStorageAppStateStore

/-!
# Saved games in local storage

The contracts of the four stored types, as their constructors and accessors have them. A round
entry has a private constructor and no other, so a game with a played round is written and never
read.
-/

namespace HwoodiwissHelper.Phase10

open JsonContract Phase10GameService LocalStorageAppStateStore

def Phase10StoredPlayer.properties : List (ExactProperty Phase10StoredPlayer) :=
  [⟨⟨"Name", _, .string, (·.name), fun v p => { p with name := v }⟩, _, exact_string⟩,
    ⟨⟨"CurrentPhase", _, .int32, (·.currentPhase), fun v p => { p with currentPhase := v }⟩, _,
      exact_int32⟩,
    ⟨⟨"TotalScore", _, .int32, (·.totalScore), fun v p => { p with totalScore := v }⟩, _,
      exact_int32⟩,
    ⟨⟨"CompletedGame", _, .boolean, (·.completedGame), fun v p => { p with completedGame := v }⟩, _,
      exact_boolean⟩]

def Phase10StoredPlayer.contract : Contract Phase10StoredPlayer :=
  .ofClass {} (properties.map (·.toProperty))

def Phase10RoundEntry.contract : Contract Phase10RoundEntry :=
  .ofFactory (fun e => [("PlayerName", Contract.string.write e.playerName),
    ("Phase", Contract.int32.write e.phase),
    ("PhaseCompleted", Contract.boolean.write e.phaseCompleted),
    ("PointsAdded", Contract.int32.write e.pointsAdded)])

def Phase10Round.properties : List (ExactProperty Phase10Round) :=
  [⟨⟨"RoundNumber", _, .int32, (·.roundNumber), fun v r => { r with roundNumber := v }⟩, _,
      exact_int32⟩,
    ⟨⟨"Entries", _, .list Phase10RoundEntry.contract, (·.entries),
      fun v r => { r with entries := v }⟩, _, exact_list (exact_ofFactory _)⟩]

def Phase10Round.contract : Contract Phase10Round :=
  .ofClass ⟨0, []⟩ (properties.map (·.toProperty))

theorem exact_storedPlayer : Exact Phase10StoredPlayer.contract (fun _ => true) :=
  exact_ofClass (by decide) (fun _ => rfl)

theorem exact_round : Exact Phase10Round.contract (fun r => r.entries.isEmpty) := by
  refine Exact.congr (exact_ofClass (by decide) (fun _ => rfl)) (fun r => ?_)
  obtain ⟨roundNumber, entries⟩ := r
  cases entries <;> rfl

def Phase10StoredGame.properties : List (ExactProperty Phase10StoredGame) :=
  [⟨⟨"Players", _, .list Phase10StoredPlayer.contract, (·.players),
      fun v g => { g with players := v }⟩, _, exact_list exact_storedPlayer⟩,
    ⟨⟨"Rounds", _, .list Phase10Round.contract, (·.rounds), fun v g => { g with rounds := v }⟩, _,
      exact_list exact_round⟩,
    ⟨⟨"CurrentRound", _, .int32, (·.currentRound), fun v g => { g with currentRound := v }⟩, _,
      exact_int32⟩,
    ⟨⟨"IsComplete", _, .boolean, (·.isComplete), fun v g => { g with isComplete := v }⟩, _,
      exact_boolean⟩]

def Phase10StoredGame.contract : Contract Phase10StoredGame :=
  .ofClass {} (properties.map (·.toProperty))

/-- A stored game is read back exactly when none of its rounds has entries. -/
theorem exact_storedGame :
    Exact Phase10StoredGame.contract (fun g => g.rounds.all (fun r => r.entries.isEmpty)) := by
  refine Exact.congr (exact_ofClass (by decide) (fun _ => rfl)) (fun g => ?_)
  simp [Phase10StoredGame.properties]

/-- A saved game is read back as it was and stays in the storage. -/
def SurvivesStorage (storage : LocalStorage) (key : String) (stored : Phase10StoredGame) : Prop :=
  getItem {} Phase10StoredGame.contract key
      (setItem {} Phase10StoredGame.contract key stored storage) =
    (some stored, setItem {} Phase10StoredGame.contract key stored storage)

theorem saveGame_eq_setItem {state : Phase10GameState} {game : Phase10Game}
    (hg : state.game? = some game) :
    ∃ stored, saveGame state = .setItem stored ∧ stored.rounds = game.rounds := by
  cases state with
  | setup names => cases hg
  | inProgress game' entries => cases hg; exact ⟨_, rfl, rfl⟩
  | complete game' winner count => cases hg; exact ⟨_, rfl, rfl⟩

theorem game?_of_setItem {state : Phase10GameState} {stored : Phase10StoredGame}
    (h : saveGame state = .setItem stored) :
    ∃ game, state.game? = some game ∧ stored.rounds = game.rounds := by
  cases state with
  | setup names => cases h
  | inProgress game entries => cases h; exact ⟨game, rfl, rfl⟩
  | complete game winner count => cases h; exact ⟨game, rfl, rfl⟩

theorem Ledger.all_isEmpty_iff {game : Phase10Game} (h : Ledger game) :
    game.rounds.all (fun r => r.entries.isEmpty) ↔ game.rounds = [] := by
  constructor
  · intro hall
    rw [List.eq_nil_iff_forall_not_mem]
    intro round hround
    have hentries : round.entries = [] := by simpa using List.all_eq_true.mp hall round hround
    have hlen := congrArg List.length (h.rows round hround)
    simp only [hentries, Phase10Game.playerNames, List.length_map, List.length_nil] at hlen
    have hseated := h.seated
    omega
  · intro hrounds
    simp [hrounds]

/-- What reading a saved game gives: the game without rounds, or nothing and an empty place. -/
theorem getItem_saved {s : Session} (h : s.Reachable) {stored : Phase10StoredGame}
    (hsave : saveGame s.state = .setItem stored) (storage : LocalStorage) (key : String) :
    getItem {} Phase10StoredGame.contract key
        (setItem {} Phase10StoredGame.contract key stored storage) =
      if stored.rounds = []
      then (some stored, setItem {} Phase10StoredGame.contract key stored storage)
      else (none, Function.update storage key none) := by
  obtain ⟨game, hg, hrounds⟩ := game?_of_setItem hsave
  simp only [getItem_setItem exact_storedGame, hrounds,
    (h.sound.state.ledger hg).all_isEmpty_iff]

/-- What a service saves survives the storage exactly when no round has been played. -/
theorem saved_game_survives_iff {s : Session} (h : s.Reachable) {stored : Phase10StoredGame}
    (hsave : saveGame s.state = .setItem stored) (storage : LocalStorage) (key : String) :
    SurvivesStorage storage key stored ↔ stored.rounds = [] := by
  rw [SurvivesStorage, getItem_saved h hsave]
  split
  · next hrounds => exact ⟨fun _ => hrounds, fun _ => rfl⟩
  · next hrounds =>
    constructor
    · intro heq
      cases congrArg Prod.fst heq
    · intro hempty
      exact absurd hempty hrounds

theorem exists_saved (events : List Session.Event) (n : ℕ)
    (h : (Transition.run Session.step .launch events).toOption.map
      (fun s => decide (s.state.game?.map (·.rounds.length) = some n)) = some true) :
    ∃ (s : Session) (stored : Phase10StoredGame), s.Reachable ∧
      saveGame s.state = .setItem stored ∧ stored.rounds.length = n := by
  obtain ⟨s, hs, hp⟩ := Session.reachable_of_run events _ h
  obtain ⟨game, hg, hlen⟩ := Option.map_eq_some_iff.mp (of_decide_eq_true hp)
  obtain ⟨stored, hsave, hrounds⟩ := saveGame_eq_setItem hg
  exact ⟨s, stored, hs, hsave, by rw [hrounds, hlen]⟩

theorem saved_game_survives_ann_bob : ∃ (s : Session) (stored : Phase10StoredGame), s.Reachable ∧
    saveGame s.state = .setItem stored ∧ stored.rounds = [] ∧
    SurvivesStorage (fun _ => none) "phase10-game" stored := by
  obtain ⟨s, stored, hs, hsave, hlen⟩ :=
    exists_saved [.call (.typeNames ["Ann", "Bob"]), .call .startGame] 0 (by decide +kernel)
  have hrounds := List.length_eq_zero_iff.mp hlen
  have hsurvives : SurvivesStorage (fun _ => none) "phase10-game" stored :=
    (saved_game_survives_iff hs hsave _ _).mpr hrounds
  exact ⟨s, stored, hs, hsave, hrounds, hsurvives⟩

/-- One played round: the game is not read back, and it is gone from the storage. -/
theorem played_round_is_lost : ∃ (s : Session) (stored : Phase10StoredGame), s.Reachable ∧
    saveGame s.state = .setItem stored ∧ stored.rounds.length = 1 ∧
    (getItem {} Phase10StoredGame.contract "phase10-game"
      (setItem {} Phase10StoredGame.contract "phase10-game" stored (fun _ => none))).1 = none ∧
    (getItem {} Phase10StoredGame.contract "phase10-game"
      (setItem {} Phase10StoredGame.contract "phase10-game" stored (fun _ => none))).2
        "phase10-game" = none ∧
    ¬ SurvivesStorage (fun _ => none) "phase10-game" stored := by
  obtain ⟨s, stored, hs, hsave, hlen⟩ := exists_saved
    ([.call (.typeNames ["Ann", "Bob"]), .call .startGame] ++
      Session.playRound [⟨5, true⟩, ⟨20, false⟩]) 1 (by decide +kernel)
  have hrounds : stored.rounds ≠ [] := by
    intro hnil
    simp [hnil] at hlen
  have hget := getItem_saved hs hsave (fun _ => none) "phase10-game"
  rw [if_neg hrounds] at hget
  refine ⟨s, stored, hs, hsave, hlen, congrArg Prod.fst hget, ?_, ?_⟩
  · rw [hget]
    simp
  · intro hsurvives
    cases congrArg Prod.fst (hget.symm.trans hsurvives)

end HwoodiwissHelper.Phase10
