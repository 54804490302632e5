import HwoodiwissHelper.Phase10.Replay

/-!
# When a game ends

A player has some phases to go, and each round takes one of them off at most. So a game in progress
can be finished by anybody who sits in it, and it is over as soon as somebody has none to go.
-/

namespace HwoodiwissHelper.Phase10

open Phase10GameService Transition Milestone

/-- How many phases a player completes to complete the game. -/
def Phase10Player.Active.toGo (a : Phase10Player.Active) : ℕ := (11 - a.phase.toInt).toNat

def marks (i : ℕ) (rows : List (List RoundEntryModel)) : ℕ :=
  rows.countP fun row => row[i]?.any (·.phaseCompleted)

/-- Somebody completes as many phases in the rows as the game has left for that seat. -/
def Finishes (game : Phase10Game) (rows : List (List RoundEntryModel)) : Prop :=
  ∃ i a, game.players[i]? = some (.active a) ∧ a.toGo ≤ marks i rows

theorem toGo_running (name : String) {hits : ℕ} (total : Int32) (h : hits < 10) :
    Phase10Player.Active.toGo ⟨name, phaseAfter hits, total⟩ = 10 - hits := by
  rw [Phase10Player.Active.toGo, toInt_phaseAfter]
  omega

theorem Ledger.running {game : Phase10Game} (h : Ledger game) {a : Phase10Player.Active}
    (ha : .active a ∈ game.players) :
    ∃ name hits total, hits < 10 ∧ a = ⟨name, phaseAfter hits, total⟩ := by
  obtain ⟨t, hopen, hplayer⟩ := h.counted _ ha
  cases t with
  | done total => cases hplayer
  | running hits total => exact ⟨_, hits, total, hopen, Phase10Player.active.inj hplayer⟩

theorem Ledger.toGo_pos {game : Phase10Game} (h : Ledger game) {a : Phase10Player.Active}
    (ha : .active a ∈ game.players) : 0 < a.toGo := by
  obtain ⟨name, hits, total, hlt, rfl⟩ := h.running ha
  rw [toGo_running name total hlt]
  omega

theorem marks_cons (i : ℕ) (row : List RoundEntryModel) (rows : List (List RoundEntryModel)) :
    marks i (row :: rows) =
      marks i rows + if row[i]?.any (·.phaseCompleted) then 1 else 0 :=
  List.countP_cons

theorem Ledger.submittedPlayer_toGo {game : Phase10Game} (h : Ledger game)
    {a : Phase10Player.Active} (ha : .active a ∈ game.players) (pending : RoundEntryModel) :
    (∃ c, submittedPlayer a pending = .completed c ∧ pending.phaseCompleted = true ∧
      a.toGo = 1) ∨
    ∃ a', submittedPlayer a pending = .active a' ∧
      a.toGo = a'.toGo + if pending.phaseCompleted then 1 else 0 := by
  obtain ⟨name, hits, total, hlt, rfl⟩ := h.running ha
  rw [submittedPlayer_eq name total pending hlt, toGo_running name total hlt]
  cases hc : pending.phaseCompleted with
  | false =>
    right
    refine ⟨⟨name, phaseAfter hits, total + max 0 pending.points⟩, ?_, ?_⟩
    · simp [Progress.step, recordedEntry, hc, playerOf]
    · rw [toGo_running name _ hlt]
      rfl
  | true =>
    by_cases h10 : hits + 1 = 10
    · left
      refine ⟨⟨name, total + max 0 pending.points⟩, ?_, rfl, by omega⟩
      simp [Progress.step, recordedEntry, hc, h10, playerOf]
    · right
      refine ⟨⟨name, phaseAfter (hits + 1), total + max 0 pending.points⟩, ?_, ?_⟩
      · simp [Progress.step, recordedEntry, hc, h10, playerOf]
      · rw [toGo_running name _ (by omega), if_pos rfl]
        omega

section Submitted

variable {game : Phase10Game} {seats : List Seat} {row : List RoundEntryModel}

theorem submittedGame_at (hseats : game.players = seats.map Seat.player)
    (hrow : row = seats.map (·.2)) {i : ℕ} {p : Phase10Player} :
    (submittedGame game seats).players[i]? = some p ↔
      ∃ a pending, game.players[i]? = some (.active a) ∧ row[i]? = some pending ∧
        submittedPlayer a pending = p := by
  rw [hseats, hrow, submittedGame, List.getElem?_map, List.getElem?_map, List.getElem?_map]
  cases seats[i]? with
  | none => simp
  | some seat => simp [Seat.player, Seat.submitted]

/-- Where a round leaves everybody in the game, the rounds after it finish the game as they do
together with it. -/
theorem Ledger.finishes_submittedGame (h : Ledger game)
    (hseats : game.players = seats.map Seat.player) (hrow : row = seats.map (·.2))
    (hnone : (submittedGame game seats).completedPlayers = [])
    (rows : List (List RoundEntryModel)) :
    Finishes (submittedGame game seats) rows ↔ Finishes game (row :: rows) := by
  constructor
  · rintro ⟨i, a', ha', hmarks⟩
    obtain ⟨a, pending, ha, hpending, hplayer⟩ := (submittedGame_at hseats hrow).mp ha'
    refine ⟨i, a, ha, ?_⟩
    rw [marks_cons, hpending, Option.any_some]
    rcases h.submittedPlayer_toGo (List.mem_of_getElem? ha) pending with
      ⟨c, hc, -⟩ | ⟨a'', hactive, htoGo⟩
    · rw [hc] at hplayer
      cases hplayer
    · rw [hactive] at hplayer
      obtain rfl := Phase10Player.active.inj hplayer
      omega
  · rintro ⟨i, a, ha, hmarks⟩
    obtain ⟨pending, hpending⟩ : ∃ pending, row[i]? = some pending := by
      have hi : i < row.length := by
        have hlt := (List.getElem?_eq_some_iff.mp ha).1
        simpa [hrow, hseats] using hlt
      exact ⟨_, List.getElem?_eq_getElem hi⟩
    have hplayer := (submittedGame_at hseats hrow).mpr ⟨a, pending, ha, hpending, rfl⟩
    rw [marks_cons, hpending, Option.any_some] at hmarks
    rcases h.submittedPlayer_toGo (List.mem_of_getElem? ha) pending with
      ⟨c, hc, -⟩ | ⟨a', hactive, htoGo⟩
    · rw [hc] at hplayer
      have hmem := Phase10Game.completed_mem.mpr (List.mem_of_getElem? hplayer)
      rw [hnone] at hmem
      cases hmem
    · rw [hactive] at hplayer
      exact ⟨i, a', hplayer, by omega⟩

theorem Ledger.finishes_of_completed (h : Ledger game)
    (hseats : game.players = seats.map Seat.player) (hrow : row = seats.map (·.2))
    (hsome : (submittedGame game seats).completedPlayers ≠ [])
    (rows : List (List RoundEntryModel)) : Finishes game (row :: rows) := by
  obtain ⟨c, hc⟩ := List.exists_mem_of_ne_nil _ hsome
  obtain ⟨i, hi⟩ := List.getElem?_of_mem (Phase10Game.completed_mem.mp hc)
  obtain ⟨a, pending, ha, hpending, hplayer⟩ := (submittedGame_at hseats hrow).mp hi
  refine ⟨i, a, ha, ?_⟩
  rcases h.submittedPlayer_toGo (List.mem_of_getElem? ha) pending with
    ⟨-, -, hmarked, htoGo⟩ | ⟨a', hactive, -⟩
  · rw [marks_cons, hpending, Option.any_some, hmarked, if_pos rfl, htoGo]
    omega
  · rw [hactive] at hplayer
    cases hplayer

end Submitted

theorem run_over (game : Phase10Game) (winner : Phase10Player.Completed) (count : ℕ)
    (store : Option Phase10StoredGame) (rows : List (List RoundEntryModel)) :
    run Session.step ⟨.complete game winner count, store⟩ (rows.flatMap Session.playRound) =
      .ok ⟨.complete game winner count, store⟩ := by
  apply run_fixed
  intro e he
  obtain ⟨row, -, he⟩ := List.mem_flatMap.mp he
  rcases List.mem_append.mp he with htyped | hsubmitted
  · obtain ⟨p, -, rfl⟩ := List.mem_map.mp htyped
    rfl
  · obtain rfl := List.mem_singleton.mp hsubmitted
    rfl

theorem run_to_end {rows : List (List RoundEntryModel)} {game : Phase10Game}
    {entries : List RoundEntryModel} (h : Phase10GameState.Sound (.inProgress game entries))
    (hlen : ∀ row ∈ rows, row.length = game.players.length) (store : Option Phase10StoredGame) :
    ∃ t, run Session.step ⟨.inProgress game entries, store⟩ (rows.flatMap Session.playRound) =
        .ok t ∧ ((∃ game' winner count, t.state = .complete game' winner count) ↔
          Finishes game rows) := by
  induction rows generalizing game entries store with
  | nil =>
    refine ⟨_, rfl, ?_⟩
    constructor
    · rintro ⟨game', winner, count, hstate⟩
      cases hstate
    · rintro ⟨i, a, ha, hmarks⟩
      have hpos := h.inProgress.1.toGo_pos (List.mem_of_getElem? ha)
      have hzero : marks i [] = 0 := rfl
      omega
  | cons row rows ih =>
    obtain ⟨hrow, hrows⟩ := List.forall_mem_cons.mp hlen
    have hl := h.inProgress.1
    obtain ⟨seats, entries', t, hseats, hpending, ht, hsettled, hsound⟩ := run_round h hrow store
    obtain ⟨state, store'⟩ := t
    rw [List.flatMap_cons, run_append, ht, ok_bind]
    cases hsettled with
    | complete hc hw =>
      refine ⟨_, run_over _ _ _ store' rows, ?_⟩
      constructor
      · exact fun _ => hl.finishes_of_completed hseats hpending hc rows
      · exact fun _ => ⟨_, _, _, rfl⟩
    | inProgress hc =>
      have hseated : (submittedGame game seats).players.length = game.players.length := by
        rw [hseats, List.length_map]
        exact List.length_map _
      obtain ⟨t', ht', hover⟩ :=
        ih hsound (fun r hr => (hrows r hr).trans hseated.symm) store'
      exact ⟨t', ht', hover.trans (hl.finishes_submittedGame hseats hpending hc rows)⟩

/-- From every reachable game in progress, whatever was edited or loaded before and whatever the
names are, rounds that are played in full end the game exactly when some seat completes in them as
many phases as it has to go. -/
theorem rounds_end_the_game {s : Session} (hs : s.Reachable) {game : Phase10Game}
    {entries : List RoundEntryModel} (hstate : s.state = .inProgress game entries)
    {rows : List (List RoundEntryModel)} (hlen : ∀ row ∈ rows, row.length = game.players.length) :
    ∃ t, run Session.step s (rows.flatMap Session.playRound) = .ok t ∧
      ((∃ game' winner count, t.state = .complete game' winner count) ↔ Finishes game rows) := by
  obtain ⟨state, store⟩ := s
  obtain rfl : state = .inProgress game entries := hstate
  exact run_to_end hs.sound.state hlen store

def nineRounds : List (List RoundEntryModel) := List.replicate 9 [⟨5, false⟩, ⟨0, true⟩]

/-- The second namesake finishes a game whose first round was corrected. -/
theorem rounds_end_the_game_namesakes : ∃ (s : Session) (game : Phase10Game)
    (entries : List RoundEntryModel), s.Reachable ∧ s.state = .inProgress game entries ∧
    game.players = [.active ⟨"Ann", 2, 5⟩, .active ⟨"Ann", 2, 5⟩] ∧
    ∃ t, run Session.step s (nineRounds.flatMap Session.playRound) = .ok t ∧
      ∃ game' winner count, t.state = .complete game' winner count := by
  obtain ⟨s, hs, hp⟩ := Session.reachable_of_run
    ([.call (.typeNames ["Ann", "Ann"]), .call .startGame] ++
      Session.playRound [⟨5, false⟩, ⟨0, true⟩] ++ [.call (.editRound 0 [⟨5, true⟩]), .load])
    (fun s => s.state.game?.map (·.players) =
      some [.active ⟨"Ann", 2, 5⟩, .active ⟨"Ann", 2, 5⟩]) (by decide +kernel)
  obtain ⟨game, hg, hplayers⟩ := Option.map_eq_some_iff.mp (of_decide_eq_true hp)
  have hopen : game.completedPlayers = [] := by
    rw [Phase10Game.completedPlayers, hplayers]
    rfl
  obtain ⟨entries, hsettled⟩ := hs.sound.state.settled hg
  have hlen : ∀ row ∈ nineRounds, row.length = game.players.length := by
    rw [hplayers]
    decide
  have hfinishes : Finishes game nineRounds := ⟨1, ⟨"Ann", 2, 5⟩, by rw [hplayers]; rfl, by decide⟩
  generalize hstate : s.state = state at hsettled
  cases hsettled with
  | complete hc => exact absurd hopen hc
  | inProgress =>
    obtain ⟨t, ht, hover⟩ := rounds_end_the_game hs hstate hlen
    exact ⟨s, game, entries, hs, hstate, hplayers, t, ht, hover.mpr hfinishes⟩

end HwoodiwissHelper.Phase10
