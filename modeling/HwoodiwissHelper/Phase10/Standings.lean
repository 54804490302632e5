import HwoodiwissHelper.Phase10.Archive

/-!
# The standings

The page lists the players by `ActiveStandings` while a game is on and by `GameOverStandings` when
it is over. Both are stable sorts of the player list, and the first place of a game that is over
is the winner the service chose by another sort, of the completed players alone.
-/

namespace HwoodiwissHelper.Phase10

open Phase10GameService StableOrder Phase10Game

namespace Phase10Player

def isCompleted (p : Phase10Player) : Bool := p.asCompleted.isSome

/-- The phase of an active player, and the given one for a completed player. -/
def phaseOr (completed : Int32) : Phase10Player → Int32
  | .active a => a.phase
  | .completed _ => completed

def completedRank : Phase10Player → Int32
  | .active _ => 0
  | .completed _ => 1

end Phase10Player

namespace Phase10Game

open Phase10Player

def activeStandings (game : Phase10Game) : List Phase10Player :=
  sortBy (compareLex (descendingOn (phaseOr 11)) (compareOn score)) game.players

def gameOverStandings (game : Phase10Game) : List Phase10Player :=
  sortBy (compareLex (descendingOn completedRank)
    (compareLex (descendingOn (phaseOr 10)) (compareOn score))) game.players

end Phase10Game

/-- The order of the standings: completed first, then the higher phase, then the lower score. -/
def Phase10Player.Ahead : Phase10Player → Phase10Player → Prop
  | .completed c, .completed d => c.score ≤ d.score
  | .completed _, .active _ => True
  | .active _, .completed _ => False
  | .active a, .active b => b.phase < a.phase ∨ (b.phase = a.phase ∧ a.score ≤ b.score)

theorem le_and_tie {a b : Int32} {p : Prop} : (b ≤ a ∧ (a ≤ b → p)) ↔ b < a ∨ (b = a ∧ p) := by
  rw [← Int32.toInt_inj, Int32.lt_iff_toInt_lt, Int32.le_iff_toInt_le, Int32.le_iff_toInt_le]
  constructor
  · rintro ⟨hle, himp⟩
    rcases lt_or_eq_of_le hle with hlt | heq
    · exact .inl hlt
    · exact .inr ⟨heq, himp heq.ge⟩
  · rintro (hlt | ⟨heq, hp⟩)
    · exact ⟨hlt.le, fun h => absurd h (by omega)⟩
    · exact ⟨heq.le, fun _ => hp⟩

/-- What the comparer of `GameOverStandings` puts first. -/
theorem isLE_gameOver (p q : Phase10Player) :
    (compareLex (descendingOn Phase10Player.completedRank)
      (compareLex (descendingOn (Phase10Player.phaseOr 10)) (compareOn Phase10Player.score))
        p q).isLE ↔ p.Ahead q := by
  rw [isLE_compareLex, isLE_compareLex, isLE_descendingOn, isLE_descendingOn, isLE_descendingOn,
    isLE_descendingOn, isLE_compareOn]
  cases p with
  | completed c =>
    cases q with
    | completed d => simp [Phase10Player.Ahead, Phase10Player.completedRank,
        Phase10Player.phaseOr, Phase10Player.score]
    | active b => simp [Phase10Player.Ahead, Phase10Player.completedRank]
  | active a =>
    cases q with
    | completed d => simp [Phase10Player.Ahead, Phase10Player.completedRank]
    | active b =>
      have hrank : (0 : Int32) ≤ 0 := Int32.le_refl 0
      simp only [Phase10Player.completedRank, Phase10Player.phaseOr, Phase10Player.score,
        Phase10Player.Ahead, hrank, true_and, true_implies]
      exact le_and_tie

theorem isLE_active {p q : Phase10Player} (hp : p.phaseOr 10 ≤ 10) (hq : q.phaseOr 10 ≤ 10) :
    (compareLex (descendingOn (Phase10Player.phaseOr 11)) (compareOn Phase10Player.score)
      p q).isLE ↔ p.Ahead q := by
  have hten {phase : Int32} (h : phase ≤ 10) : phase ≤ 11 ∧ ¬ 11 ≤ phase := by
    have hle : phase.toInt ≤ 10 := Int32.le_iff_toInt_le.mp h
    rw [Int32.le_iff_toInt_le, Int32.le_iff_toInt_le]
    exact ⟨Int.le_trans hle (by decide), fun h11 => absurd (Int.le_trans h11 hle) (by decide)⟩
  rw [isLE_compareLex, isLE_descendingOn, isLE_descendingOn, isLE_compareOn]
  cases p with
  | completed c =>
    cases q with
    | completed d => simp [Phase10Player.Ahead, Phase10Player.phaseOr, Phase10Player.score]
    | active b =>
      have hb : b.phase ≤ 10 := hq
      obtain ⟨hle, hnot⟩ := hten hb
      simp [Phase10Player.Ahead, Phase10Player.phaseOr, hle, hnot]
  | active a =>
    cases q with
    | completed d =>
      have ha : a.phase ≤ 10 := hp
      obtain ⟨-, hnot⟩ := hten ha
      simp [Phase10Player.Ahead, Phase10Player.phaseOr, hnot]
    | active b => exact le_and_tie

theorem gameOverStandings_pairwise (game : Phase10Game) :
    game.gameOverStandings.Pairwise Phase10Player.Ahead :=
  (sortBy_pairwise _ game.players).imp (isLE_gameOver _ _).mp

theorem Ledger.phaseOr_le {game : Phase10Game} (h : Ledger game) {p : Phase10Player}
    (hp : p ∈ game.players) : p.phaseOr 10 ≤ 10 := by
  obtain ⟨t, -, ht⟩ := h.counted p hp
  rw [ht]
  cases t with
  | done total => exact Int32.le_refl 10
  | running hits total =>
    change phaseAfter hits ≤ 10
    rw [Int32.le_iff_toInt_le, toInt_phaseAfter]
    change _ ≤ (10 : ℤ)
    omega

theorem Ledger.activeStandings_pairwise {game : Phase10Game} (h : Ledger game) :
    game.activeStandings.Pairwise Phase10Player.Ahead := by
  apply (sortBy_pairwise _ game.players).imp_of_mem
  intro p q hp hq hle
  have hmem {r : Phase10Player} (hr : r ∈ game.activeStandings) : r.phaseOr 10 ≤ 10 :=
    h.phaseOr_le ((sortBy_perm _ _).mem_iff.mp hr)
  exact (isLE_active (hmem hp) (hmem hq)).mp hle

/-- Among all players those come first who come first among the completed ones. -/
theorem least_gameOver {game : Phase10Game} (hc : game.completedPlayers ≠ []) (p : Phase10Player) :
    (∀ q ∈ game.players, p.Ahead q) ↔
      ∃ c, p.asCompleted = some c ∧ ∀ d ∈ game.completedPlayers, c.score ≤ d.score := by
  cases p with
  | active a =>
    obtain ⟨d, hd⟩ := List.exists_mem_of_ne_nil _ hc
    constructor
    · intro h
      exact absurd (h _ (completed_mem.mp hd)) id
    · rintro ⟨c, hnone, -⟩
      cases hnone
  | completed c =>
    constructor
    · intro h
      exact ⟨c, rfl, fun d hd => h _ (completed_mem.mp hd)⟩
    · rintro ⟨c', hc', hleast⟩ q hq
      obtain rfl : c = c' := Option.some.inj hc'
      cases q with
      | active b => trivial
      | completed d => exact hleast d (completed_mem.mpr hq)

/-- The sort of all players by three keys and the sort of the completed ones by their score agree
on who comes first, ties included. -/
theorem head?_gameOverStandings {game : Phase10Game} {winner : Phase10Player.Completed}
    (hw : lowestScore game.completedPlayers = .ok winner) :
    game.gameOverStandings.head? = some (.completed winner) := by
  have hhead : (orderBy (·.score) game.completedPlayers).head? = some winner := by
    unfold lowestScore at hw
    split at hw
    · cases hw
    · next w hhead =>
      cases hw
      exact hhead
  rw [head?_orderBy_eq] at hhead
  have hne : game.completedPlayers ≠ [] :=
    List.ne_nil_of_mem (List.mem_of_find?_eq_some hhead)
  nth_rewrite 2 [Phase10Game.completedPlayers] at hhead
  rw [List.find?_filterMap, Option.bind_eq_some_iff] at hhead
  obtain ⟨p, hfind, hp⟩ := hhead
  have hplayer : p = .completed winner := by
    cases p with
    | active a => cases hp
    | completed c => rw [Option.some.inj hp]
  rw [← hplayer, Phase10Game.gameOverStandings, head?_sortBy, ← hfind]
  refine List.find?_congr ?_
  intro q _
  rw [Bool.eq_iff_iff, least_iff, Option.any_eq_true]
  simp only [isLE_gameOver, least_gameOver hne, least_iff]

/-- The kind of a state, its winner and the standings say the same about its game. -/
structure StandingsAgree (state : Phase10GameState) (game : Phase10Game) : Prop where
  complete_iff : (∃ winner count, state = .complete game winner count) ↔
    ∃ p ∈ game.players, p.isCompleted
  inProgress_iff : (∃ entries, state = .inProgress game entries) ↔
    ∀ p ∈ game.players, ¬ p.isCompleted
  winner : ∀ winner count, state = .complete game winner count →
    count = game.players.countP (·.isCompleted) ∧ .completed winner ∈ game.players ∧
    (∀ c, .completed c ∈ game.players → winner.score ≤ c.score) ∧
    game.gameOverStandings.head? = some (.completed winner)
  gameOver_perm : game.gameOverStandings.Perm game.players
  gameOver_ordered : game.gameOverStandings.Pairwise Phase10Player.Ahead
  active_perm : game.activeStandings.Perm game.players
  active_ordered : game.activeStandings.Pairwise Phase10Player.Ahead

theorem completedPlayers_ne_nil_iff {game : Phase10Game} :
    game.completedPlayers ≠ [] ↔ ∃ p ∈ game.players, p.isCompleted := by
  simp [Phase10Game.completedPlayers, Phase10Player.isCompleted, Option.isSome_iff_ne_none]

/-- In every run, reloads of saved games included, the state is over exactly when somebody has
completed the game, and the winner is the first of the standings. -/
theorem standings_agree {s : Archive} (hs : s.Reachable) {game : Phase10Game}
    (hg : s.state.game? = some game) : StandingsAgree s.state game := by
  have hsound := hs.sound.state
  have hl := hsound.ledger hg
  cases hstate : s.state with
  | setup names =>
    rw [hstate] at hg
    cases hg
  | inProgress game' entries =>
    rw [hstate] at hg hsound
    obtain rfl : game' = game := Option.some.inj hg
    have hnone := hsound.inProgress.2.2
    have hall : ∀ p ∈ game'.players, ¬ p.isCompleted := by
      simpa [completedPlayers_ne_nil_iff] using not_not_intro hnone
    refine ⟨⟨?_, ?_⟩, ⟨fun _ => hall, fun _ => ⟨entries, rfl⟩⟩, ?_, sortBy_perm _ _,
      gameOverStandings_pairwise game', sortBy_perm _ _, hl.activeStandings_pairwise⟩
    · rintro ⟨winner, count, h⟩
      cases h
    · rintro ⟨p, hp, hpc⟩
      exact absurd hpc (hall p hp)
    · intro winner count h
      cases h
  | complete game' winner count =>
    rw [hstate] at hg hsound
    obtain rfl : game' = game := Option.some.inj hg
    obtain ⟨-, hne, hw, hcount⟩ := hsound.complete
    have hsome := completedPlayers_ne_nil_iff.mp hne
    refine ⟨⟨fun _ => hsome, fun _ => ⟨winner, count, rfl⟩⟩, ⟨?_, ?_⟩, ?_, sortBy_perm _ _,
      gameOverStandings_pairwise game', sortBy_perm _ _, hl.activeStandings_pairwise⟩
    · rintro ⟨entries, h⟩
      cases h
    · intro hall
      obtain ⟨p, hp, hpc⟩ := hsome
      exact absurd hpc (hall p hp)
    · intro winner' count' h
      cases h
      obtain ⟨hmem, hlowest⟩ := lowestScore_spec hw
      refine ⟨?_, completed_mem.mp hmem, fun c hc => hlowest c (completed_mem.mpr hc),
        head?_gameOverStandings hw⟩
      rw [hcount, Phase10Game.completedPlayers, List.length_filterMap_eq_countP]
      rfl

/-- Two players complete their tenth phase with the same score: the first of them wins and stands
first. -/
theorem standings_agree_tie : ∃ (s : Archive) (game : Phase10Game), s.Reachable ∧
    s.state = .complete game ⟨"Ann", 10⟩ 2 ∧
    game.gameOverStandings = [.completed ⟨"Ann", 10⟩, .completed ⟨"Bob", 10⟩, .active ⟨"Cy", 1, 0⟩] ∧
    StandingsAgree s.state game := by
  obtain ⟨s, hs, hp⟩ := Session.reachable_of_run
    ([.call .addPlayer, .call (.typeNames ["Cy", "Ann", "Bob"]), .call .startGame] ++
      (List.replicate 10 (Session.playRound [⟨0, false⟩, ⟨1, true⟩, ⟨1, true⟩])).flatten ++ [.load])
    (fun s => match s.state with
      | .complete game winner count => winner = ⟨"Ann", 10⟩ ∧ count = 2 ∧ game.gameOverStandings =
          [.completed ⟨"Ann", 10⟩, .completed ⟨"Bob", 10⟩, .active ⟨"Cy", 1, 0⟩]
      | _ => false) (by decide +kernel)
  obtain ⟨saved, hreach, -⟩ := hs.archive
  cases hstate : s.state with
  | setup names => simp [hstate] at hp
  | inProgress game entries => simp [hstate] at hp
  | complete game winner count =>
    simp only [hstate, decide_eq_true_eq] at hp
    obtain ⟨rfl, rfl, hstandings⟩ := hp
    have hg : s.state.game? = some game := by rw [hstate]; rfl
    exact ⟨⟨s.state, saved⟩, game, hreach, hstate, hstandings, standings_agree hreach hg⟩

end HwoodiwissHelper.Phase10
