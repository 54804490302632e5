import HwoodiwissHelper.Phase10.Replay
import HwoodiwissHelper.Phase10.RestrictedRuns

/-!
# The setup screen

Players are added and removed on the setup screen, and their names are typed in. However that is
mixed with whole games, two to six players sit at a table, under trimmed names.
-/

namespace HwoodiwissHelper.Phase10

open Phase10GameService Transition

def Phase10GameState.setupNames : Phase10GameState → Option (List String)
  | .setup playerNames => some playerNames
  | _ => none

def Operation.typed : Operation → Option (List String)
  | .typeNames playerNames => some playerNames
  | _ => none

/-- The inputs of the setup screen change names, and not how many there are. -/
def InPlace (state : Phase10GameState) (operation : Operation) : Prop :=
  ∀ playerNames ∈ state.setupNames, ∀ typed ∈ operation.typed, typed.length = playerNames.length

instance (state : Phase10GameState) (operation : Operation) : Decidable (InPlace state operation) :=
  inferInstanceAs (Decidable (∀ _ ∈ _, ∀ _ ∈ _, _))

/-- A name that begins and ends with something else than white space. -/
def Trimmed (name : String) : Prop :=
  ∃ first last, name.toList.head? = some first ∧ isWhiteSpace first = false ∧
    name.toList.getLast? = some last ∧ isWhiteSpace last = false

theorem trimmed_trim {name : String} (h : isNullOrWhiteSpace name = false) :
    Trimmed (trim name) := by
  have hd : name.toList.dropWhile isWhiteSpace ≠ [] := by
    intro hnil
    have hall := List.dropWhile_eq_nil_iff.mp hnil
    rw [isNullOrWhiteSpace, List.all_eq_true.mpr hall] at h
    cases h
  have hfirst := List.dropWhile_get_zero_not isWhiteSpace name.toList (List.length_pos_iff.mpr hd)
  obtain ⟨first, rest, hd⟩ := List.exists_cons_of_ne_nil hd
  have hblank : isWhiteSpace first = false := by simpa [hd] using hfirst
  have hr : (first :: rest).rdropWhile isWhiteSpace ≠ [] := by
    intro hnil
    have hall := List.rdropWhile_eq_nil_iff.mp hnil first List.mem_cons_self
    rw [hblank] at hall
    cases hall
  have hlast := List.rdropWhile_last_not isWhiteSpace (first :: rest) hr
  have hprefix := List.rdropWhile_prefix isWhiteSpace (first :: rest)
  rw [Trimmed, trim, String.toList_ofList, hd]
  refine ⟨first, _, ?_, hblank, List.getLast?_eq_some_getLast hr, by simpa using hlast⟩
  obtain ⟨behind, happend⟩ := hprefix
  have hhead := congrArg List.head? happend
  rwa [List.head?_append_of_ne_nil _ hr] at hhead

/-- A game of two to six players with trimmed names. -/
structure Table (playerNames : List String) : Prop where
  two_le : 2 ≤ playerNames.length
  le_six : playerNames.length ≤ 6
  trimmed : ∀ name ∈ playerNames, Trimmed name

/-- As many names on the setup screen, or such a game. -/
structure Seated (state : Phase10GameState) : Prop where
  setup : ∀ playerNames, state = .setup playerNames →
    2 ≤ playerNames.length ∧ playerNames.length ≤ 6
  table : ∀ sheet, state.sheet? = some sheet → Table sheet.playerNames

theorem table_map_trim {names : List String} (hsix : names.length ≤ 6)
    (h : canStart names = true) : Table (names.map trim) := by
  rw [canStart, Bool.and_eq_true, decide_eq_true_eq, List.all_eq_true] at h
  refine ⟨by rw [List.length_map]; exact h.1, by rw [List.length_map]; exact hsix, ?_⟩
  intro name hname
  obtain ⟨typed, htyped, rfl⟩ := List.mem_map.mp hname
  apply trimmed_trim
  simpa using h.2 typed htyped

theorem reset_of_live {state : Phase10GameState} (hs : state.Sound) {game : Phase10Game}
    (hg : state.game? = some game) {o : Operation} {next : Phase10GameState × StoreCall}
    (he : o.perform state = .ok next) {names : List String} (hnext : next.1 = .setup names) :
    next.1 = resetToSetup := by
  have hnone : ScoreSheet.listen state o (some game.sheet) = none := by
    have hsheet : state.sheet? = some game.sheet := by rw [Phase10GameState.sheet?, hg]; rfl
    rw [← hsheet, sheet?_perform hs he, hnext]
    rfl
  cases o with
  | abandonGame => cases he; rfl
  | newGame => cases he; rfl
  | startGame =>
    cases state with
    | setup current => cases hg
    | inProgress game' entries => cases hnone
    | complete game' winner count => cases hnone
  | submitRound =>
    cases state with
    | setup current => cases hg
    | inProgress game' entries => cases hnone
    | complete game' winner count => cases hnone
  | _ => cases hnone

theorem setup_of_setup {current : List String}
    (h : 2 ≤ current.length ∧ current.length ≤ 6) {o : Operation}
    (hplace : InPlace (.setup current) o) {next : Phase10GameState × StoreCall}
    (he : o.perform (.setup current) = .ok next) {names : List String}
    (hnext : next.1 = .setup names) : 2 ≤ names.length ∧ names.length ≤ 6 := by
  obtain ⟨htwo, hsix⟩ := h
  have hkept (hkept : next.1 = .setup current) : 2 ≤ names.length ∧ names.length ≤ 6 := by
    obtain rfl := Phase10GameState.setup.inj (hkept.symm.trans hnext)
    exact ⟨htwo, hsix⟩
  have hreset (hreset : next.1 = resetToSetup) : 2 ≤ names.length ∧ names.length ≤ 6 := by
    obtain rfl := Phase10GameState.setup.inj (hreset.symm.trans hnext)
    decide
  cases o with
  | addPlayer =>
    cases he
    by_cases hfull : 6 ≤ current.length
    · exact hkept (by simp [addPlayer, hfull])
    · obtain rfl : current ++ [""] = names := by simpa [addPlayer, hfull] using hnext
      rw [List.length_append, List.length_singleton]
      omega
  | removePlayer index =>
    by_cases hfew : current.length ≤ 2
    · simp only [Operation.perform, removePlayer, hfew, if_true, ok_bind] at he
      cases he
      exact hkept rfl
    · by_cases hin : 0 ≤ index ∧ index < current.length
      · simp only [Operation.perform, removePlayer, hfew, hin, and_self, if_true, if_false,
          ok_bind] at he
        cases he
        obtain rfl := Phase10GameState.setup.inj hnext
        have hlt : index.toNat < current.length := by omega
        rw [List.length_eraseIdx_of_lt hlt]
        omega
      · simp only [Operation.perform, removePlayer, hfew, hin, if_false] at he
        cases he
  | typeNames typed =>
    cases he
    obtain rfl := Phase10GameState.setup.inj hnext
    rw [hplace current rfl typed rfl]
    exact ⟨htwo, hsix⟩
  | startGame =>
    cases he
    by_cases hstart : canStart current = true
    · simp [startGame, hstart] at hnext
    · exact hkept (by simp [startGame, hstart])
  | typeEntry index entry => cases he; exact hkept rfl
  | submitRound => cases he; exact hkept rfl
  | editRound r updates => cases he; exact hkept rfl
  | abandonGame => cases he; exact hreset rfl
  | newGame => cases he; exact hreset rfl

theorem Seated.perform {state : Phase10GameState} (h : Seated state) (hs : state.Sound)
    {o : Operation} (hplace : InPlace state o) {next : Phase10GameState × StoreCall}
    (he : o.perform state = .ok next) : Seated next.1 where
  setup names hnext := by
    cases hg : state.game? with
    | none =>
      obtain ⟨current, rfl⟩ := Phase10GameState.setup_of_game? hg
      exact setup_of_setup (h.setup current rfl) hplace he hnext
    | some game =>
      obtain rfl := Phase10GameState.setup.inj ((reset_of_live hs hg he hnext).symm.trans hnext)
      decide
  table sheet hsheet := by
    have hlisten := (sheet?_perform hs he).trans hsheet
    rcases ScoreSheet.listen_playerNames hlisten with
      ⟨prior, hprior, hnames⟩ | ⟨names, hstate, hstart, hnames⟩
    · rw [hnames]
      exact h.table prior hprior
    · rw [hnames]
      exact table_map_trim (h.setup names hstate).2 hstart

/-- Where the names on the setup screen are changed in place, there are two to six of them at any
time, and every game that is played or read back has as many players with trimmed names, whose
entries fill every round. -/
theorem two_to_six_players {s : Archive} (h : s.ReachableBy InPlace) :
    (∀ playerNames, s.state = .setup playerNames →
      2 ≤ playerNames.length ∧ playerNames.length ≤ 6) ∧
    ∀ game, s.state.game? = some game → Table game.playerNames ∧
      ∀ round ∈ game.rounds, round.entries.map (·.playerName) = game.playerNames := by
  have hseated : Seated s.state := by
    refine (h.invariant ?_ ?_ ?_).1
    · refine ⟨?_, ?_⟩
      · intro playerNames hstate
        obtain rfl := Phase10GameState.setup.inj hstate
        decide
      · intro sheet hsheet
        cases hsheet
    · intro state hp
      refine ⟨?_, ?_⟩
      · intro playerNames hstate
        apply hp.setup
        cases state with
        | setup names => exact hstate
        | inProgress game entries => cases hstate
        | complete game winner count => cases hstate
      · intro sheet hsheet
        rw [sheet?_refreshed] at hsheet
        exact hp.table sheet hsheet
    · intro state operation next hsound hp hplace hnext
      exact hp.perform hsound hplace hnext
  refine ⟨hseated.setup, ?_⟩
  intro game hg
  refine ⟨hseated.table game.sheet ?_, (h.reachable.sound.state.ledger hg).rows⟩
  rw [Phase10GameState.sheet?, hg]
  rfl

/-- Two players come and one goes, the names are typed in one by one, and a round is played. -/
theorem two_to_six_players_ann_bob_cy : ∃ (s : Archive) (game : Phase10Game),
    s.ReachableBy InPlace ∧ s.state.game? = some game ∧
    game.playerNames = ["Ann", "Bob", "Cy"] ∧ game.rounds.length = 1 ∧
    Table game.playerNames := by
  let events : List Session.Event := [.call .addPlayer, .call .addPlayer,
    .call (.typeNames [" Ann ", "", "Dot", ""]), .call (.removePlayer 2),
    .call (.typeNames [" Ann ", "Bob", ""]), .call (.typeNames [" Ann ", "Bob", "\tCy"]),
    .call .startGame] ++ Session.playRound [⟨5, true⟩, ⟨0, true⟩, ⟨20, false⟩] ++ [.load]
  obtain ⟨s, hr, hp⟩ := run_of_eval Session.step .launch events
    (fun s => s.state.game?.map (fun game => (game.playerNames, game.rounds.length)) =
      some (["Ann", "Bob", "Cy"], 1)) (by decide +kernel)
  have hplace : Along Session.step (Session.Allows InPlace) .launch events := by decide +kernel
  obtain ⟨saved, hreach, -⟩ := Session.archived_of_run hplace hr
  obtain ⟨game, hg, hgame⟩ := Option.map_eq_some_iff.mp (of_decide_eq_true hp)
  obtain ⟨hnames, hrounds⟩ := Prod.mk.inj hgame
  exact ⟨_, game, hreach, hg, hnames, hrounds, ((two_to_six_players hreach).2 game hg).1⟩

end HwoodiwissHelper.Phase10
