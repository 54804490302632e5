import HwoodiwissHelper.Phase10.Replay
import HwoodiwissHelper.Phase10.Standings

/-!
# The order of the seats

Where names are different, a player can sit anywhere: whoever records the same points and completed
phases under the same names in every round has the same players, histories and standings, up to the
order of the seats. That order decides who wins a tie, and nothing else.
-/

namespace HwoodiwissHelper.Phase10

open Phase10GameService KeyedList StableOrder

def Phase10RoundEntry.named (e : Phase10RoundEntry) : String × Cell := (e.playerName, e.cell)

def Phase10Round.named (round : Phase10Round) : List (String × Cell) := round.entries.map (·.named)

/-- The rounds record the same for everybody, in whichever order. -/
def SameRecords (rounds rounds' : List Phase10Round) : Prop :=
  List.Forall₂ (fun round round' => round.named.Perm round'.named) rounds rounds'

theorem SameRecords.symm {rounds rounds' : List Phase10Round} (h : SameRecords rounds rounds') :
    SameRecords rounds' rounds := by
  induction h with
  | nil => exact .nil
  | cons hround _ ih => exact .cons hround.symm ih

theorem keys_named (round : Phase10Round) :
    round.named.map Prod.fst = round.entries.map (·.playerName) := by
  rw [Phase10Round.named, List.map_map]
  rfl

theorem lookup_named (name : String) (round : Phase10Round) :
    lookup Prod.fst name round.named = (entryOf name round.entries).map (·.named) :=
  lookup_map _ Prod.fst Phase10RoundEntry.named (fun _ => rfl) name round.entries

theorem SameRecords.map_recordOf {rounds rounds' : List Phase10Round}
    (h : SameRecords rounds rounds')
    (hn : ∀ round ∈ rounds, (round.entries.map (·.playerName)).Nodup) (name : String) :
    (recordOf name rounds).map (·.named) = (recordOf name rounds').map (·.named) := by
  induction h with
  | nil => rfl
  | @cons round round' rounds rounds' hround _ ih =>
    obtain ⟨hfirst, hrest⟩ := List.forall_mem_cons.mp hn
    have hentry : (entryOf name round.entries).map (·.named) =
        (entryOf name round'.entries).map (·.named) := by
      rw [← lookup_named, ← lookup_named]
      apply lookup_perm Prod.fst hround
      rw [keys_named]
      exact hfirst
    rw [recordOf_cons, recordOf_cons, List.map_append, List.map_append, ih hrest,
      ← Option.toList_map, ← Option.toList_map, hentry]

theorem PhasesFrom.record_eq {hits : ℕ} {record record' : List Phase10RoundEntry}
    (h : PhasesFrom hits record) (h' : PhasesFrom hits record')
    (hnamed : record.map (·.named) = record'.map (·.named)) : record = record' := by
  induction record generalizing hits record' with
  | nil => exact (List.map_eq_nil_iff.mp hnamed.symm).symm
  | cons e record ih =>
    cases record' with
    | nil => cases hnamed
    | cons e' record' =>
      obtain ⟨hentry, hrest⟩ := List.cons.inj hnamed
      obtain ⟨hname, hcell⟩ := Prod.mk.inj hentry
      obtain rfl : e = e' := entry_ext hname (h.1.trans h'.1.symm) hcell
      rw [ih h.2 h'.2 hrest]

/-- The same players with the same records, wherever they sit. -/
structure Reseated (game game' : Phase10Game) : Prop where
  names : game.playerNames.Perm game'.playerNames
  records : SameRecords game.rounds game'.rounds

section Reseated

variable {game game' : Phase10Game}

theorem Reseated.symm (h : Reseated game game') : Reseated game' game :=
  ⟨h.names.symm, h.records.symm⟩

theorem Ledger.entries_nodup (hl : Ledger game) (hn : game.playerNames.Nodup)
    {round : Phase10Round} (hround : round ∈ game.rounds) :
    (round.entries.map (·.playerName)).Nodup := by
  rw [hl.rows round hround]
  exact hn

variable (h : Reseated game game') (hl : Ledger game) (hl' : Ledger game')
  (hn : game.playerNames.Nodup)
include h hl hl' hn

theorem Reseated.recordOf_eq {name : String} (hname : name ∈ game.playerNames) :
    recordOf name game.rounds = recordOf name game'.rounds := by
  have hname' : name ∈ game'.playerNames := h.names.mem_iff.mp hname
  apply (hl.phases name hname).record_eq (hl'.phases name hname')
  apply h.records.map_recordOf
  intro round hround
  exact hl.entries_nodup hn hround

theorem Reseated.players : game.players.Perm game'.players := by
  have hn' : game'.playerNames.Nodup := h.names.nodup hn
  have hsame : game.playerNames.map (fun n => standing n (recordOf n game.rounds)) =
      game.playerNames.map (fun n => standing n (recordOf n game'.rounds)) := by
    apply List.map_congr_left
    intro name hname
    rw [h.recordOf_eq hl hl' hn hname]
  rw [hl.recorded_of_nodup hn, hl'.recorded_of_nodup hn', hsame]
  exact h.names.map _

theorem Reseated.mem_entries {k : ℕ} {round round' : Phase10Round}
    (hk : game.rounds[k]? = some round) (hk' : game'.rounds[k]? = some round')
    {e : Phase10RoundEntry} (he : e ∈ round.entries) : e ∈ round'.entries := by
  have hround := List.mem_of_getElem? hk
  have hname : e.playerName ∈ game.playerNames := by
    rw [← hl.rows round hround]
    exact List.mem_map_of_mem he
  have hat {g : Phase10Game} (hg : Ledger g) (hmem : e.playerName ∈ g.playerNames) :
      (recordOf e.playerName g.rounds)[k]? = g.rounds[k]?.bind (entryOf e.playerName ·.entries) := by
    refine getElem?_filterMap_of_isSome ?_ k
    intro r hr
    have hentry : e.playerName ∈ r.entries.map (·.playerName) := by
      rw [hg.rows r hr]
      exact hmem
    obtain ⟨e', he', heq⟩ := List.mem_map.mp hentry
    exact List.find?_isSome.mpr ⟨e', he', by simpa using heq⟩
  have hentry := hat hl hname
  have hentry' := hat hl' (h.names.mem_iff.mp hname)
  rw [← h.recordOf_eq hl hl' hn hname, hentry, hk, hk'] at hentry'
  have hlook : entryOf e.playerName round.entries = some e :=
    lookup_of_nodup _ (hl.entries_nodup hn hround) he
  simp only [Option.bind_some, hlook] at hentry'
  exact List.mem_of_find?_eq_some hentry'.symm

theorem Reseated.entries {k : ℕ} {round round' : Phase10Round}
    (hk : game.rounds[k]? = some round) (hk' : game'.rounds[k]? = some round') :
    round.entries.Perm round'.entries := by
  have hn' : game'.playerNames.Nodup := h.names.nodup hn
  have hnodup := (hl.entries_nodup hn (List.mem_of_getElem? hk)).of_map
  have hnodup' := (hl'.entries_nodup hn' (List.mem_of_getElem? hk')).of_map
  rw [List.perm_ext_iff_of_nodup hnodup hnodup']
  intro e
  constructor
  · exact h.mem_entries hl hl' hn hk hk'
  · exact h.symm.mem_entries hl' hl hn' hk' hk

end Reseated

/-- The phase and the score of a line of the standings, with eleven for a completed player. -/
def Phase10Player.line (p : Phase10Player) : Int32 × Int32 := (p.phaseOr 11, p.score)

def LineBefore (x y : Int32 × Int32) : Prop := y.1 < x.1 ∨ (y.1 = x.1 ∧ x.2 ≤ y.2)

theorem LineBefore.antisymm {x y : Int32 × Int32} (h : LineBefore x y) (h' : LineBefore y x) :
    x = y := by
  simp only [LineBefore, Int32.lt_iff_toInt_lt, Int32.le_iff_toInt_le, ← Int32.toInt_inj] at h h'
  apply Prod.ext
  · rw [← Int32.toInt_inj]
    omega
  · rw [← Int32.toInt_inj]
    omega

theorem lineBefore_of_ahead {p q : Phase10Player} (hq : q.phaseOr 10 ≤ 10) (h : p.Ahead q) :
    LineBefore p.line q.line := by
  cases p with
  | completed c =>
    cases q with
    | completed d => exact .inr ⟨rfl, h⟩
    | active b =>
      have hb : b.phase.toInt ≤ 10 := Int32.le_iff_toInt_le.mp hq
      have hten : (10 : ℤ) < (11 : Int32).toInt := by decide
      exact .inl (Int32.lt_iff_toInt_lt.mpr (Int.lt_of_le_of_lt hb hten))
  | active a =>
    cases q with
    | completed d => exact h.elim
    | active b => exact h

theorem Ledger.map_line_eq {game : Phase10Game} (hl : Ledger game) {l l' : List Phase10Player}
    (hp : l.Perm l') (hmem : ∀ p ∈ l, p ∈ game.players) (h : l.Pairwise Phase10Player.Ahead)
    (h' : l'.Pairwise Phase10Player.Ahead) : l.map (·.line) = l'.map (·.line) := by
  have hlines {m : List Phase10Player} (hm : ∀ p ∈ m, p ∈ game.players)
      (hahead : m.Pairwise Phase10Player.Ahead) : (m.map (·.line)).Pairwise LineBefore := by
    rw [List.pairwise_map]
    apply hahead.imp_of_mem
    intro p q hpm hqm hpq
    exact lineBefore_of_ahead (hl.phaseOr_le (hm q hqm)) hpq
  apply List.Perm.eq_of_pairwise _ (hlines hmem h)
    (hlines (fun p hp' => hmem p (hp.mem_iff.mpr hp')) h') (hp.map _)
  intro x y _ _ hxy hyx
  exact hxy.antisymm hyx

/-- Two games in which everybody has the same, wherever they sit. -/
structure SameGame (game game' : Phase10Game) : Prop where
  players : game.players.Perm game'.players
  rounds : List.Forall₂ (fun round round' => round.roundNumber = round'.roundNumber ∧
    round.entries.Perm round'.entries) game.rounds game'.rounds
  currentRound : game.currentRound = game'.currentRound
  activeStandings : game.activeStandings.map (·.line) = game'.activeStandings.map (·.line)
  gameOverStandings : game.gameOverStandings.map (·.line) = game'.gameOverStandings.map (·.line)

/-- The winner of the other state is one of those with the lowest score here. -/
inductive AgreeUpToSeats : Phase10GameState → Phase10GameState → Prop where
  | inProgress {game game' entries entries'} (h : SameGame game game') :
      AgreeUpToSeats (.inProgress game entries) (.inProgress game' entries')
  | complete {game game' winner winner' count} (h : SameGame game game')
      (hmem : winner' ∈ game.completedPlayers) (hscore : winner'.score = winner.score) :
      AgreeUpToSeats (.complete game winner count) (.complete game' winner' count)

theorem Reseated.sameGame {game game' : Phase10Game} (h : Reseated game game') (hl : Ledger game)
    (hl' : Ledger game') (hn : game.playerNames.Nodup) : SameGame game game' := by
  have hplayers := h.players hl hl' hn
  have hlen : game.rounds.length = game'.rounds.length := h.records.length_eq
  have hnumbers : game.rounds.map (·.roundNumber) = game'.rounds.map (·.roundNumber) := by
    rw [hl.numbered, hl'.numbered, hlen]
  have hstandings (cmp : Phase10Player → Phase10Player → Ordering) :
      (sortBy cmp game.players).Perm (sortBy cmp game'.players) :=
    (sortBy_perm cmp _).trans (hplayers.trans (sortBy_perm cmp _).symm)
  refine ⟨hplayers, ?_, ?_, ?_, ?_⟩
  · rw [List.forall₂_iff_get]
    refine ⟨hlen, ?_⟩
    intro k hk hk'
    refine ⟨?_, h.entries hl hl' hn (List.getElem?_eq_getElem hk) (List.getElem?_eq_getElem hk')⟩
    simpa [hk, hk'] using congrArg (·[k]?) hnumbers
  · rw [hl.current, hl'.current, hlen]
  · apply hl.map_line_eq (hstandings _) _ hl.activeStandings_pairwise hl'.activeStandings_pairwise
    intro p hp
    exact (sortBy_perm _ _).mem_iff.mp hp
  · apply hl.map_line_eq (hstandings _) _ (gameOverStandings_pairwise game)
      (gameOverStandings_pairwise game')
    intro p hp
    exact (sortBy_perm _ _).mem_iff.mp hp

theorem lowestScore_perm {players players' : List Phase10Player.Completed}
    (hp : players.Perm players') {winner winner' : Phase10Player.Completed}
    (h : lowestScore players = .ok winner) (h' : lowestScore players' = .ok winner') :
    winner' ∈ players ∧ winner'.score = winner.score := by
  obtain ⟨hmem, hlowest⟩ := lowestScore_spec h
  obtain ⟨hmem', hlowest'⟩ := lowestScore_spec h'
  have hin : winner' ∈ players := hp.mem_iff.mpr hmem'
  have hle := hlowest winner' hin
  have hge := hlowest' winner (hp.mem_iff.mp hmem)
  rw [Int32.le_iff_toInt_le] at hle hge
  refine ⟨hin, ?_⟩
  rw [← Int32.toInt_inj]
  omega

/-- Two reachable states in which players with different names recorded the same in every round
agree up to the order of the seats, whatever was played, edited or loaded on the way. A tie may be
won by another one of those who share the lowest score. -/
theorem seats_exchangeable {s t : Archive} (hs : s.Reachable) (ht : t.Reachable)
    {game game' : Phase10Game} (hg : s.state.game? = some game)
    (hg' : t.state.game? = some game') (hn : game.playerNames.Nodup)
    (h : Reseated game game') : AgreeUpToSeats s.state t.state := by
  have hsound := hs.sound.state
  have hsound' := ht.sound.state
  have hsame := h.sameGame (hsound.ledger hg) (hsound'.ledger hg') hn
  have hcompleted : game.completedPlayers.Perm game'.completedPlayers :=
    hsame.players.filterMap _
  obtain ⟨entries, hsettled⟩ := hsound.settled hg
  obtain ⟨entries', hsettled'⟩ := hsound'.settled hg'
  obtain ⟨state, saved⟩ := s
  obtain ⟨state', saved'⟩ := t
  cases hsettled with
  | inProgress hc =>
    cases hsettled' with
    | inProgress hc' => exact .inProgress hsame
    | complete hc' hw' =>
      rw [hc] at hcompleted
      exact absurd hcompleted.symm.eq_nil hc'
  | complete hc hw =>
    cases hsettled' with
    | inProgress hc' =>
      rw [hc'] at hcompleted
      exact absurd hcompleted.eq_nil hc
    | complete hc' hw' =>
      obtain ⟨hmem, hscore⟩ := lowestScore_perm hcompleted hw hw'
      rw [← hcompleted.length_eq]
      exact .complete hsame hmem hscore

def overWith (winner : Phase10Player.Completed) (names : List String)
    (row : List (String × Cell)) (s : Session) : Bool :=
  match s.state with
  | .setup _ => false
  | .inProgress _ _ => false
  | .complete game winner' _ => winner' = winner ∧ game.playerNames = names ∧
      game.rounds.map (·.named) = List.replicate 10 row

theorem exists_of_overWith {winner : Phase10Player.Completed} {names : List String}
    {row : List (String × Cell)} {s : Session} (hs : s.Reachable)
    (h : overWith winner names row s = true) :
    ∃ (s' : Archive) (game : Phase10Game) (count : ℕ), s'.Reachable ∧
      s'.state = .complete game winner count ∧ game.playerNames = names ∧
      game.rounds.map (·.named) = List.replicate 10 row := by
  obtain ⟨saved, hreach, -⟩ := hs.archive
  unfold overWith at h
  split at h
  next => cases h
  next => cases h
  next game winner' count hstate =>
    obtain ⟨rfl, hnames, hrows⟩ := of_decide_eq_true h
    exact ⟨⟨s.state, saved⟩, game, count, hreach, hstate, hnames, hrows⟩

/-- Ann and Bob complete the tenth phase with the same score, and the one of them who sits first
wins. In the second game a round is corrected. -/
theorem seats_exchangeable_tie : ∃ (s t : Archive) (game game' : Phase10Game) (count count' : ℕ),
    s.Reachable ∧ t.Reachable ∧ s.state = .complete game ⟨"Ann", 10⟩ count ∧
    t.state = .complete game' ⟨"Bob", 10⟩ count' ∧ AgreeUpToSeats s.state t.state := by
  obtain ⟨s, hs, hp⟩ := Session.reachable_of_run
    ([.call (.typeNames ["Ann", "Bob"]), .call .startGame] ++
      (List.replicate 10 (Session.playRound [⟨1, true⟩, ⟨1, true⟩])).flatten)
    (overWith ⟨"Ann", 10⟩ ["Ann", "Bob"] [("Ann", true, 1), ("Bob", true, 1)])
    (by decide +kernel)
  obtain ⟨t, ht, hp'⟩ := Session.reachable_of_run
    ([.call (.typeNames ["Bob", "Ann"]), .call .startGame] ++
      Session.playRound [⟨7, false⟩, ⟨1, true⟩] ++ [.load, .call (.editRound 0 [⟨1, true⟩])] ++
      (List.replicate 9 (Session.playRound [⟨1, true⟩, ⟨1, true⟩])).flatten)
    (overWith ⟨"Bob", 10⟩ ["Bob", "Ann"] [("Bob", true, 1), ("Ann", true, 1)])
    (by decide +kernel)
  obtain ⟨s, game, count, hs, hstate, hnames, hrows⟩ := exists_of_overWith hs hp
  obtain ⟨t, game', count', ht, hstate', hnames', hrows'⟩ := exists_of_overWith ht hp'
  have hrecords : List.Forall₂ List.Perm (game.rounds.map (·.named))
      (game'.rounds.map (·.named)) := by
    rw [hrows, hrows']
    decide
  rw [List.forall₂_map_left_iff, List.forall₂_map_right_iff] at hrecords
  have hreseated : Reseated game game' := by
    refine ⟨?_, hrecords⟩
    rw [hnames, hnames']
    decide
  have hn : game.playerNames.Nodup := by
    rw [hnames]
    decide
  have hg : s.state.game? = some game := by rw [hstate]; rfl
  have hg' : t.state.game? = some game' := by rw [hstate']; rfl
  exact ⟨s, t, game, game', count, count', hs, ht, hstate, hstate',
    seats_exchangeable hs ht hg hg' hn hreseated⟩

end HwoodiwissHelper.Phase10
