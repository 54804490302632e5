import HwoodiwissHelper.Phase10.Recalculation

/-!
# The ledger of a game

`Ledger game` says that the players of a game are what its rounds record: every round has one
entry for every seat, and the first seat of every name stands where the record of that name
puts it. Submitting, editing, saving and loading keep it, so it holds in every reachable
session.
-/

namespace HwoodiwissHelper.Phase10

open Phase10GameService Transition Milestone KeyedList StableOrder

/-- The recorded phases are right for a player who had completed `hits` phases before. -/
def PhasesFrom : ℕ → List Phase10RoundEntry → Prop
  | _, [] => True
  | hits, e :: record =>
    e.phase = phaseAfter hits ∧ PhasesFrom (hits + if e.phaseCompleted then 1 else 0) record

theorem phasesFrom_append {hits : ℕ} {record record' : List Phase10RoundEntry} :
    PhasesFrom hits (record ++ record') ↔ PhasesFrom hits record ∧
      PhasesFrom (hits + record.countP (·.phaseCompleted)) record' := by
  induction record generalizing hits with
  | nil => simp [PhasesFrom]
  | cons e record ih =>
    rw [List.cons_append, PhasesFrom, PhasesFrom, ih, and_assoc, List.countP_cons]
    have hadd : hits + (if e.phaseCompleted then 1 else 0) + record.countP (·.phaseCompleted) =
        hits + (record.countP (·.phaseCompleted) + if e.phaseCompleted then 1 else 0) := by omega
    rw [hadd]

theorem PhasesFrom.phase {hits k : ℕ} {record : List Phase10RoundEntry}
    (h : PhasesFrom hits record) {e : Phase10RoundEntry} (he : record[k]? = some e) :
    e.phase = phaseAfter (hits + (record.take k).countP (·.phaseCompleted)) := by
  obtain ⟨hk, rfl⟩ := List.getElem?_eq_some_iff.mp he
  rw [← List.take_append_drop k record, phasesFrom_append, List.drop_eq_getElem_cons hk] at h
  exact h.2.1

/-- Rewriting repairs the phases of a record in which one completed phase too many or too few
was counted so far. An entry that is not rewritten has at least nine completed phases before it
on either count, so its old phase ten is right as well. -/
theorem PhasesFrom.rewriteRecord_of_le {t : Tally} {hits old : ℕ} {record : List Phase10RoundEntry}
    (ht : t.Counts 10 hits) (hle : hits ≤ old + 1) (h : PhasesFrom old record) :
    PhasesFrom hits (rewriteRecord t record) := by
  induction record generalizing t hits old with
  | nil => trivial
  | cons e record ih =>
    have hcell : (t.rewrite e).phaseCompleted = e.phaseCompleted :=
      congrArg Prod.fst (t.rewrite_cell e)
    refine ⟨?_, ?_⟩
    · cases t with
      | running k total =>
        obtain rfl : k = hits := ht
        rfl
      | done total =>
        have h10 : 10 ≤ hits := ht
        rw [phaseAfter_of_le (by omega : 9 ≤ hits)]
        exact h.1.trans (phaseAfter_of_le (by omega))
    · rw [hcell]
      exact ih (ht.step _ 10 _ e) (by omega) h.2

/-- Two records that differ in the cell of one entry at most. -/
inductive OneEdit : List Phase10RoundEntry → List Phase10RoundEntry → Prop where
  | same (record) : OneEdit record record
  | here {e e' : Phase10RoundEntry} (h : e'.phase = e.phase) (record) :
      OneEdit (e :: record) (e' :: record)
  | there (e) {record record'} (h : OneEdit record record') : OneEdit (e :: record) (e :: record')

/-- A recalculation after an edit leaves the recorded phases right. -/
theorem OneEdit.phasesFrom_rewriteRecord {t : Tally} {hits : ℕ}
    {record record' : List Phase10RoundEntry} (hedit : OneEdit record record')
    (ht : t.Counts 10 hits) (h : PhasesFrom hits record) :
    PhasesFrom hits (rewriteRecord t record') := by
  induction hedit generalizing t hits with
  | same record => exact h.rewriteRecord_of_le ht (by omega)
  | @here e e' hphase record =>
    have hcell : (t.rewrite e').phaseCompleted = e'.phaseCompleted :=
      congrArg Prod.fst (t.rewrite_cell e')
    refine ⟨?_, ?_⟩
    · cases t with
      | running k total =>
        obtain rfl : k = hits := ht
        rfl
      | done total => exact hphase.trans h.1
    · rw [hcell]
      -- from here on the two counts differ by one at most
      refine PhasesFrom.rewriteRecord_of_le (ht.step _ 10 _ e') ?_ h.2
      split <;> split <;> omega
  | there e hedit ih =>
    have hcell : (t.rewrite e).phaseCompleted = e.phaseCompleted :=
      congrArg Prod.fst (t.rewrite_cell e)
    refine ⟨?_, ?_⟩
    · exact (PhasesFrom.rewriteRecord_of_le ht (by omega) h).1
    · rw [hcell]
      exact ih (ht.step _ 10 _ e) h.2

theorem oneEdit_recordOf_set {rounds : List Phase10Round} {k : ℕ} {round : Phase10Round}
    (hround : rounds[k]? = some round) (name : String) (updates : List RoundEntryModel) :
    OneEdit (recordOf name rounds) (recordOf name (rounds.set k
      ⟨round.roundNumber, editedEntries round.entries updates⟩)) := by
  induction rounds generalizing k with
  | nil => simp at hround
  | cons first rounds ih =>
    cases k with
    | zero =>
      obtain rfl : first = round := by simpa using hround
      obtain ⟨f, hf, heq⟩ := entryOf_editedEntries name first.entries updates
      rw [List.set_cons_zero, recordOf_cons, recordOf_cons, heq]
      cases entryOf name first.entries with
      | none => exact .same _
      | some e => exact .here (hf e) _
    | succ k =>
      rw [List.set_cons_succ, recordOf_cons, recordOf_cons]
      have htail := ih (k := k) (by simpa using hround)
      cases entryOf name first.entries with
      | none => exact htail
      | some e => exact .there e htail

structure Ledger (game : Phase10Game) : Prop where
  seated : 2 ≤ game.players.length
  rows : ∀ round ∈ game.rounds, round.entries.map (·.playerName) = game.playerNames
  numbered : game.rounds.map (·.roundNumber) =
    (List.range game.rounds.length).map (fun k => Int32.ofNat (k + 1))
  current : game.currentRound = Int32.ofNat (game.rounds.length + 1)
  counted : ∀ p ∈ game.players, ∃ t : Tally, t.Open 10 ∧ p = playerOf p.playerName t
  standings : ∀ name ∈ game.playerNames,
    lookup Phase10Player.playerName name game.players =
      some (standing name (recordOf name game.rounds))
  phases : ∀ name ∈ game.playerNames, PhasesFrom 0 (recordOf name game.rounds)

theorem ledger_newGameOf {playerNames : List String} (h : canStart playerNames) :
    Ledger (newGameOf playerNames) where
  seated := by simp_all [canStart, newGameOf]
  rows := by simp [newGameOf]
  numbered := rfl
  current := rfl
  counted := by
    intro p hp
    obtain ⟨n, -, rfl⟩ := List.mem_map.mp hp
    exact ⟨noTally, Progress.open_start 10 (by omega), rfl⟩
  standings := by
    intro name hname
    have hplayers : (newGameOf playerNames).players =
        (playerNames.map trim).map (fun n => standing n []) := by
      rw [List.map_map]
      rfl
    have hnames : (newGameOf playerNames).playerNames = playerNames.map trim := by
      simp [Phase10Game.playerNames, hplayers, Function.comp_def]
    rw [hplayers, lookup_map_keys _ (fun n => standing_playerName n []), ← hnames, if_pos hname]
    rfl
  phases := fun _ _ => trivial

abbrev Seat := Phase10Player.Active × RoundEntryModel

namespace Seat

def name (seat : Seat) : String := seat.1.playerName

def player (seat : Seat) : Phase10Player := .active seat.1

def recorded (seat : Seat) : Phase10RoundEntry :=
  recordedEntry seat.1.playerName seat.1.phase seat.2

def submitted (seat : Seat) : Phase10Player := submittedPlayer seat.1 seat.2

@[simp] theorem player_playerName (seat : Seat) : seat.player.playerName = seat.name := rfl

@[simp] theorem recorded_playerName (seat : Seat) : seat.recorded.playerName = seat.name := rfl

@[simp] theorem submitted_playerName (seat : Seat) : seat.submitted.playerName = seat.name :=
  submittedPlayer_playerName _ _

end Seat

def submittedGame (game : Phase10Game) (seats : List Seat) : Phase10Game where
  players := seats.map Seat.submitted
  rounds := game.rounds ++ [⟨game.currentRound, seats.map Seat.recorded⟩]
  currentRound := game.currentRound + 1

@[simp] theorem submittedGame_playerNames (game : Phase10Game) (seats : List Seat) :
    (submittedGame game seats).playerNames = seats.map Seat.name := by
  simp [Phase10Game.playerNames, submittedGame]

theorem entryOf_recorded (name : String) (seats : List Seat) :
    entryOf name (seats.map Seat.recorded) = (lookup Seat.name name seats).map Seat.recorded :=
  lookup_map _ _ _ Seat.recorded_playerName name seats

theorem playerNames_eq_seats {game : Phase10Game} {seats : List Seat}
    (hseats : game.players = seats.map Seat.player) : game.playerNames = seats.map Seat.name := by
  rw [Phase10Game.playerNames, hseats, List.map_map]
  rfl

theorem seat_of_name {game : Phase10Game} (h : Ledger game) {seats : List Seat}
    (hseats : game.players = seats.map Seat.player) {name : String}
    (hname : name ∈ game.playerNames) : ∃ hits total pending,
    hits < 10 ∧ tally (recordOf name game.rounds) = .running hits total ∧
    lookup Seat.name name seats = some (⟨name, phaseAfter hits, total⟩, pending) := by
  have hst := h.standings name hname
  rw [hseats, lookup_map Seat.name _ _ Seat.player_playerName, Option.map_eq_some_iff] at hst
  obtain ⟨⟨active, pending⟩, hlook, hactive⟩ := hst
  have hopen := tally_open (recordOf name game.rounds)
  cases ht : tally (recordOf name game.rounds) with
  | done total => simp [standing, ht, playerOf, Seat.player] at hactive
  | running hits total =>
    rw [ht] at hopen
    obtain rfl : active = ⟨name, phaseAfter hits, total⟩ := by
      simpa [standing, ht, playerOf, Seat.player] using hactive
    exact ⟨hits, total, pending, hopen, rfl, hlook⟩

theorem recordOf_submitted {game : Phase10Game} {seats : List Seat} {name : String} {seat : Seat}
    (hlook : lookup Seat.name name seats = some seat) :
    recordOf name (submittedGame game seats).rounds =
      recordOf name game.rounds ++ [seat.recorded] := by
  rw [submittedGame, recordOf_append, recordOf_cons, entryOf_recorded, hlook]
  rfl

theorem Ledger.submitted {game : Phase10Game} (h : Ledger game) {seats : List Seat}
    (hseats : game.players = seats.map Seat.player) :
    Ledger (submittedGame game seats) := by
  have hnames := playerNames_eq_seats hseats
  have hnames' : (submittedGame game seats).playerNames = game.playerNames := by
    rw [hnames, submittedGame_playerNames]
  refine ⟨?_, ?_, ?_, ?_, ?_, ?_, ?_⟩
  · simpa [submittedGame, hseats] using h.seated
  · intro round hround
    rw [hnames']
    rcases List.mem_append.mp hround with hround | hround
    · exact h.rows round hround
    · obtain rfl := List.mem_singleton.mp hround
      rw [hnames, List.map_map]
      rfl
  · simp [submittedGame, h.numbered, h.current, List.range_succ]
  · simp only [submittedGame, h.current, List.length_append, List.length_singleton]
    exact (Int32.ofNat_add (game.rounds.length + 1) 1).symm
  · intro p hp
    obtain ⟨seat, hmem, rfl⟩ := List.mem_map.mp hp
    have hplayer : seat.player ∈ game.players := by
      rw [hseats]
      exact List.mem_map_of_mem hmem
    obtain ⟨t, hopen, ht⟩ := h.counted seat.player hplayer
    cases t with
    | done total => simp [Seat.player, playerOf] at ht
    | running hits total =>
      obtain ⟨active, pending⟩ := seat
      obtain ⟨name, phase, score⟩ := active
      simp only [Seat.player, playerOf, Phase10Player.active.injEq,
        Phase10Player.Active.mk.injEq] at ht
      obtain ⟨-, rfl, rfl⟩ := ht
      have hlt : hits < 10 := hopen
      have hopen' := Progress.Open.step (·.phaseCompleted) 10 (·.pointsAdded) hopen
        (recordedEntry name (phaseAfter hits) pending)
      refine ⟨_, hopen', ?_⟩
      rw [Seat.submitted_playerName]
      exact submittedPlayer_eq name score pending hlt
  · intro name hname
    rw [hnames'] at hname
    obtain ⟨hits, total, pending, hlt, ht, hlook⟩ := seat_of_name h hseats hname
    rw [recordOf_submitted hlook, standing, tally_snoc, ht]
    rw [submittedGame, lookup_map Seat.name _ _ Seat.submitted_playerName, hlook]
    exact congrArg some (submittedPlayer_eq name total pending hlt)
  · intro name hname
    rw [hnames'] at hname
    obtain ⟨hits, total, pending, -, ht, hlook⟩ := seat_of_name h hseats hname
    have hcount := tally_counts (recordOf name game.rounds)
    rw [ht] at hcount
    obtain rfl : hits = (recordOf name game.rounds).countP (·.phaseCompleted) := hcount
    rw [recordOf_submitted hlook, phasesFrom_append]
    refine ⟨h.phases name hname, ?_, trivial⟩
    rw [Nat.zero_add]
    rfl

/-- A recalculation establishes the ledger on a game whose rounds fit its seats, as long as it
leaves the recorded phases right. -/
theorem ledger_recalculated {game : Phase10Game} (hseated : 2 ≤ game.players.length)
    (hrows : ∀ round ∈ game.rounds, round.entries.map (·.playerName) = game.playerNames)
    (hnumbered : game.rounds.map (·.roundNumber) =
      (List.range game.rounds.length).map (fun k => Int32.ofNat (k + 1)))
    (hcurrent : game.currentRound = Int32.ofNat (game.rounds.length + 1))
    (hphases : ∀ name ∈ game.playerNames,
      PhasesFrom 0 (rewriteRecord noTally (recordOf name game.rounds))) :
    Ledger (recalculated game) := by
  have hmap {β : Type} (g : Phase10Round → β) (hg : ∀ r : Phase10Round, ∀ tallyOf names,
      g { r with entries := rewriteEntries tallyOf names r.entries } = g r) :
      (recalculated game).rounds.map g = game.rounds.map g := map_rewriteRounds hg _ _ _
  have hlen : (recalculated game).rounds.length = game.rounds.length := by
    simpa using congrArg List.length (hmap (fun _ => ()) (fun _ _ _ => rfl))
  have hrecord {name : String} (hname : name ∈ game.playerNames) :
      recordOf name (recalculated game).rounds =
        rewriteRecord noTally (recordOf name game.rounds) :=
    recordOf_rewriteRounds hname _ _
  refine ⟨?_, ?_, ?_, ?_, ?_, ?_, ?_⟩
  · simpa [recalculated, Phase10Game.playerNames] using hseated
  · intro r hr
    have hmem : r.entries.map (·.playerName) ∈
        (recalculated game).rounds.map (fun r => r.entries.map (·.playerName)) :=
      List.mem_map_of_mem hr
    rw [hmap (fun r => r.entries.map (·.playerName))
      (fun r tallyOf names => map_rewriteEntries (fun t e => t.rewrite_playerName e) _ _ _)] at hmem
    obtain ⟨r', hr', heq⟩ := List.mem_map.mp hmem
    rw [recalculated_playerNames, ← heq]
    exact hrows r' hr'
  · rw [hmap (·.roundNumber) (fun _ _ _ => rfl), hlen, hnumbered]
  · rw [hlen]
    exact hcurrent
  · intro p hp
    obtain ⟨name, -, rfl⟩ := List.mem_map.mp hp
    refine ⟨tally (recordOf name game.rounds), tally_open _, ?_⟩
    rw [standing_playerName]
    rfl
  · intro name hname
    rw [recalculated_playerNames] at hname
    rw [hrecord hname, standing_rewriteRecord, recalculated,
      lookup_map_keys _ (fun n => standing_playerName n _), if_pos hname]
  · intro name hname
    rw [recalculated_playerNames] at hname
    rw [hrecord hname]
    exact hphases name hname

theorem noTally_counts : noTally.Counts 10 0 := rfl

theorem Ledger.recalculated {game : Phase10Game} (h : Ledger game) :
    Ledger (recalculated game) := by
  apply ledger_recalculated h.seated h.rows h.numbered h.current
  intro name hname
  exact (h.phases name hname).rewriteRecord_of_le noTally_counts (by omega)

theorem Ledger.edited {game : Phase10Game} (h : Ledger game) {k : ℕ} {round : Phase10Round}
    (hround : game.rounds[k]? = some round) (updates : List RoundEntryModel) :
    Ledger (Phase10.recalculated (withEdit game k round updates)) := by
  have hlen : (withEdit game k round updates).rounds.length = game.rounds.length := by
    simp [withEdit]
  refine ledger_recalculated h.seated ?_ ?_ ?_ ?_
  · intro r hr
    rcases List.mem_or_eq_of_mem_set hr with hr | rfl
    · exact h.rows r hr
    · rw [map_playerName_editedEntries]
      exact h.rows round (List.mem_of_getElem? hround)
  · rw [hlen, ← h.numbered]
    exact map_set_of_eq _ hround rfl
  · rw [hlen]
    exact h.current
  · intro name hname
    have hedit := oneEdit_recordOf_set hround name updates
    exact hedit.phasesFrom_rewriteRecord noTally_counts (h.phases name hname)

end HwoodiwissHelper.Phase10
