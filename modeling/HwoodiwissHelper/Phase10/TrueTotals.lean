import HwoodiwissHelper.Phase10.ScoreSheet

/-!
# Scores and true totals

Points are added to scores in `Int32` without a check. Beside a session run the totals somebody
would keep on paper, in integers without a bound: a submit adds the points of the round, an edit
counts up the edited sheet. Scores and totals are the same numbers as long as the totals fit.
-/

namespace HwoodiwissHelper.Phase10

open Phase10GameService Transition Milestone KeyedList

abbrev Addition := Int32 × Int32

/-- The sum is not beyond either end of `Int32`. -/
def Addition.InRange (a : Addition) : Prop :=
  Int32.minValue.toInt ≤ a.1.toInt + a.2.toInt ∧ a.1.toInt + a.2.toInt ≤ Int32.maxValue.toInt

def submitAdditions : List Phase10Player → List RoundEntryModel → List Addition
  | [], _ => []
  | .completed _ :: players, entries => submitAdditions players entries.tail
  | .active _ :: _, [] => []
  | .active active :: players, entry :: entries =>
    (active.score, max 0 entry.points) :: submitAdditions players entries

/-- The addition of the loop body of `RecalculateGameState`. -/
def playerAdditions (entries : List Phase10RoundEntry) : Phase10Player → List Addition
  | .completed _ => []
  | .active active =>
    (entryOf active.playerName entries).toList.map (fun e => (active.score, e.pointsAdded))

def roundAdditions : List Phase10Player → List Phase10RoundEntry → List Addition
  | [], _ => []
  | player :: players, entries =>
    playerAdditions entries player ++
      match recalculatePlayer entries player with
      | .ok (_, entries) => roundAdditions players entries
      | .error _ => []

def recalculationAdditions : List Phase10Player → List Phase10Round → List Addition
  | _, [] => []
  | players, round :: rounds =>
    roundAdditions players round.entries ++
      match recalculatePlayers players round.entries with
      | .ok (players, _) => recalculationAdditions players rounds
      | .error _ => []

/-- The additions of an operation: a submit of a game in progress and an edit of a round of the
history perform some. -/
def additions (state : Phase10GameState) : Operation → List Addition
  | .submitRound =>
    match state with
    | .inProgress game entries => submitAdditions game.players entries
    | _ => []
  | .editRound roundIndex updates =>
    match state.game? with
    | none => []
    | some game =>
      if roundIndex < 0 ∨ game.rounds.length ≤ roundIndex then []
      else
        match game.rounds[roundIndex.toNat]? with
        | none => []
        | some round => recalculationAdditions
            (game.playerNames.map (fun n => .active ⟨n, 1, 0⟩))
            (withEdit game roundIndex.toNat round updates).rounds
  | _ => []

/-- The points of a record up to and including its tenth completed phase. -/
def trueTotal (record : List Cell) : ℤ :=
  ((through (fun cell : Cell => cell.1) 10 record).map (fun cell => cell.2.toInt)).sum

/-- The cells of a name: those of its first seat. -/
def ScoreSheet.record (sheet : ScoreSheet) (name : String) : List Cell :=
  sheet.rows.filterMap (·[sheet.playerNames.idxOf name]?)

def nextTotals (state : Phase10GameState) (operation : Operation) (totals : List ℤ) : List ℤ :=
  match operation, state with
  | .startGame, .setup playerNames =>
    if canStart playerNames then playerNames.map (fun _ => 0) else totals
  | .submitRound, .inProgress _ entries =>
    List.zipWith (fun total entry => total + max 0 entry.points.toInt) totals entries
  | .editRound roundIndex updates, state =>
    match state.sheet? with
    | none => totals
    | some sheet =>
      if 0 ≤ roundIndex ∧ roundIndex < sheet.rows.length then
        sheet.playerNames.map (fun n => trueTotal ((sheet.edit roundIndex updates).record n))
      else totals
  | .abandonGame, _ => []
  | .newGame, _ => []
  | _, _ => totals

/-- A session with the totals kept on paper, one for each player. -/
structure TotalledSession where
  session : Session
  totals : List ℤ := []
  deriving DecidableEq, Repr

def Phase10GameState.scores (state : Phase10GameState) : List Int32 :=
  match state.game? with
  | none => []
  | some game => game.players.map (·.score)

namespace TotalledSession

def step (s : TotalledSession) : Session.Event → Except Fault TotalledSession
  | .load => do return { s with session := ← s.session.step .load }
  | .call operation => do
    return ⟨← s.session.step (.call operation),
      nextTotals s.session.state operation s.totals⟩

end TotalledSession

theorem toInt_max_zero (x : Int32) : (max 0 x).toInt = max 0 x.toInt := by
  change (if (0 : Int32) ≤ x then x else 0).toInt = _
  by_cases h : (0 : Int32) ≤ x
  · have hx : 0 ≤ x.toInt := Int32.le_iff_toInt_le.mp h
    rw [if_pos h, max_eq_right hx]
  · have hx : ¬ 0 ≤ x.toInt := fun hx => h (Int32.le_iff_toInt_le.mpr hx)
    rw [if_neg h, max_eq_left (by omega)]
    rfl

theorem Addition.inRange_iff {a : Addition} :
    a.InRange ↔ (a.1 + a.2).toInt = a.1.toInt + a.2.toInt := by
  have hmin : Int32.minValue.toInt = -2147483648 := by decide
  have hmax : Int32.maxValue.toInt = 2147483647 := by decide
  rw [Addition.InRange, hmin, hmax]
  constructor
  · rintro ⟨hlow, hhigh⟩
    rw [Int32.toInt_add]
    exact Int.bmod_eq_of_le (by omega) (by omega)
  · intro h
    have hlow := Int32.le_toInt (a.1 + a.2)
    have hhigh := Int32.toInt_lt (a.1 + a.2)
    omega

/-- From zero on only the upper end can be missed. -/
theorem toInt_add_iff (x y : Int32) (hx : 0 ≤ x.toInt) (hy : 0 ≤ y.toInt) :
    (x + y).toInt = x.toInt + y.toInt ↔ x.toInt + y.toInt ≤ Int32.maxValue.toInt := by
  rw [← Addition.inRange_iff (a := (x, y)), Addition.InRange]
  have hmin : Int32.minValue.toInt ≤ 0 := by decide
  constructor
  · exact fun h => h.2
  · intro h
    exact ⟨by simp only; omega, h⟩

theorem toInt_pointsAdded_nonneg (e : Phase10RoundEntry) : 0 ≤ e.pointsAdded.toInt :=
  Int32.le_iff_toInt_le.mp e.pointsAdded_nonneg

abbrev Tally.additions (t : Tally) (record : List Phase10RoundEntry) : List Addition :=
  Progress.additions (·.phaseCompleted) 10 (·.pointsAdded) t record

theorem playerAdditions_eq (name : String) (t : Tally) (entries : List Phase10RoundEntry) :
    playerAdditions entries (playerOf name t) = t.additions (entryOf name entries).toList := by
  cases t with
  | done total => cases entryOf name entries <;> rfl
  | running hits total =>
    change (entryOf name entries).toList.map _ = _
    cases entryOf name entries <;> rfl

theorem roundAdditions_eq (tallyOf : String → Tally) (hopen : ∀ n, (tallyOf n).Open 10)
    (names : List String) (entries : List Phase10RoundEntry) (a : Addition) :
    a ∈ roundAdditions (names.map (fun n => playerOf n (tallyOf n))) entries ↔
      ∃ n ∈ names, a ∈ (tallyOf n).additions (entryOf n entries).toList := by
  induction names generalizing entries with
  | nil => simp [roundAdditions]
  | cons name names ih =>
    have hsame (n : String) : a ∈ (tallyOf n).additions
        (entryOf n (rewriteEntry (tallyOf name) name entries)).toList ↔
          a ∈ (tallyOf n).additions (entryOf n entries).toList := by
      rw [entryOf_rewriteEntry]
      split
      · cases tallyOf n <;> cases entryOf n entries <;> cases tallyOf name <;> rfl
      · rfl
    simp only [List.map_cons, roundAdditions, recalculatePlayer_eq _ _ (hopen name),
      playerAdditions_eq, List.mem_append, ih, hsame, List.exists_mem_cons_iff]

theorem additions_cons (t : Tally) (e : Option Phase10RoundEntry)
    (record : List Phase10RoundEntry) :
    t.additions (e.toList ++ record) = t.additions e.toList ++ (t.hear e).additions record := by
  cases e with
  | none => cases t <;> rfl
  | some e =>
    cases t with
    | running hits total => rfl
    | done total => cases record <;> rfl

/-- The loops of a recalculation perform the additions of the record of every name. -/
theorem recalculationAdditions_eq (names : List String) (tallyOf : String → Tally)
    (hopen : ∀ n, (tallyOf n).Open 10) (rounds : List Phase10Round) (a : Addition) :
    a ∈ recalculationAdditions (names.map (fun n => playerOf n (tallyOf n))) rounds ↔
      ∃ n ∈ names, a ∈ (tallyOf n).additions (recordOf n rounds) := by
  induction rounds generalizing tallyOf with
  | nil => simp [recalculationAdditions, recordOf, Progress.additions]
  | cons round rounds ih =>
    have hopen' (n : String) : ((tallyOf n).hear (entryOf n round.entries)).Open 10 :=
      Tally.hear_open (hopen n) _
    simp only [recalculationAdditions, recalculatePlayers_eq tallyOf hopen, List.mem_append,
      roundAdditions_eq tallyOf hopen, ih _ hopen', recordOf_cons, additions_cons]
    constructor
    · rintro (⟨n, hn, ha⟩ | ⟨n, hn, ha⟩)
      · exact ⟨n, hn, .inl ha⟩
      · exact ⟨n, hn, .inr ha⟩
    · rintro ⟨n, hn, ha | ha⟩
      · exact .inl ⟨n, hn, ha⟩
      · exact .inr ⟨n, hn, ha⟩

@[simp] theorem playerOf_score (name : String) (t : Tally) :
    (playerOf name t).score = t.total := by cases t <;> rfl

theorem trueTotal_map_cell (record : List Phase10RoundEntry) :
    trueTotal (record.map (·.cell)) =
      (progress (·.phaseCompleted) 10 (·.pointsAdded.toInt) record).total := by
  rw [trueTotal, ← total_progress (fun cell : Cell => cell.1) 10 (fun cell => cell.2.toInt)
    (by omega), progress_map]
  rfl

theorem trueTotal_nonneg (record : List Phase10RoundEntry) :
    0 ≤ trueTotal (record.map (·.cell)) := by
  rw [trueTotal_map_cell]
  exact Progress.total_le_foldl _ 10 toInt_pointsAdded_nonneg (.running 0 0) record

theorem additions_inRange_iff (record : List Phase10RoundEntry) :
    (∀ a ∈ noTally.additions record, a.InRange) ↔
      trueTotal (record.map (·.cell)) ≤ Int32.maxValue.toInt := by
  simp only [Addition.inRange_iff, trueTotal_map_cell]
  exact Progress.additions_exact_iff _ 10 _ Int32.toInt_le toInt_add_iff toInt_pointsAdded_nonneg
    (p := noTally) (Int.le_refl 0) record

theorem score_standing {name : String} {record : List Phase10RoundEntry}
    (h : ∀ a ∈ noTally.additions record, a.InRange) :
    (standing name record).score.toInt = trueTotal (record.map (·.cell)) := by
  have hmap := Progress.map_foldl (f := Int32.toInt) (·.phaseCompleted) 10 (·.pointsAdded)
    (p := noTally) (l := record) (fun a ha => Addition.inRange_iff.mp (h a ha))
  have htotal := congrArg Progress.total hmap
  rw [Progress.total_map] at htotal
  rw [standing, playerOf_score, trueTotal_map_cell]
  exact htotal

theorem map_cell_rewriteRecord (t : Tally) (record : List Phase10RoundEntry) :
    (rewriteRecord t record).map (·.cell) = record.map (·.cell) := by
  induction record generalizing t with
  | nil => rfl
  | cons e record ih => rw [rewriteRecord, List.map_cons, List.map_cons, ih, Tally.rewrite_cell]

theorem firstSeat_idxOf {game : Phase10Game} {name : String} (hname : name ∈ game.playerNames) :
    ∃ p, game.FirstSeat (game.playerNames.idxOf name) p ∧ p.playerName = name := by
  have hnames (j : ℕ) : game.playerNames[j]? = (game.players[j]?).map (·.playerName) :=
    List.getElem?_map
  have hat := List.getElem?_idxOf hname
  rw [hnames, Option.map_eq_some_iff] at hat
  obtain ⟨p, hp, rfl⟩ := hat
  refine ⟨p, ⟨hp, ?_⟩, rfl⟩
  intro j hj q hq hsame
  have hnot := List.not_of_lt_findIdx hj
  have hj' : game.playerNames[j]? = some p.playerName := by rw [hnames, hq, ← hsame]; rfl
  obtain ⟨_, hname'⟩ := List.getElem?_eq_some_iff.mp hj'
  simp [hname'] at hnot

theorem Ledger.record_sheet {game : Phase10Game} (h : Ledger game) {name : String}
    (hname : name ∈ game.playerNames) :
    game.sheet.record name = (recordOf name game.rounds).map (·.cell) := by
  obtain ⟨p, hp, rfl⟩ := firstSeat_idxOf hname
  rw [ScoreSheet.record, ← h.column_firstSeat hp, ← column_sheet]
  rfl

theorem Ledger.record_edit {game : Phase10Game} (h : Ledger game) {k : ℕ} {round : Phase10Round}
    (hround : game.rounds[k]? = some round) (updates : List RoundEntryModel) {name : String}
    (hname : name ∈ game.playerNames) :
    (game.sheet.edit k updates).record name =
      (recordOf name (withEdit game k round updates).rounds).map (·.cell) := by
  have hledger := h.edited hround updates
  have hmem : name ∈ (Phase10.recalculated (withEdit game k round updates)).playerNames := by
    rwa [recalculated_playerNames]
  rw [← sheet_withEdit hround, ← sheet_recalculated, hledger.record_sheet hmem]
  have hrecord := recordOf_rewriteRounds hname (fun _ => noTally)
    (withEdit game k round updates).rounds
  exact (congrArg (List.map (·.cell)) hrecord).trans (map_cell_rewriteRecord _ _)

/-- Totals that are the scores of a state. -/
structure Kept (state : Phase10GameState) (totals : List ℤ) : Prop where
  scores : state.scores.map Int32.toInt = totals
  nonneg : ∀ total ∈ totals, 0 ≤ total

theorem Kept.le_max {state : Phase10GameState} {totals : List ℤ} (h : Kept state totals) {total : ℤ}
    (ht : total ∈ totals) : total ≤ Int32.maxValue.toInt := by
  rw [← h.scores] at ht
  obtain ⟨score, -, rfl⟩ := List.mem_map.mp ht
  exact Int32.toInt_le score

theorem scores_of_game? {state : Phase10GameState} {game : Phase10Game}
    (hg : state.game? = some game) : state.scores = game.players.map (·.score) := by
  rw [Phase10GameState.scores, hg]

/-- What an operation does to the totals: they stay non-negative, they fit exactly when all
additions are in range, and then they are the next scores. -/
structure Advances (state : Phase10GameState) (totals : List ℤ) (operation : Operation)
    (next : Phase10GameState) : Prop where
  nonneg : ∀ total ∈ nextTotals state operation totals, 0 ≤ total
  fits_iff : (∀ a ∈ additions state operation, a.InRange) ↔
    ∀ total ∈ nextTotals state operation totals, total ≤ Int32.maxValue.toInt
  exact : (∀ a ∈ additions state operation, a.InRange) →
    next.scores.map Int32.toInt = nextTotals state operation totals
  submit_le : operation = .submitRound →
    List.Forall₂ (· ≤ ·) totals (nextTotals state operation totals)

theorem Kept.advances {state next : Phase10GameState} {totals : List ℤ} {operation : Operation}
    (h : Kept next (nextTotals state operation totals)) (ha : additions state operation = [])
    (hsubmit : operation = .submitRound → nextTotals state operation totals = totals) :
    Advances state totals operation next where
  nonneg := h.nonneg
  fits_iff := by
    rw [ha]
    exact ⟨fun _ _ hmem => h.le_max hmem, fun _ _ hmem => by cases hmem⟩
  exact _ := h.scores
  submit_le hop := by
    rw [hsubmit hop]
    exact List.forall₂_same.mpr (fun _ _ => Int.le_refl _)

section Submit

variable (seats : List Seat)

theorem submitAdditions_seats :
    submitAdditions (seats.map Seat.player) (seats.map (·.2)) =
      seats.map (fun seat => (seat.1.score, max 0 seat.2.points)) := by
  induction seats with
  | nil => rfl
  | cons seat seats ih =>
    simp only [List.map_cons, Seat.player, submitAdditions]
    exact congrArg _ ih

theorem submitted_score (seat : Seat) :
    seat.submitted.score = seat.1.score + max 0 seat.2.points := by
  rw [Seat.submitted, submittedPlayer]
  split <;> rfl

theorem zipWith_totals :
    List.zipWith (fun total (entry : RoundEntryModel) => total + max 0 entry.points.toInt)
        (seats.map (fun seat => seat.1.score.toInt)) (seats.map (·.2)) =
      seats.map (fun seat => seat.1.score.toInt + (max 0 seat.2.points).toInt) := by
  rw [List.zipWith_map, List.zipWith_self]
  simp only [toInt_max_zero]

end Submit

theorem advances_submitRound {game : Phase10Game} {entries : List RoundEntryModel}
    (h : Phase10GameState.Sound (.inProgress game entries)) {totals : List ℤ}
    (hk : Kept (.inProgress game entries) totals) {next : Phase10GameState × StoreCall}
    (he : submitRound (.inProgress game entries) = .ok next) :
    Advances (.inProgress game entries) totals .submitRound next.1 := by
  obtain ⟨seats, state, hseats, hentries, hsubmit, hsettled, -⟩ := submitRound_spec h
  cases hsubmit.symm.trans he
  have htotals : totals = seats.map (fun seat => seat.1.score.toInt) := by
    rw [← hk.scores, scores_of_game? rfl, hseats, List.map_map, List.map_map]
    rfl
  have hnext : nextTotals (.inProgress game entries) .submitRound totals =
      seats.map (fun seat => seat.1.score.toInt + (max 0 seat.2.points).toInt) := by
    rw [nextTotals, htotals, hentries, zipWith_totals]
  have hadditions : additions (.inProgress game entries) .submitRound =
      seats.map (fun seat => (seat.1.score, max 0 seat.2.points)) := by
    rw [additions, hseats, hentries, submitAdditions_seats]
  have hpoints (seat : Seat) : 0 ≤ (max 0 seat.2.points).toInt :=
    Int32.le_iff_toInt_le.mp (zero_le_max _)
  have hscore {seat : Seat} (hs : seat ∈ seats) : 0 ≤ seat.1.score.toInt := by
    apply hk.nonneg
    rw [htotals]
    exact List.mem_map_of_mem hs
  refine ⟨?_, ?_, ?_, fun _ => ?_⟩
  · rw [hnext]
    intro total htotal
    obtain ⟨seat, hs, rfl⟩ := List.mem_map.mp htotal
    have h₁ := hscore hs
    have h₂ := hpoints seat
    omega
  · rw [hnext, hadditions, List.forall_mem_map, List.forall_mem_map]
    apply forall₂_congr
    intro seat hs
    rw [Addition.inRange_iff, toInt_add_iff _ _ (hscore hs) (hpoints seat)]
  · intro hrange
    rw [hadditions] at hrange
    rw [hnext, scores_of_game? hsettled.game?, submittedGame, List.map_map, List.map_map]
    apply List.map_congr_left
    intro seat hs
    have hexact : Addition.InRange (seat.1.score, max 0 seat.2.points) :=
      hrange _ (List.mem_map.mpr ⟨seat, hs, rfl⟩)
    rw [Addition.inRange_iff] at hexact
    rw [Function.comp_apply, Function.comp_apply, submitted_score]
    exact hexact
  · rw [hnext, htotals, List.forall₂_map_left_iff, List.forall₂_map_right_iff]
    apply List.forall₂_same.mpr
    intro seat _
    have h₂ := hpoints seat
    omega

theorem advances_editRound_outside {state : Phase10GameState} {totals : List ℤ}
    (hk : Kept state totals) {roundIndex : ℤ}
    (hout : ∀ game, state.game? = some game → roundIndex < 0 ∨ game.rounds.length ≤ roundIndex)
    (updates : List RoundEntryModel) :
    Advances state totals (.editRound roundIndex updates) state := by
  have htotals : nextTotals state (.editRound roundIndex updates) totals = totals := by
    cases hg : state.game? with
    | none => simp [nextTotals, Phase10GameState.sheet?, hg]
    | some game =>
      have hnot : ¬ (0 ≤ roundIndex ∧ roundIndex < game.sheet.rows.length) := by
        have hout' := hout game hg
        simp only [Phase10Game.sheet, List.length_map]
        omega
      simp [nextTotals, Phase10GameState.sheet?, hg, hnot]
  have hadditions : additions state (.editRound roundIndex updates) = [] := by
    cases hg : state.game? with
    | none => simp [additions, hg]
    | some game => simp [additions, hg, hout game hg]
  refine Kept.advances ?_ hadditions (fun hop => by cases hop)
  rwa [htotals]

section Edit

variable {state : Phase10GameState} {game : Phase10Game} {k : ℕ} {round : Phase10Round}

theorem nextTotals_editRound (h : state.Sound) (hg : state.game? = some game)
    (hround : game.rounds[k]? = some round) (updates : List RoundEntryModel) (totals : List ℤ) :
    nextTotals state (.editRound k updates) totals = game.playerNames.map fun n =>
      trueTotal ((recordOf n (withEdit game k round updates).rounds).map (·.cell)) := by
  obtain ⟨hk, -⟩ := List.getElem?_eq_some_iff.mp hround
  have hin : 0 ≤ (k : ℤ) ∧ (k : ℤ) < game.sheet.rows.length := by
    simpa [Phase10Game.sheet] using hk
  have hsheet : state.sheet? = some game.sheet := by simp [Phase10GameState.sheet?, hg]
  simp only [nextTotals, hsheet, hin, and_self, if_true]
  apply List.map_congr_left
  intro name hname
  rw [(h.ledger hg).record_edit hround updates hname]

/-- The points that are added again are those of the edited records. -/
theorem additions_editRound (hg : state.game? = some game) (hround : game.rounds[k]? = some round)
    (updates : List RoundEntryModel) (a : Addition) :
    a ∈ additions state (.editRound k updates) ↔ ∃ n ∈ game.playerNames,
      a ∈ noTally.additions (recordOf n (withEdit game k round updates).rounds) := by
  obtain ⟨hk, -⟩ := List.getElem?_eq_some_iff.mp hround
  have hguard : ¬ ((k : ℤ) < 0 ∨ (game.rounds.length : ℤ) ≤ (k : ℤ)) := by omega
  have hstart : game.playerNames.map (fun n => Phase10Player.active ⟨n, 1, 0⟩) =
      game.playerNames.map (fun n => playerOf n noTally) := rfl
  simp only [additions, hg, if_neg hguard, Int.toNat_natCast, hround, hstart]
  exact recalculationAdditions_eq _ (fun _ => noTally)
    (fun _ => Progress.open_start 10 (by omega)) _ a

end Edit

theorem advances_editRound {state : Phase10GameState} (h : state.Sound) {totals : List ℤ}
    (hk : Kept state totals) {roundIndex : ℤ} {updates : List RoundEntryModel}
    {next : Phase10GameState × StoreCall} (he : editRound roundIndex updates state = .ok next) :
    Advances state totals (.editRound roundIndex updates) next.1 := by
  rcases roundIndex_cases state roundIndex with hout | ⟨game, k, round, hg, rfl, hround⟩
  · cases (editRound_of_not_mem hout updates).symm.trans he
    exact advances_editRound_outside hk hout updates
  · obtain ⟨state', hedit, hsettled, -⟩ := editRound_spec h hg hround updates
    cases hedit.symm.trans he
    let record (name : String) := recordOf name (withEdit game k round updates).rounds
    have hnext : nextTotals state (.editRound k updates) totals =
        game.playerNames.map (fun n => trueTotal ((record n).map (·.cell))) :=
      nextTotals_editRound h hg hround updates totals
    have hall : (∀ a ∈ additions state (.editRound k updates), a.InRange) ↔
        ∀ n ∈ game.playerNames, ∀ a ∈ noTally.additions (record n), a.InRange := by
      simp only [additions_editRound hg hround]
      constructor
      · exact fun hrange n hn a ha => hrange a ⟨n, hn, ha⟩
      · rintro hrange a ⟨n, hn, ha⟩
        exact hrange n hn a ha
    refine ⟨?_, ?_, ?_, fun hop => by cases hop⟩
    · rw [hnext, List.forall_mem_map]
      exact fun n _ => trueTotal_nonneg (record n)
    · rw [hnext, hall, List.forall_mem_map]
      exact forall₂_congr (fun n _ => additions_inRange_iff (record n))
    · intro hrange
      rw [hall] at hrange
      rw [hnext, scores_of_game? hsettled.game?, recalculated, List.map_map, List.map_map]
      apply List.map_congr_left
      intro name hname
      exact score_standing (hrange name hname)

theorem Kept.of_game? {state next : Phase10GameState} {totals : List ℤ} (h : Kept state totals)
    (hg : next.game? = state.game?) : Kept next totals := by
  have hscores : next.scores = state.scores := by
    rw [Phase10GameState.scores, Phase10GameState.scores, hg]
  exact ⟨by rw [hscores, h.scores], h.nonneg⟩

theorem kept_initial : Kept initial [] := ⟨rfl, by simp⟩

theorem advances_startGame {state : Phase10GameState} {totals : List ℤ} (hk : Kept state totals) :
    Advances state totals .startGame (startGame state).1 := by
  refine Kept.advances ?_ rfl (fun hop => by cases hop)
  cases state with
  | setup names =>
    by_cases hn : canStart names
    · rw [nextTotals, if_pos hn, startGame, if_pos hn]
      refine ⟨?_, ?_⟩
      · rw [scores_of_game? rfl, newGameOf, List.map_map, List.map_map]
        rfl
      · intro total htotal
        obtain ⟨_, -, rfl⟩ := List.mem_map.mp htotal
        exact Int.le_refl 0
    · rwa [nextTotals, if_neg hn, startGame, if_neg hn]
  | inProgress game entries => exact hk
  | complete game winner count => exact hk

theorem advances_perform {state : Phase10GameState} (h : state.Sound) {totals : List ℤ}
    (hk : Kept state totals) {operation : Operation} {next : Phase10GameState × StoreCall}
    (he : operation.perform state = .ok next) : Advances state totals operation next.1 := by
  have hnot {o : Operation} (ho : o ≠ .submitRound) :
      o = .submitRound → nextTotals state o totals = totals := fun hop => absurd hop ho
  cases operation with
  | submitRound =>
    cases state with
    | setup names => cases he; exact hk.advances rfl (fun _ => rfl)
    | inProgress game entries => exact advances_submitRound h hk he
    | complete game winner count => cases he; exact hk.advances rfl (fun _ => rfl)
  | editRound roundIndex updates => exact advances_editRound h hk he
  | startGame => cases he; exact advances_startGame hk
  | abandonGame => cases he; exact kept_initial.advances rfl (hnot (by decide))
  | newGame => cases he; exact kept_initial.advances rfl (hnot (by decide))
  | addPlayer =>
    cases he
    exact (hk.of_game? h.addPlayer.game?).advances rfl (hnot (by decide))
  | removePlayer index =>
    obtain ⟨state', hremove, rfl⟩ : ∃ state',
        Phase10GameService.removePlayer index state = .ok state' ∧
          (state', StoreCall.none) = next := by simpa [Operation.perform] using he
    exact (hk.of_game? (h.removePlayer hremove).game?).advances rfl (fun hop => by cases hop)
  | typeNames names =>
    cases he
    exact (hk.of_game? (h.typeNames names).game?).advances rfl (fun hop => by cases hop)
  | typeEntry index entry =>
    cases he
    exact (hk.of_game? (h.typeEntry index entry).game?).advances rfl (fun hop => by cases hop)

/-- A step in which no score wraps: every addition is in range, no score is negative, a submit
lowers none, and the scores are the true totals, so comparing them compares the totals. -/
structure ScoresTrue (s : TotalledSession) (e : Session.Event) (s' : TotalledSession) : Prop where
  in_range : ∀ operation, e = .call operation →
    ∀ a ∈ additions s.session.state operation, a.InRange
  nonneg : ∀ score ∈ s'.session.state.scores, 0 ≤ score
  submit_le : e = .call .submitRound →
    List.Forall₂ (· ≤ ·) s.session.state.scores s'.session.state.scores
  totals : s'.session.state.scores.map Int32.toInt = s'.totals
  compared : ∀ (i j : ℕ) x y t u, s'.session.state.scores[i]? = some x →
    s'.session.state.scores[j]? = some y → s'.totals[i]? = some t → s'.totals[j]? = some u →
    (x ≤ y ↔ t ≤ u)

/-- The condition on a step: the true totals after it fit into `Int32`. -/
def TotalsFit (s : TotalledSession) (e : Session.Event) : Prop :=
  ∀ operation, e = .call operation → ∀ total ∈ nextTotals s.session.state operation s.totals,
    total ≤ Int32.maxValue.toInt

theorem Kept.scoresTrue {s s' : TotalledSession} (h : Kept s.session.state s.totals)
    (h' : Kept s'.session.state s'.totals) {e : Session.Event}
    (hrange : ∀ operation, e = .call operation →
      ∀ a ∈ additions s.session.state operation, a.InRange)
    (hsubmit : e = .call .submitRound → List.Forall₂ (· ≤ ·) s.totals s'.totals) :
    ScoresTrue s e s' where
  in_range := hrange
  nonneg := by
    intro score hscore
    have hmem : score.toInt ∈ s'.totals := by
      rw [← h'.scores]
      exact List.mem_map_of_mem hscore
    exact Int32.le_iff_toInt_le.mpr (h'.nonneg _ hmem)
  submit_le he := by
    have hle := hsubmit he
    rw [← h.scores, ← h'.scores, List.forall₂_map_left_iff, List.forall₂_map_right_iff] at hle
    exact hle.imp (fun _ _ => Int32.le_iff_toInt_le.mpr)
  totals := h'.scores
  compared := by
    intro i j x y t u hx hy ht hu
    rw [← h'.scores, List.getElem?_map, hx] at ht
    rw [← h'.scores, List.getElem?_map, hy] at hu
    obtain rfl : x.toInt = t := Option.some.inj ht
    obtain rfl : y.toInt = u := Option.some.inj hu
    exact Int32.le_iff_toInt_le

namespace TotalledSession

/-- A session after its first load whose totals are its scores. -/
structure Balanced (s : TotalledSession) : Prop where
  loaded : s.session.Loaded
  kept : Kept s.session.state s.totals

theorem step_cases {s s' : TotalledSession} {e : Session.Event} (he : s.step e = .ok s') :
    s.session.step e = .ok s'.session ∧ s'.totals = match e with
      | .load => s.totals
      | .call operation => nextTotals s.session.state operation s.totals := by
  cases e with
  | load =>
    obtain ⟨t, ht, rfl⟩ : ∃ t, s.session.step .load = .ok t ∧ { s with session := t } = s' := by
      simpa [TotalledSession.step] using he
    exact ⟨ht, rfl⟩
  | call operation =>
    obtain ⟨t, ht, rfl⟩ : ∃ t, s.session.step (.call operation) = .ok t ∧
        ⟨t, nextTotals s.session.state operation s.totals⟩ = s' := by
      simpa only [TotalledSession.step, map_eq_ok, bind_pure_comp] using he
    exact ⟨ht, rfl⟩

/-- One step keeps scores and totals together exactly when the totals fit. -/
theorem Balanced.step {s s' : TotalledSession} (h : s.Balanced) {e : Session.Event}
    (he : s.step e = .ok s') :
    (TotalsFit s e → s'.Balanced ∧ ScoresTrue s e s') ∧ (ScoresTrue s e s' → TotalsFit s e) := by
  obtain ⟨hstep, htotals⟩ := step_cases he
  have hloaded := h.loaded.step hstep
  have hsound := h.loaded.reachable.sound
  cases e with
  | load =>
    have hstate : s'.session.state = s.session.state.refreshed := by
      have hload := Session.step_load (loadGame_synced hsound h.loaded.synced)
      exact congrArg Session.state (Except.ok.inj (hstep.symm.trans hload))
    have hkept : Kept s'.session.state s'.totals := by
      rw [htotals, hstate]
      exact h.kept.of_game? (agree_refreshed s.session.state).game?.symm
    constructor
    · intro _
      exact ⟨⟨hloaded, hkept⟩,
        h.kept.scoresTrue hkept (fun _ hop => by cases hop) (fun hop => by cases hop)⟩
    · intro _ operation hop
      cases hop
  | call operation =>
    obtain ⟨next, hnext, hcommit⟩ := Session.perform_of_step hstep
    have hadv := advances_perform hsound.state h.kept hnext
    have hstate : s'.session.state = next.1 := congrArg Session.state hcommit.symm
    constructor
    · intro hfit
      have hrange := hadv.fits_iff.mpr (hfit operation rfl)
      have hkept : Kept s'.session.state s'.totals := by
        rw [htotals, hstate]
        exact ⟨hadv.exact hrange, hadv.nonneg⟩
      refine ⟨⟨hloaded, hkept⟩, h.kept.scoresTrue hkept ?_ ?_⟩
      · rintro _ ⟨⟩
        exact hrange
      · intro hop
        rw [htotals]
        exact hadv.submit_le (Session.Event.call.inj hop)
    · rintro htrue _ ⟨⟩
      exact hadv.fits_iff.mp (htrue.in_range operation rfl)

theorem balanced_launch : Balanced ⟨.launch, []⟩ := ⟨Session.loaded_launch, kept_initial⟩

end TotalledSession

/-- Along a run no score wraps exactly when after every submit and every edit the true totals fit
into `Int32`. -/
theorem scores_true_iff (events : List Session.Event) :
    Along TotalledSession.step (fun s e => ∀ s', s.step e = .ok s' → ScoresTrue s e s')
        ⟨.launch, []⟩ events ↔
      Along TotalledSession.step TotalsFit ⟨.launch, []⟩ events := by
  refine along_congr (I := TotalledSession.Balanced) ?_ ?_ TotalledSession.balanced_launch events
  · intro s e s' hs he htrue
    have hfit : TotalsFit s e := (hs.step he).2 (htrue s' he)
    exact ((hs.step he).1 hfit).1
  · intro s e s' hs he
    constructor
    · exact fun htrue => (hs.step he).2 (htrue s' he)
    · intro hfit t ht
      exact ((hs.step ht).1 hfit).2

/-- A round of 2147483647 points and a round of one point: the score of the player in the lead by
points turns negative, below that of the other. -/
theorem score_wraps : ∃ events : List Session.Event,
    (run TotalledSession.step ⟨.launch, []⟩ events).toOption.map
        (fun s => (s.session.state.scores, s.totals)) = some ([-2147483648, 5], [2147483648, 5]) ∧
      ¬ Along TotalledSession.step (fun s e => ∀ s', s.step e = .ok s' → ScoresTrue s e s')
        ⟨.launch, []⟩ events := by
  let earlier : List Session.Event := [.call (.typeNames ["Ann", "Bob"]), .call .startGame] ++
    Session.playRound [⟨2147483647, false⟩, ⟨5, false⟩] ++
    [.call (.typeEntry 0 ⟨1, false⟩)]
  have heval : (run TotalledSession.step ⟨.launch, []⟩
      (earlier ++ [.call .submitRound])).toOption.map
        (fun s => (s.session.state.scores, s.totals)) =
      some ([-2147483648, 5], [2147483648, 5]) := by decide +kernel
  refine ⟨earlier ++ [.call .submitRound], heval, ?_⟩
  intro halong
  obtain ⟨t, ht, hscores⟩ := run_of_eval TotalledSession.step ⟨.launch, []⟩
    (earlier ++ [.call .submitRound]) (fun s => s.session.state.scores = [-2147483648, 5])
    (by decide +kernel)
  obtain ⟨s, hs, htrue⟩ := halong.last ht
  have hnonneg := (htrue t hs).nonneg (-2147483648) (by rw [of_decide_eq_true hscores]; simp)
  exact absurd hnonneg (by decide)

end HwoodiwissHelper.Phase10
