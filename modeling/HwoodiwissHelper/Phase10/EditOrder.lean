import HwoodiwissHelper.Phase10.Archive
import HwoodiwissHelper.Phase10.ScoreSheet

/-!
# The order of edits

Two edits of different rounds may pass through different states, one over and one in progress,
and recalculations leave some recorded phases alone. In the end the order does not show: the
cells of the history are those of the score sheet, the phases at the first seat of a name follow
from the cells, and at the other seats of the name no phase is ever written.
-/

namespace HwoodiwissHelper.Phase10

open Phase10GameService Transition KeyedList

theorem ScoreSheet.edit_rows_length (sheet : ScoreSheet) (r : ℤ) (updates : List RoundEntryModel) :
    (sheet.edit r updates).rows.length = sheet.rows.length := by
  rw [edit]
  split
  · simp
  · rfl

theorem ScoreSheet.edit_comm (sheet : ScoreSheet) {r₁ r₂ : ℤ} (hne : r₁ ≠ r₂)
    (e₁ e₂ : List RoundEntryModel) :
    (sheet.edit r₁ e₁).edit r₂ e₂ = (sheet.edit r₂ e₂).edit r₁ e₁ := by
  by_cases h₁ : 0 ≤ r₁ ∧ r₁ < sheet.rows.length
  · by_cases h₂ : 0 ≤ r₂ ∧ r₂ < sheet.rows.length
    · have hk : r₁.toNat ≠ r₂.toNat := by omega
      simp only [edit, h₁, h₂, and_self, if_true, List.length_modify,
        List.modify_modify_ne _ _ _ hk]
    · have hstay : sheet.edit r₂ e₂ = sheet := edit_of_not_mem (by omega) e₂
      have hstay' : (sheet.edit r₁ e₁).edit r₂ e₂ = sheet.edit r₁ e₁ :=
        edit_of_not_mem (by rw [edit_rows_length]; omega) e₂
      rw [hstay, hstay']
  · have hstay : sheet.edit r₁ e₁ = sheet := edit_of_not_mem (by omega) e₁
    have hstay' : (sheet.edit r₂ e₂).edit r₁ e₁ = sheet.edit r₂ e₂ :=
      edit_of_not_mem (by rw [edit_rows_length]; omega) e₁
    rw [hstay, hstay']

namespace Phase10Game

def entryAt (game : Phase10Game) (j i : ℕ) : Option Phase10RoundEntry :=
  game.rounds[j]?.bind (·.entries[i]?)

def phaseAt (game : Phase10Game) (j i : ℕ) : Option Int32 := (game.entryAt j i).map (·.phase)

end Phase10Game

theorem getElem?_rewriteEntries {tallyOf : String → Tally} {names : List String}
    {entries : List Phase10RoundEntry} {i : ℕ}
    (h : Repeats (entries.map (·.playerName)) i) :
    (rewriteEntries tallyOf names entries)[i]? = entries[i]? := by
  induction names generalizing entries with
  | nil => rfl
  | cons name names ih =>
    have hnames : (rewriteEntry (tallyOf name) name entries).map (·.playerName) =
        entries.map (·.playerName) := map_modifyFirst (fun e => Tally.rewrite_playerName _ e) _
    rw [rewriteEntries, ih (by rwa [hnames])]
    exact getElem?_modifyFirst_of_repeats _ h name

theorem getElem?_rewriteRounds (names : List String) (tallyOf : String → Tally)
    (rounds : List Phase10Round) (j : ℕ) :
    ∃ tallyOf', (rewriteRounds names tallyOf rounds)[j]? = (rounds[j]?).map (fun round =>
      { round with entries := rewriteEntries tallyOf' names round.entries }) := by
  induction rounds generalizing tallyOf j with
  | nil => exact ⟨tallyOf, by simp [rewriteRounds]⟩
  | cons round rounds ih =>
    cases j with
    | zero => exact ⟨tallyOf, rfl⟩
    | succ j =>
      obtain ⟨tallyOf', h⟩ := ih (fun n => (tallyOf n).hear (entryOf n round.entries)) j
      exact ⟨tallyOf', by simpa [rewriteRounds] using h⟩

theorem entryAt_recalculated {game : Phase10Game}
    (hrows : ∀ round ∈ game.rounds, round.entries.map (·.playerName) = game.playerNames)
    {i : ℕ} (h : Repeats game.playerNames i) (j : ℕ) :
    (recalculated game).entryAt j i = game.entryAt j i := by
  obtain ⟨tallyOf, hget⟩ := getElem?_rewriteRounds game.playerNames (fun _ => noTally) game.rounds j
  rw [Phase10Game.entryAt, Phase10Game.entryAt, recalculated, hget]
  cases hround : game.rounds[j]? with
  | none => rfl
  | some round =>
    refine getElem?_rewriteEntries ?_
    rwa [hrows round (List.mem_of_getElem? hround)]

theorem phaseAt_withEdit {game : Phase10Game} {k : ℕ} {round : Phase10Round}
    (hround : game.rounds[k]? = some round) (updates : List RoundEntryModel) (j i : ℕ) :
    (withEdit game k round updates).phaseAt j i = game.phaseAt j i := by
  by_cases hjk : k = j
  · subst hjk
    obtain ⟨hk, -⟩ := List.getElem?_eq_some_iff.mp hround
    simp only [Phase10Game.phaseAt, Phase10Game.entryAt, withEdit, List.getElem?_set_self hk,
      hround, Option.bind_some, getElem?_editedEntries]
    cases updates[i]? with
    | none => rfl
    | some updated => cases round.entries[i]? <;> rfl
  · simp only [Phase10Game.phaseAt, Phase10Game.entryAt, withEdit,
      List.getElem?_set_ne hjk]

theorem Ledger.phaseAt_edited {game : Phase10Game} (h : Ledger game) {k : ℕ} {round : Phase10Round}
    (hround : game.rounds[k]? = some round) (updates : List RoundEntryModel) {i : ℕ}
    (hi : Repeats game.playerNames i) (j : ℕ) :
    (Phase10.recalculated (withEdit game k round updates)).phaseAt j i = game.phaseAt j i := by
  have hrows : ∀ r ∈ (withEdit game k round updates).rounds,
      r.entries.map (·.playerName) = game.playerNames := by
    intro r hr
    rcases List.mem_or_eq_of_mem_set hr with hr | rfl
    · exact h.rows r hr
    · rw [map_playerName_editedEntries]
      exact h.rows round (List.mem_of_getElem? hround)
  rw [Phase10Game.phaseAt, entryAt_recalculated hrows hi, ← Phase10Game.phaseAt,
    phaseAt_withEdit hround]

theorem getElem?_filterMap_of_isSome {α β : Type*} {f : α → Option β} {l : List α}
    (h : ∀ a ∈ l, (f a).isSome) (j : ℕ) : (l.filterMap f)[j]? = l[j]?.bind f := by
  induction l generalizing j with
  | nil => rfl
  | cons a l ih =>
    obtain ⟨b, hb⟩ := Option.isSome_iff_exists.mp (h a List.mem_cons_self)
    rw [List.filterMap_cons_some hb]
    cases j with
    | zero => exact hb.symm
    | succ j => simpa using ih (fun c hc => h c (List.mem_cons_of_mem a hc)) j

theorem Ledger.getElem?_column {game : Phase10Game} (h : Ledger game) {i : ℕ} {p : Phase10Player}
    (hp : game.players[i]? = some p) (j : ℕ) : (game.column i)[j]? = game.entryAt j i := by
  refine getElem?_filterMap_of_isSome ?_ j
  intro round hround
  obtain ⟨e, he, -⟩ := h.entry hp hround
  simp [he]

theorem map_cell_entryAt (game : Phase10Game) (j i : ℕ) :
    (game.entryAt j i).map (·.cell) = game.sheet.rows[j]?.bind (·[i]?) := by
  rw [Phase10Game.entryAt, Phase10Game.sheet, List.getElem?_map]
  cases game.rounds[j]? with
  | none => rfl
  | some round => simp [Phase10Round.cells]

theorem Ledger.seat_of_entryAt {game : Phase10Game} (h : Ledger game) {j i : ℕ}
    {e : Phase10RoundEntry} (he : game.entryAt j i = some e) :
    ∃ p, game.players[i]? = some p ∧ p.playerName = e.playerName := by
  obtain ⟨round, hround, hentry⟩ := Option.bind_eq_some_iff.mp he
  have hname : (round.entries[i]?).map (·.playerName) = (game.players[i]?).map (·.playerName) := by
    rw [← List.getElem?_map, ← List.getElem?_map, h.rows round (List.mem_of_getElem? hround)]
    rfl
  rw [hentry] at hname
  exact Option.map_eq_some_iff.mp hname.symm

theorem firstSeat_or_repeats {game : Phase10Game} {i : ℕ} {p : Phase10Player}
    (hp : game.players[i]? = some p) : game.FirstSeat i p ∨ Repeats game.playerNames i := by
  by_cases h : ∃ j < i, ∃ q, game.players[j]? = some q ∧ q.playerName = p.playerName
  · obtain ⟨j, hj, q, hq, hqp⟩ := h
    exact .inr ⟨j, hj, p.playerName, by simp [Phase10Game.playerNames, hq, hqp],
      by simp [Phase10Game.playerNames, hp]⟩
  · push Not at h
    exact .inl ⟨hp, h⟩

theorem Ledger.phase_firstSeat {game : Phase10Game} (h : Ledger game) {i : ℕ} {p : Phase10Player}
    (hp : game.FirstSeat i p) {j : ℕ} {e : Phase10RoundEntry} (he : game.entryAt j i = some e) :
    e.phase = phaseAfter
      (((game.sheet.rows.filterMap (·[i]?)).take j).countP (fun cell => cell.1)) := by
  have hphases := h.phases _ (List.mem_map_of_mem (List.mem_of_getElem? hp.1))
  rw [← h.column_firstSeat hp] at hphases
  rw [← h.getElem?_column hp.1] at he
  rw [hphases.phase he, column_sheet, ← List.map_take, List.countP_map, Nat.zero_add]
  rfl

theorem entry_ext {e e' : Phase10RoundEntry} (hname : e.playerName = e'.playerName)
    (hphase : e.phase = e'.phase) (hcell : e.cell = e'.cell) : e = e' := by
  obtain ⟨hcompleted, hpoints⟩ := Prod.mk.inj hcell
  cases e
  cases e'
  simp_all

section OneSheet

variable {game game' : Phase10Game} (h : Ledger game) (h' : Ledger game')
  (hsheet : game.sheet = game'.sheet)
  (hphase : ∀ i, Repeats game.playerNames i → ∀ j, game.phaseAt j i = game'.phaseAt j i)
include h h' hsheet hphase

/-- The entries of a ledger follow from its sheet and the phases at repeated seats. -/
theorem Ledger.entryAt_eq (j i : ℕ) : game.entryAt j i = game'.entryAt j i := by
  have hnames : game.playerNames = game'.playerNames := congrArg ScoreSheet.playerNames hsheet
  have hcell : (game'.entryAt j i).map (·.cell) = (game.entryAt j i).map (·.cell) := by
    rw [map_cell_entryAt, map_cell_entryAt, hsheet]
  cases he : game.entryAt j i with
  | none =>
    rw [he] at hcell
    exact (Option.map_eq_none_iff.mp hcell).symm
  | some e =>
    rw [he] at hcell
    obtain ⟨e', he', hcell'⟩ := Option.map_eq_some_iff.mp hcell
    obtain ⟨p, hp, hname⟩ := h.seat_of_entryAt he
    obtain ⟨p', hp', hname'⟩ := h'.seat_of_entryAt he'
    have hpp : p.playerName = p'.playerName := by
      have hi := congrArg (·[i]?) hnames
      simpa [Phase10Game.playerNames, hp, hp'] using hi
    have hphases : e.phase = e'.phase := by
      rcases firstSeat_or_repeats hp with hfirst | hrepeats
      · have hfirst' := (hfirst.of_playerNames hnames.symm hp').1
        rw [h.phase_firstSeat hfirst he, h'.phase_firstSeat hfirst' he', hsheet]
      · have hat := hphase i hrepeats j
        simpa [Phase10Game.phaseAt, he, he'] using hat
    rw [he', entry_ext (hname.symm.trans (hpp.trans hname')) hphases hcell'.symm]

theorem Ledger.rounds_eq : game.rounds = game'.rounds := by
  have hlen : game.rounds.length = game'.rounds.length := by
    simpa [Phase10Game.sheet] using congrArg (·.rows.length) hsheet
  have hnumbers : game.rounds.map (·.roundNumber) = game'.rounds.map (·.roundNumber) := by
    rw [h.numbered, h'.numbered, hlen]
  apply List.ext_getElem hlen
  intro j hj hj'
  have hnumber : game.rounds[j].roundNumber = game'.rounds[j].roundNumber := by
    simpa [hj, hj'] using congrArg (·[j]?) hnumbers
  have hentries : game.rounds[j].entries = game'.rounds[j].entries := by
    apply List.ext_getElem?
    intro i
    have hentry := h.entryAt_eq h' hsheet hphase j i
    simpa [Phase10Game.entryAt, hj, hj'] using hentry
  calc game.rounds[j] = ⟨game.rounds[j].roundNumber, game.rounds[j].entries⟩ := rfl
    _ = game'.rounds[j] := by rw [hnumber, hentries]

end OneSheet

/-- Every player is what the record of its name amounts to, also at a repeated seat. -/
def Recorded (game : Phase10Game) : Prop :=
  game.players = game.playerNames.map (fun n => standing n (recordOf n game.rounds))

theorem recorded_recalculated (game : Phase10Game) : Recorded (recalculated game) := by
  rw [Recorded, recalculated_playerNames]
  apply List.map_congr_left
  intro name hname
  have hrecord : recordOf name (recalculated game).rounds =
      rewriteRecord noTally (recordOf name game.rounds) := recordOf_rewriteRounds hname _ _
  rw [hrecord, standing_rewriteRecord]

/-- Two recalculated games with one sheet and the same phases at repeated seats are the same. -/
theorem Ledger.eq_of_sheet {game game' : Phase10Game} (h : Ledger game) (h' : Ledger game')
    (hr : Recorded game) (hr' : Recorded game') (hsheet : game.sheet = game'.sheet)
    (hphase : ∀ i, Repeats game.playerNames i → ∀ j, game.phaseAt j i = game'.phaseAt j i) :
    game = game' := by
  have hrounds := h.rounds_eq h' hsheet hphase
  have hnames : game.playerNames = game'.playerNames := congrArg ScoreSheet.playerNames hsheet
  have hplayers : game.players = game'.players := by rw [hr, hr', hnames, hrounds]
  have hcurrent : game.currentRound = game'.currentRound := by
    rw [h.current, h'.current, hrounds]
  cases game
  cases game'
  simp_all

/-- What an edit in range leaves: the edited sheet, the recorded players, the kept phases. -/
structure Edited (game : Phase10Game) (r : ℤ) (updates : List RoundEntryModel)
    (game' : Phase10Game) : Prop where
  sheet : game'.sheet = game.sheet.edit r updates
  recorded : Recorded game'
  phases : ∀ i, Repeats game.playerNames i → ∀ j, game'.phaseAt j i = game.phaseAt j i

theorem editRound_edited {state : Phase10GameState} (h : state.Sound) {game : Phase10Game}
    (hg : state.game? = some game) {r : ℤ} (hr : 0 ≤ r ∧ r < game.sheet.rows.length)
    (updates : List RoundEntryModel) :
    ∃ state' game' entries, editRound r updates state = .ok (state', saveGame state') ∧
      Settled game' entries state' ∧ state'.Sound ∧ Edited game r updates game' := by
  obtain ⟨k, rfl⟩ := Int.eq_ofNat_of_zero_le hr.1
  have hk : k < game.rounds.length := by
    simpa [Phase10Game.sheet] using hr.2
  have hround : game.rounds[k]? = some game.rounds[k] := List.getElem?_eq_getElem hk
  obtain ⟨state', hedit, hsettled, hsound⟩ := editRound_spec h hg hround updates
  refine ⟨state', _, _, hedit, hsettled, hsound, ?_, recorded_recalculated _, ?_⟩
  · rw [sheet_recalculated, sheet_withEdit hround]
  · intro i hi j
    exact (h.ledger hg).phaseAt_edited hround updates hi j

theorem editRound_outside {state : Phase10GameState} {sheet : ScoreSheet}
    (hsheet : state.sheet? = some sheet) {r : ℤ} (hr : ¬ (0 ≤ r ∧ r < sheet.rows.length))
    (updates : List RoundEntryModel) : editRound r updates state = .ok (state, .none) := by
  refine editRound_of_not_mem ?_ updates
  intro game hg
  obtain rfl : game.sheet = sheet := by simpa [Phase10GameState.sheet?, hg] using hsheet
  have hlen : game.sheet.rows.length = game.rounds.length := by simp [Phase10Game.sheet]
  omega

theorem editRound_ok {state : Phase10GameState} (h : state.Sound) (r : ℤ)
    (updates : List RoundEntryModel) :
    ∃ next, editRound r updates state = .ok next ∧ next.1.Sound ∧
      next.1.sheet? = state.sheet?.map (·.edit r updates) := by
  obtain ⟨next, hnext⟩ := h.perform_ok (.editRound r updates) (fun _ _ hop => by cases hop)
  exact ⟨next, hnext, (h.perform hnext).sound, (sheet?_perform h hnext).symm⟩

theorem editRound_twice {state : Phase10GameState} (h : state.Sound) {game : Phase10Game}
    (hg : state.game? = some game) {r₁ r₂ : ℤ} (h₁ : 0 ≤ r₁ ∧ r₁ < game.sheet.rows.length)
    (h₂ : 0 ≤ r₂ ∧ r₂ < game.sheet.rows.length) (e₁ e₂ : List RoundEntryModel) :
    ∃ a b game' entries, editRound r₁ e₁ state = .ok a ∧ editRound r₂ e₂ a.1 = .ok b ∧
      Settled game' entries b.1 ∧ Ledger game' ∧ Recorded game' ∧
      game'.sheet = (game.sheet.edit r₁ e₁).edit r₂ e₂ ∧
      ∀ i, Repeats game.playerNames i → ∀ j, game'.phaseAt j i = game.phaseAt j i := by
  obtain ⟨a, game₁, _, ha, hsettled, hsound, hedited⟩ := editRound_edited h hg h₁ e₁
  have hr₂ : 0 ≤ r₂ ∧ r₂ < game₁.sheet.rows.length := by
    rw [hedited.sheet, ScoreSheet.edit_rows_length]
    exact h₂
  have hnames : game₁.playerNames = game.playerNames := by
    have hsheet := congrArg ScoreSheet.playerNames hedited.sheet
    rwa [ScoreSheet.edit_playerNames] at hsheet
  obtain ⟨b, game₂, entries, hb, hsettled₂, hsound₂, hedited₂⟩ :=
    editRound_edited hsound hsettled.game? hr₂ e₂
  refine ⟨(a, saveGame a), (b, saveGame b), game₂, entries, ha, hb, hsettled₂,
    hsound₂.ledger hsettled₂.game?, hedited₂.recorded, ?_, ?_⟩
  · rw [hedited₂.sheet, hedited.sheet]
  · intro i hi j
    rw [hedited₂.phases i (by rwa [hnames]) j, hedited.phases i hi j]

theorem Phase10GameState.Sound.editRound_comm {state : Phase10GameState} (h : state.Sound)
    {r₁ r₂ : ℤ} (hne : r₁ ≠ r₂) (e₁ e₂ : List RoundEntryModel) :
    ∃ a b a' b', Phase10GameService.editRound r₁ e₁ state = .ok a ∧
      Phase10GameService.editRound r₂ e₂ a.1 = .ok b ∧
      Phase10GameService.editRound r₂ e₂ state = .ok a' ∧
      Phase10GameService.editRound r₁ e₁ a'.1 = .ok b' ∧ Agree b.1 b'.1 := by
  obtain ⟨a, ha, hsa, hsheet⟩ := editRound_ok h r₁ e₁
  obtain ⟨a', ha', hsa', hsheet'⟩ := editRound_ok h r₂ e₂
  cases hg : state.game? with
  | none =>
    have hout (r : ℤ) (updates) :
        Phase10GameService.editRound r updates state = .ok (state, .none) :=
      editRound_of_not_mem (fun game hgame => by simp [hg] at hgame) updates
    exact ⟨_, _, _, _, hout r₁ e₁, hout r₂ e₂, hout r₂ e₂, hout r₁ e₁, agree_refl state⟩
  | some game =>
    have hstate : state.sheet? = some game.sheet := by simp [Phase10GameState.sheet?, hg]
    rw [hstate, Option.map_some] at hsheet hsheet'
    by_cases h₁ : 0 ≤ r₁ ∧ r₁ < game.sheet.rows.length
    · by_cases h₂ : 0 ≤ r₂ ∧ r₂ < game.sheet.rows.length
      · obtain ⟨a, b, game', _, ha, hb, hsettled, hl, hrecorded, hs, hp⟩ :=
          editRound_twice h hg h₁ h₂ e₁ e₂
        obtain ⟨a', b', game'', _, ha', hb', hsettled', hl', hrecorded', hs', hp'⟩ :=
          editRound_twice h hg h₂ h₁ e₂ e₁
        have hsame : game'.sheet = game''.sheet := by
          rw [hs, hs', ScoreSheet.edit_comm _ hne]
        have hnames : game'.playerNames = game.playerNames := by
          have hnames := congrArg ScoreSheet.playerNames hs
          rwa [ScoreSheet.edit_playerNames, ScoreSheet.edit_playerNames] at hnames
        obtain rfl := hl.eq_of_sheet hl' hrecorded hrecorded' hsame (by
          intro i hi j
          rw [hnames] at hi
          rw [hp i hi j, hp' i hi j])
        exact ⟨a, b, a', b', ha, hb, ha', hb', hsettled.agree hsettled'⟩
      · -- the second edit does nothing, before the first or after it
        have hstay : Phase10GameService.editRound r₂ e₂ state = .ok (state, .none) :=
          editRound_outside hstate h₂ e₂
        have hstay' : Phase10GameService.editRound r₂ e₂ a.1 = .ok (a.1, .none) :=
          editRound_outside hsheet (by rwa [ScoreSheet.edit_rows_length]) e₂
        exact ⟨a, _, _, a, ha, hstay', hstay, ha, agree_refl a.1⟩
    · have hstay : Phase10GameService.editRound r₁ e₁ state = .ok (state, .none) :=
        editRound_outside hstate h₁ e₁
      have hstay' : Phase10GameService.editRound r₁ e₁ a'.1 = .ok (a'.1, .none) :=
        editRound_outside hsheet' (by rwa [ScoreSheet.edit_rows_length]) e₁
      exact ⟨_, a', a', _, hstay, ha', ha', hstay', agree_refl a'.1⟩

/-- In every reachable state two edits of different rounds, in one order and in the other, end in
the same state up to pending entries, with repeated names too. -/
theorem edits_commute {s : Archive} (hs : s.Reachable) {r₁ r₂ : ℤ} (hne : r₁ ≠ r₂)
    (e₁ e₂ : List RoundEntryModel) :
    ∃ t t', run Archive.step s [.call (.editRound r₁ e₁), .call (.editRound r₂ e₂)] = .ok t ∧
      run Archive.step s [.call (.editRound r₂ e₂), .call (.editRound r₁ e₁)] = .ok t' ∧
      Agree t.state t'.state := by
  obtain ⟨a, b, a', b', ha, hb, ha', hb', hagree⟩ := hs.sound.state.editRound_comm hne e₁ e₂
  refine ⟨⟨b.1, s.saved ++ a.2.saved ++ b.2.saved⟩, ⟨b'.1, s.saved ++ a'.2.saved ++ b'.2.saved⟩,
    ?_, ?_, hagree⟩
  · simp [run, Archive.step, Operation.perform, ha, hb]
  · simp [run, Archive.step, Operation.perform, ha', hb']

/-- A game of namesakes that is over, reopened by one of the edits and not by the other. -/
theorem edits_commute_namesakes : ∃ (s : Archive) (game : Phase10Game), s.Reachable ∧
    s.state = .complete game ⟨"Ann", 10⟩ 2 ∧ game.playerNames = ["Ann", "Ann"] ∧
    ∃ t t', run Archive.step s [.call (.editRound 0 [⟨7, false⟩]), .call (.editRound 9 [])] =
        .ok t ∧
      run Archive.step s [.call (.editRound 9 []), .call (.editRound 0 [⟨7, false⟩])] = .ok t' ∧
      Agree t.state t'.state := by
  obtain ⟨s, hs, hp⟩ := Session.reachable_of_run
    ([.call (.typeNames ["Ann", "Ann"]), .call .startGame] ++
      (List.replicate 10 (Session.playRound [⟨1, true⟩, ⟨2, true⟩])).flatten ++
      [.call (.editRound 4 [⟨1, true⟩, ⟨5, false⟩])])
    (fun s => match s.state with
      | .complete game winner count =>
        winner = ⟨"Ann", 10⟩ ∧ count = 2 ∧ game.playerNames = ["Ann", "Ann"]
      | _ => false) (by decide +kernel)
  obtain ⟨saved, hreach, -⟩ := hs.archive
  cases hstate : s.state with
  | setup names => simp [hstate] at hp
  | inProgress game entries => simp [hstate] at hp
  | complete game winner count =>
    simp only [hstate, decide_eq_true_eq] at hp
    obtain ⟨rfl, rfl, hnames⟩ := hp
    exact ⟨⟨s.state, saved⟩, game, hreach, hstate, hnames, edits_commute hreach (by decide) _ _⟩

end HwoodiwissHelper.Phase10
