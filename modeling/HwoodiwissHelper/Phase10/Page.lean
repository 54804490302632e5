import HwoodiwissHelper.Phase10.ScoreSheet

/-!
# The page and its edit mode

The page keeps `_editingRoundIndex` and `_editEntries` beside the state of the service. A row of
the history is in edit mode when the index is its own and the entries are set. Nothing clears
the two fields when a game is abandoned or a new one is chosen.
-/

namespace HwoodiwissHelper.Phase10

open Phase10GameService Transition

/-- Where the edit fields come from: the game they were filled in for, counted from the opening
of the page, and the round as it stood then. -/
structure EditOrigin where
  gameNumber : ℕ
  roundIndex : ℕ
  round : Phase10Round
  deriving DecidableEq, Repr

/-- One page instance. The last three fields are not in the source: they keep book of which game
is on screen, of the last `StartEdit`, and of the cells changed since. -/
structure Page where
  state : Phase10GameState
  editingRoundIndex : Option ℕ := none
  editEntries : Option (List RoundEntryModel) := none
  gameNumber : ℕ := 0
  origin : Option EditOrigin := none
  touched : List ℕ := []
  deriving DecidableEq, Repr

inductive Page.Event where
  | startEdit (roundIndex : ℕ)
  | cancelEdit
  | saveEdit
  | bindCell (entryIdx : ℕ) (entry : RoundEntryModel)
  | click (operation : Operation)
  deriving DecidableEq, Repr

/-- Which operations the screen offers in a state: an enabled button or an input. Editing a round
goes through `SaveEditAsync` alone. -/
def offers : Phase10GameState → Operation → Bool
  | .setup playerNames, .addPlayer => playerNames.length < 6
  | .setup playerNames, .removePlayer index =>
    2 < playerNames.length && 0 ≤ index && index < playerNames.length
  | .setup _, .typeNames _ => true
  | .setup playerNames, .startGame => canStart playerNames
  | .inProgress game _, .typeEntry index _ => index < game.players.length
  | .inProgress _ _, .submitRound => true
  | .inProgress _ _, .abandonGame => true
  | .complete _ _ _, .newGame => true
  | _, _ => false

inductive RenderedRow where
  | editing (round : Phase10Round) (cells : List (Phase10RoundEntry × RoundEntryModel))
  | shown (round : Phase10Round)
  deriving DecidableEq, Repr

namespace Page

def shownRound (p : Page) (roundIndex : ℕ) : Option Phase10Round :=
  p.state.game?.bind (·.rounds[roundIndex]?)

/-- The entries the inputs of a row are bound to, when the row is in edit mode. -/
def editModeAt (p : Page) (roundIndex : ℕ) : Option (List RoundEntryModel) :=
  if p.editingRoundIndex = some roundIndex then p.editEntries else none

def editedRow (p : Page) : Option (ℕ × Phase10Round × List RoundEntryModel) := do
  let roundIndex ← p.editingRoundIndex
  let entries ← p.editEntries
  let round ← p.shownRound roundIndex
  return (roundIndex, round, entries)

/-- The loop over the cells of a row in edit mode, which indexes the edit entries. -/
def bindCells : List Phase10RoundEntry → List RoundEntryModel →
    Except Fault (List (Phase10RoundEntry × RoundEntryModel))
  | [], _ => .ok []
  | _ :: _, [] => .error .indexOutOfRange
  | entry :: entries, model :: models => do
    let cells ← bindCells entries models
    return (entry, model) :: cells

def renderRow (p : Page) (round : Phase10Round) (roundIndex : ℕ) : Except Fault RenderedRow :=
  match p.editModeAt roundIndex with
  | none => .ok (.shown round)
  | some entries => do return .editing round (← bindCells round.entries entries)

def renderHistory (p : Page) : Except Fault (List RenderedRow) :=
  match p.state.game? with
  | none => .ok []
  | some game => game.rounds.zipIdx.mapM (fun row => p.renderRow row.1 row.2)

def startEdit (p : Page) (roundIndex : ℕ) (round : Phase10Round) : Page :=
  { p with
    editingRoundIndex := some roundIndex
    editEntries := some (round.entries.map (·.model))
    origin := some ⟨p.gameNumber, roundIndex, round⟩
    touched := [] }

def cancelEdit (p : Page) : Page :=
  { p with editingRoundIndex := none, editEntries := none, origin := none, touched := [] }

def saveEdit (p : Page) (roundIndex : ℕ) (entries : List RoundEntryModel) : Except Fault Page := do
  let next ← editRound roundIndex entries p.state
  return { p.cancelEdit with state := next.1 }

def bindCell (p : Page) (entries : List RoundEntryModel) (entryIdx : ℕ)
    (entry : RoundEntryModel) : Except Fault Page :=
  if entryIdx < entries.length then
    .ok { p with
      editEntries := some (entries.set entryIdx entry)
      touched := entryIdx :: p.touched }
  else .error .indexOutOfRange

/-- An event whose button or input is not on screen does nothing. -/
def step (p : Page) : Event → Except Fault Page
  | .startEdit roundIndex =>
    match p.shownRound roundIndex, p.editModeAt roundIndex with
    | some round, none => .ok (p.startEdit roundIndex round)
    | _, _ => .ok p
  | .cancelEdit => .ok (if p.editedRow.isSome then p.cancelEdit else p)
  | .saveEdit =>
    match p.editedRow with
    | none => .ok p
    | some (roundIndex, _, entries) => p.saveEdit roundIndex entries
  | .bindCell entryIdx entry =>
    match p.editedRow with
    | none => .ok p
    | some (_, round, entries) =>
      if entryIdx < round.entries.length then p.bindCell entries entryIdx entry else .ok p
  | .click operation =>
    if offers p.state operation then do
      let next ← operation.perform p.state
      return { p with
        state := next.1
        gameNumber := if operation = .startGame then p.gameNumber + 1 else p.gameNumber }
    else .ok p

def opened (state : Phase10GameState) : Page := { state := state }

end Page

def Phase10GameState.cell? (state : Phase10GameState) (r j : ℕ) : Option Cell := do
  let game ← state.game?
  let round ← game.rounds[r]?
  let entry ← round.entries[j]?
  return entry.cell

namespace Page

/-- The row in edit mode was opened by `StartEdit` for this round of this game. It has an edit
entry for every entry of the round, so it renders, and saving it changes touched cells only. -/
structure RowBelongs (p : Page) (roundIndex : ℕ) (round : Phase10Round)
    (entries : List RoundEntryModel) : Prop where
  origin : p.origin = some ⟨p.gameNumber, roundIndex, round⟩
  length : entries.length = round.entries.length
  renders : ∃ cells, p.renderRow round roundIndex = .ok (.editing round cells)
  saves : ∃ next, editRound roundIndex entries p.state = .ok next ∧
    ∀ r j, (r = roundIndex → j ∉ p.touched) → next.1.cell? r j = p.state.cell? r j

def EditModeBelongs (p : Page) : Prop :=
  ∀ roundIndex round entries, p.editedRow = some (roundIndex, round, entries) →
    p.RowBelongs roundIndex round entries

/-- The condition on a step: no round is submitted to the very place at which the edit fields
point. -/
def SubmitsElsewhere (p : Page) (e : Event) : Prop :=
  ∀ game entries, p.state = .inProgress game entries → e = .click .submitRound →
    p.editEntries.isSome → p.editingRoundIndex ≠ some game.rounds.length

/-- The edit fields hold what was recorded at their origin, up to the touched cells. As long as
the game is the one of the origin, so is the round. -/
structure FieldsFrom (p : Page) (roundIndex : ℕ) (entries : List RoundEntryModel)
    (o : EditOrigin) : Prop where
  origin : p.origin = some o
  index : o.roundIndex = roundIndex
  length : entries.length = o.round.entries.length
  untouched : ∀ j ∉ p.touched, entries[j]? = (o.round.entries[j]?).map (·.model)
  notLater : o.gameNumber ≤ p.gameNumber
  sameRound : o.gameNumber = p.gameNumber → ∀ game, p.state.game? = some game →
    game.rounds[roundIndex]? = some o.round

structure Sound (p : Page) : Prop where
  state : p.state.Sound
  fields : ∀ entries, p.editEntries = some entries →
    ∃ roundIndex o, p.editingRoundIndex = some roundIndex ∧ p.FieldsFrom roundIndex entries o

theorem editedRow_eq_some {p : Page} {roundIndex : ℕ} {round : Phase10Round}
    {entries : List RoundEntryModel} :
    p.editedRow = some (roundIndex, round, entries) ↔ p.editingRoundIndex = some roundIndex ∧
      p.editEntries = some entries ∧ p.shownRound roundIndex = some round := by
  simp only [editedRow, Option.bind_eq_bind, Option.bind_eq_some_iff, Option.pure_def,
    Option.some.injEq, Prod.mk.injEq]
  constructor
  · rintro ⟨k, hk, es, hes, r, hr, rfl, rfl, rfl⟩
    exact ⟨hk, hes, hr⟩
  · rintro ⟨hk, hes, hr⟩
    exact ⟨_, hk, _, hes, _, hr, rfl, rfl, rfl⟩

theorem shownRound_eq_some {p : Page} {roundIndex : ℕ} {round : Phase10Round} :
    p.shownRound roundIndex = some round ↔
      ∃ game, p.state.game? = some game ∧ game.rounds[roundIndex]? = some round := by
  simp [shownRound, Option.bind_eq_some_iff]

theorem bindCells_of_length {entries : List Phase10RoundEntry} {models : List RoundEntryModel}
    (h : models.length = entries.length) :
    bindCells entries models = .ok (entries.zip models) := by
  induction entries generalizing models with
  | nil => rfl
  | cons e entries ih =>
    cases models with
    | nil => simp at h
    | cons m models =>
      rw [bindCells, ih (by simpa using h)]
      rfl

@[simp] theorem clamped_model (e : Phase10RoundEntry) : e.model.clamped = e.cell := by
  simp [RoundEntryModel.clamped, Phase10RoundEntry.model, Phase10RoundEntry.cell, max_pointsAdded]

theorem cell?_eq_sheet (state : Phase10GameState) (r j : ℕ) :
    state.cell? r j = state.sheet?.bind (fun sheet => (sheet.rows[r]?).bind (·[j]?)) := by
  cases hg : state.game? with
  | none => simp [Phase10GameState.cell?, Phase10GameState.sheet?, hg]
  | some game =>
    cases hr : game.rounds[r]? with
    | none => simp [Phase10GameState.cell?, Phase10GameState.sheet?, hg, Phase10Game.sheet, hr]
    | some round =>
      cases he : round.entries[j]? <;>
        simp [Phase10GameState.cell?, Phase10GameState.sheet?, hg, Phase10Game.sheet, hr,
          Phase10Round.cells, he]

theorem getElem?_overwrite_of_untouched {entries : List Phase10RoundEntry}
    {updates : List RoundEntryModel} (hlen : updates.length = entries.length) {j : ℕ}
    (hj : updates[j]? = (entries[j]?).map (·.model)) :
    (overwrite (entries.map (·.cell)) updates)[j]? = (entries.map (·.cell))[j]? := by
  have hrow : overwrite (entries.map (·.cell)) updates = updates.map RoundEntryModel.clamped := by
    simp [overwrite, hlen, List.take_of_length_le]
  rw [hrow, List.getElem?_map, List.getElem?_map, hj, Option.map_map]
  exact congrArg (Option.map · entries[j]?) (funext clamped_model)

theorem cell?_of_save {p : Page} (h : p.state.Sound) {game : Phase10Game}
    (hg : p.state.game? = some game) {k : ℕ} {round : Phase10Round}
    (hround : game.rounds[k]? = some round) {entries : List RoundEntryModel}
    (hlen : entries.length = round.entries.length)
    (hunt : ∀ j ∉ p.touched, entries[j]? = (round.entries[j]?).map (·.model)) :
    ∃ next, editRound k entries p.state = .ok next ∧
      ∀ r j, (r = k → j ∉ p.touched) → next.1.cell? r j = p.state.cell? r j := by
  obtain ⟨state', hedit, hsettled, hsound⟩ := editRound_spec h hg hround entries
  have hsheet := sheet?_perform h (o := .editRound k entries) hedit
  refine ⟨_, hedit, ?_⟩
  intro r j hrj
  have hk : k < game.rounds.length := (List.getElem?_eq_some_iff.mp hround).1
  have hin : 0 ≤ (k : ℤ) ∧ (k : ℤ) < game.sheet.rows.length := by
    simpa [Phase10Game.sheet] using hk
  rw [cell?_eq_sheet, cell?_eq_sheet, ← hsheet, Phase10GameState.sheet?, hg]
  simp only [ScoreSheet.listen, Option.map_some, Option.bind_some, ScoreSheet.edit, if_pos hin,
    Int.toNat_natCast, List.getElem?_modify]
  by_cases hkr : k = r
  · subst hkr
    have hrow : game.sheet.rows[k]? = some (round.entries.map (·.cell)) := by
      simp [Phase10Game.sheet, hround, Phase10Round.cells]
    simpa [hrow] using getElem?_overwrite_of_untouched hlen (hunt j (hrj rfl))
  · simp [hkr]

/-- In a sound page the edit mode belongs to the row on screen exactly when the fields were
filled in for the game on screen. -/
theorem editModeBelongs_iff {p : Page} (h : p.Sound) :
    p.EditModeBelongs ↔ ∀ roundIndex round entries o,
      p.editedRow = some (roundIndex, round, entries) → p.origin = some o →
        o.gameNumber = p.gameNumber := by
  constructor
  · intro hbelongs roundIndex round entries o hrow ho
    have horigin := (hbelongs roundIndex round entries hrow).origin
    rw [ho, Option.some.injEq] at horigin
    rw [horigin]
  · intro hcurrent roundIndex round entries hrow
    obtain ⟨hindex, hentries, hshown⟩ := editedRow_eq_some.mp hrow
    obtain ⟨game, hg, hround⟩ := shownRound_eq_some.mp hshown
    obtain ⟨k, o, hk, hfrom⟩ := h.fields entries hentries
    obtain rfl : k = roundIndex := Option.some.inj (hk.symm.trans hindex)
    have hgame := hcurrent k round entries o hrow hfrom.origin
    obtain rfl : o.round = round :=
      Option.some.inj ((hfrom.sameRound hgame game hg).symm.trans hround)
    have hsaves := cell?_of_save h.state hg hround hfrom.length hfrom.untouched
    refine ⟨?_, hfrom.length, ?_, hsaves⟩
    · obtain ⟨gameNumber, index, round⟩ := o
      obtain rfl : gameNumber = p.gameNumber := hgame
      obtain rfl : index = k := hfrom.index
      exact hfrom.origin
    · rw [renderRow, editModeAt, if_pos hindex, hentries]
      simp only [bindCells_of_length hfrom.length]
      exact ⟨_, rfl⟩

/-- What an operation the screen offers does to the history. -/
inductive HistoryChange (state : Phase10GameState) : Operation → Phase10GameState → Prop where
  | gone {o next} (ho : o ≠ .submitRound) (hn : next.game? = none) : HistoryChange state o next
  | started {next game} (hg : next.game? = some game) (hr : game.rounds = []) :
      HistoryChange state .startGame next
  | kept {o next} (ho : o ≠ .startGame) (ho' : o ≠ .submitRound) (hg : next.game? = state.game?) :
      HistoryChange state o next
  | extended {game entries next game' round} (hs : state = .inProgress game entries)
      (hg : next.game? = some game') (hr : game'.rounds = game.rounds ++ [round]) :
      HistoryChange state .submitRound next

theorem historyChange_of_offers {state : Phase10GameState} (h : state.Sound) {o : Operation}
    (ho : offers state o) {next : Phase10GameState × StoreCall}
    (he : o.perform state = .ok next) : HistoryChange state o next.1 := by
  cases state with
  | setup names =>
    cases o with
    | startGame =>
      have hn : canStart names := ho
      simp only [Operation.perform, startGame, if_pos hn] at he
      cases he
      exact .started rfl rfl
    | addPlayer => cases he; exact .gone (by simp) h.addPlayer.game?
    | removePlayer index =>
      obtain ⟨state', hremove, rfl⟩ : ∃ state',
          Phase10GameService.removePlayer index (.setup names) = .ok state' ∧
            (state', StoreCall.none) = next := by simpa [Operation.perform] using he
      exact .gone (by simp) (h.removePlayer hremove).game?
    | typeNames names' => cases he; exact .gone (by simp) rfl
    | _ => cases ho
  | inProgress game entries =>
    cases o with
    | submitRound =>
      obtain ⟨seats, state', -, -, hsubmit, hsettled, -⟩ := submitRound_spec h
      cases hsubmit.symm.trans he
      exact .extended rfl hsettled.game? rfl
    | typeEntry index entry => cases he; exact .kept (by simp) (by simp) rfl
    | abandonGame => cases he; exact .gone (by simp) rfl
    | _ => cases ho
  | complete game winner count =>
    cases o with
    | newGame => cases he; exact .gone (by simp) rfl
    | _ => cases ho

theorem sound_opened {state : Phase10GameState} (h : state.Sound) : (opened state).Sound :=
  ⟨h, fun entries he => by cases he⟩

theorem Sound.cancelEdit {p : Page} {state : Phase10GameState} (h : state.Sound) :
    Sound { p.cancelEdit with state := state } :=
  ⟨h, fun entries he => by cases he⟩

theorem Sound.startEdit {p : Page} (h : p.Sound) {k : ℕ} {round : Phase10Round}
    (hshown : p.shownRound k = some round) : (p.startEdit k round).Sound := by
  refine ⟨h.state, ?_⟩
  intro entries he
  obtain rfl : round.entries.map (·.model) = entries := Option.some.inj he
  obtain ⟨game, hg, hround⟩ := shownRound_eq_some.mp hshown
  refine ⟨k, _, rfl, rfl, rfl, by simp, fun j _ => by simp, Nat.le_refl _, ?_⟩
  intro _ game' hg'
  obtain rfl : game = game' := Option.some.inj (hg.symm.trans hg')
  exact hround

theorem Sound.bindCell {p p' : Page} (h : p.Sound) {entries : List RoundEntryModel}
    (hentries : p.editEntries = some entries) {j : ℕ} {entry : RoundEntryModel}
    (he : p.bindCell entries j entry = .ok p') : p'.Sound := by
  rw [Page.bindCell] at he
  split at he <;> cases he
  refine ⟨h.state, ?_⟩
  intro entries' he'
  obtain rfl : entries.set j entry = entries' := Option.some.inj he'
  obtain ⟨k, o, hk, hfrom⟩ := h.fields entries hentries
  have hlen : (entries.set j entry).length = o.round.entries.length := by
    simpa using hfrom.length
  refine ⟨k, o, hk, hfrom.origin, hfrom.index, hlen, ?_, hfrom.notLater, hfrom.sameRound⟩
  intro i hi
  obtain ⟨hij, hi⟩ : i ≠ j ∧ i ∉ p.touched := by simpa using hi
  rw [List.getElem?_set_ne (Ne.symm hij)]
  exact hfrom.untouched i hi

theorem Sound.click {p : Page} (h : p.Sound) {o : Operation} (ho : offers p.state o)
    {next : Phase10GameState × StoreCall} (he : o.perform p.state = .ok next) :
    Sound { p with
      state := next.1
      gameNumber := if o = .startGame then p.gameNumber + 1 else p.gameNumber } := by
  refine ⟨(h.state.perform he).sound, ?_⟩
  intro entries hentries
  obtain ⟨k, origin, hk, hfrom⟩ := h.fields entries hentries
  have hle := hfrom.notLater
  refine ⟨k, origin, hk, hfrom.origin, hfrom.index, hfrom.length, hfrom.untouched, ?_, ?_⟩
  · change origin.gameNumber ≤ if o = .startGame then p.gameNumber + 1 else p.gameNumber
    split <;> omega
  · intro hnumber game hg
    change origin.gameNumber =
      (if o = .startGame then p.gameNumber + 1 else p.gameNumber) at hnumber
    change next.1.game? = some game at hg
    cases historyChange_of_offers h.state ho he with
    | gone _ hn => simp [hn] at hg
    | started => simp at hnumber; omega
    | kept ho _ hsame =>
      have hnumber' : origin.gameNumber = p.gameNumber := by simpa [ho] using hnumber
      exact hfrom.sameRound hnumber' game (hsame ▸ hg)
    | @extended game₀ entries₀ _ game' round hs hg' hr =>
      obtain rfl : game' = game := Option.some.inj (hg'.symm.trans hg)
      have hnumber' : origin.gameNumber = p.gameNumber := by simpa using hnumber
      have hg₀ : p.state.game? = some game₀ := by
        rw [hs]
        rfl
      have hround := hfrom.sameRound hnumber' game₀ hg₀
      have hlt : k < game₀.rounds.length := (List.getElem?_eq_some_iff.mp hround).1
      rw [hr, List.getElem?_append_left hlt, hround]

inductive StepFrom (p : Page) : Event → Page → Prop where
  | idle {e} (hs : ∀ game entries, p.state = .inProgress game entries → e ≠ .click .submitRound) :
      StepFrom p e p
  | startEdit {k round} (hs : p.shownRound k = some round) :
      StepFrom p (.startEdit k) (p.startEdit k round)
  | cancelEdit : StepFrom p .cancelEdit p.cancelEdit
  | saveEdit {k round entries next} (hr : p.editedRow = some (k, round, entries))
      (he : editRound k entries p.state = .ok next) :
      StepFrom p .saveEdit { p.cancelEdit with state := next.1 }
  | bindCell {k round entries j entry p'} (hr : p.editedRow = some (k, round, entries))
      (he : p.bindCell entries j entry = .ok p') : StepFrom p (.bindCell j entry) p'
  | click {o next} (ho : offers p.state o) (he : Operation.perform p.state o = .ok next) :
      StepFrom p (.click o) { p with
        state := next.1
        gameNumber := if o = .startGame then p.gameNumber + 1 else p.gameNumber }

theorem stepFrom_of_step {p p' : Page} {e : Event} (he : p.step e = .ok p') :
    StepFrom p e p' := by
  cases e with
  | startEdit k =>
    rw [Page.step] at he
    split at he <;> cases he
    · next hs _ => exact .startEdit hs
    · exact .idle (by simp)
  | cancelEdit =>
    rw [Page.step] at he
    split at he <;> cases he
    · exact .cancelEdit
    · exact .idle (by simp)
  | saveEdit =>
    rw [Page.step] at he
    split at he
    · cases he
      exact .idle (by simp)
    · next k round entries hr =>
      obtain ⟨next, hedit, rfl⟩ : ∃ next, editRound k entries p.state = .ok next ∧
          { p.cancelEdit with state := next.1 } = p' := by simpa [Page.saveEdit] using he
      exact .saveEdit hr hedit
  | bindCell j entry =>
    rw [Page.step] at he
    split at he
    · cases he
      exact .idle (by simp)
    · next k round entries hr =>
      split at he
      · exact .bindCell hr he
      · cases he
        exact .idle (by simp)
  | click o =>
    rw [Page.step] at he
    split at he
    · next ho =>
      obtain ⟨next, hnext, rfl⟩ : ∃ next, o.perform p.state = .ok next ∧ { p with
          state := next.1
          gameNumber := if o = .startGame then p.gameNumber + 1 else p.gameNumber } = p' := by
        simpa using he
      exact .click ho hnext
    · next ho =>
      cases he
      refine .idle (fun game entries hs heq => ho ?_)
      obtain rfl : o = .submitRound := Page.Event.click.inj heq
      rw [hs]
      rfl

theorem Sound.step {p p' : Page} (h : p.Sound) {e : Event} (he : p.step e = .ok p') :
    p'.Sound := by
  cases stepFrom_of_step he with
  | idle => exact h
  | startEdit hs => exact h.startEdit hs
  | cancelEdit => exact .cancelEdit h.state
  | saveEdit hr hedit => exact .cancelEdit (h.state.editRound hedit).sound
  | bindCell hr hbind => exact h.bindCell (editedRow_eq_some.mp hr).2.1 hbind
  | click ho hnext => exact h.click ho hnext

/-- The fields were filled in for the game on screen, whenever a row is in edit mode. -/
def EditsCurrentGame (p : Page) : Prop :=
  ∀ roundIndex round entries o, p.editedRow = some (roundIndex, round, entries) →
    p.origin = some o → o.gameNumber = p.gameNumber

theorem editsCurrentGame_of_gone {p : Page} (h : p.state.game? = none) : p.EditsCurrentGame := by
  intro k round entries o hrow
  obtain ⟨game, hg, -⟩ := shownRound_eq_some.mp (editedRow_eq_some.mp hrow).2.2
  rw [h] at hg
  cases hg

/-- A submit keeps the edit mode with its game unless the fields point at the new row. -/
theorem editsCurrentGame_extended {p : Page} (h : p.Sound) (hcurrent : p.EditsCurrentGame)
    {game game' : Phase10Game} {entries : List RoundEntryModel} {state : Phase10GameState}
    {round : Phase10Round} (hs : p.state = .inProgress game entries)
    (hg : state.game? = some game') (hr : game'.rounds = game.rounds ++ [round]) :
    EditsCurrentGame { p with state := state } ↔
      (p.editEntries.isSome → p.editingRoundIndex ≠ some game.rounds.length) := by
  have hshown {k : ℕ} {r : Phase10Round} : shownRound { p with state := state } k = some r ↔
      (game.rounds ++ [round])[k]? = some r := by
    rw [shownRound_eq_some, ← hr]
    constructor
    · rintro ⟨g, hg', hk⟩
      obtain rfl : game' = g := Option.some.inj (hg.symm.trans hg')
      exact hk
    · intro hk
      exact ⟨_, hg, hk⟩
  have hgame : p.state.game? = some game := by
    rw [hs]
    rfl
  constructor
  · intro hnext hfields hindex
    obtain ⟨es, hes⟩ := Option.isSome_iff_exists.mp hfields
    obtain ⟨k, o, hk, hfrom⟩ := h.fields es hes
    obtain rfl : k = game.rounds.length := Option.some.inj (hk.symm.trans hindex)
    have hnew : shownRound { p with state := state } game.rounds.length = some round :=
      hshown.mpr (by simp)
    have hnumber := hnext _ round es o (editedRow_eq_some.mpr ⟨hindex, hes, hnew⟩) hfrom.origin
    -- a round of the game on screen stands before the new one
    have hround := hfrom.sameRound hnumber game hgame
    simp at hround
  · intro helsewhere k r es o hrow ho
    obtain ⟨hindex, hes, hk⟩ := editedRow_eq_some.mp hrow
    have hfields : p.editEntries.isSome := Option.isSome_iff_exists.mpr ⟨es, hes⟩
    have hne : k ≠ game.rounds.length := fun heq => helsewhere hfields (heq ▸ hindex)
    have hlt := (List.getElem?_eq_some_iff.mp (hshown.mp hk)).1
    have hold : k < game.rounds.length := by
      simp only [List.length_append, List.length_singleton] at hlt
      omega
    have hbefore : p.shownRound k = some game.rounds[k] :=
      shownRound_eq_some.mpr ⟨game, hgame, List.getElem?_eq_getElem hold⟩
    exact hcurrent k game.rounds[k] es o (editedRow_eq_some.mpr ⟨hindex, hes, hbefore⟩) ho

theorem submitsElsewhere_of_ne {p : Page} {e : Event} (h : e ≠ .click .submitRound) :
    SubmitsElsewhere p e := fun _ _ _ he => absurd he h

/-- One step keeps the edit mode with its game exactly under the condition. -/
theorem editsCurrentGame_step {p p' : Page} (h : p.Sound) (hcurrent : p.EditsCurrentGame)
    {e : Event} (he : p.step e = .ok p') : p'.EditsCurrentGame ↔ SubmitsElsewhere p e := by
  cases stepFrom_of_step he with
  | idle hs =>
    constructor
    · intro _ game entries hgame heq
      exact absurd heq (hs game entries hgame)
    · intro _
      exact hcurrent
  | startEdit hs =>
    refine ⟨fun _ => submitsElsewhere_of_ne (by simp), ?_⟩
    intro _ k round entries o hrow ho
    obtain rfl := Option.some.inj ho
    rfl
  | cancelEdit =>
    refine ⟨fun _ => submitsElsewhere_of_ne (by simp), ?_⟩
    intro _ k round entries o hrow ho
    cases ho
  | saveEdit =>
    refine ⟨fun _ => submitsElsewhere_of_ne (by simp), ?_⟩
    intro _ k round entries o hrow ho
    cases ho
  | @bindCell k round entries j entry p' hr hbind =>
    refine ⟨fun _ => submitsElsewhere_of_ne (by simp), ?_⟩
    intro _ k' round' entries' o hrow ho
    rw [Page.bindCell] at hbind
    split at hbind <;> cases hbind
    obtain ⟨hk, -, hshown⟩ := editedRow_eq_some.mp hrow
    obtain ⟨hk₀, hes, -⟩ := editedRow_eq_some.mp hr
    exact hcurrent k' round' entries o (editedRow_eq_some.mpr ⟨hk, hes, hshown⟩) ho
  | @click o next ho hnext =>
    cases historyChange_of_offers h.state ho hnext with
    | gone hsubmit hn =>
      exact ⟨fun _ => submitsElsewhere_of_ne (by simpa using hsubmit),
        fun _ => editsCurrentGame_of_gone hn⟩
    | started hg hr =>
      refine ⟨fun _ => submitsElsewhere_of_ne (by simp), ?_⟩
      intro _ k round entries o hrow ho
      obtain ⟨game, hg', hround⟩ := shownRound_eq_some.mp (editedRow_eq_some.mp hrow).2.2
      cases Option.some.inj (hg.symm.trans hg')
      simp [hr] at hround
    | kept hstart hsubmit hsame =>
      refine ⟨fun _ => submitsElsewhere_of_ne (by simpa using hsubmit), fun _ => ?_⟩
      intro k round entries o hrow ho
      obtain ⟨hk, hes, hshown⟩ := editedRow_eq_some.mp hrow
      have hshown' : p.shownRound k = some round := by
        rwa [shownRound, ← hsame]
      have hnumber := hcurrent k round entries o (editedRow_eq_some.mpr ⟨hk, hes, hshown'⟩) ho
      simpa [hstart] using hnumber
    | @extended game₀ entries₀ _ game' round hs hg' hr =>
      have hextended := editsCurrentGame_extended h hcurrent hs hg' hr
      simp only [reduceCtorEq, if_false]
      rw [hextended]
      constructor
      · intro helsewhere game entries hgame _
        obtain ⟨rfl, -⟩ := Phase10GameState.inProgress.inj (hs.symm.trans hgame)
        exact helsewhere
      · intro helsewhere
        exact helsewhere game₀ entries₀ hs rfl

/-- Along the events of a page, the edit mode belongs to the round on screen exactly when no round
is submitted to the place at which the edit fields point. -/
theorem edit_mode_belongs_iff {s : Session} (h : s.Reachable) (events : List Event) :
    Always Page.step EditModeBelongs (opened s.state) events ↔
      Along Page.step SubmitsElsewhere (opened s.state) events := by
  refine always_iff_along (I := Page.Sound) (fun _ _ _ hp he => hp.step he) ?_
    (sound_opened h.sound.state) ?_ events
  · intro p e p' hp hbelongs he
    rw [editModeBelongs_iff (hp.step he)]
    exact editsCurrentGame_step hp ((editModeBelongs_iff hp).mp hbelongs) he
  · rw [editModeBelongs_iff (sound_opened h.sound.state)]
    intro _ _ _ o _ ho
    cases ho

instance (p : Page) (e : Event) : Decidable (SubmitsElsewhere p e) :=
  match hp : p.state with
  | .setup _ => isTrue (by simp [SubmitsElsewhere, hp])
  | .complete _ _ _ => isTrue (by simp [SubmitsElsewhere, hp])
  | .inProgress game _ =>
    decidable_of_iff (e = .click .submitRound → p.editEntries.isSome →
        p.editingRoundIndex ≠ some game.rounds.length) (by simp [SubmitsElsewhere, hp])

/-- A round is submitted while the one before it is edited, a cell of which is changed and saved. -/
def editedAndSaved : List Event :=
  [.click (.typeNames ["Ann", "Bob"]), .click .startGame, .click .submitRound, .startEdit 0,
    .bindCell 1 ⟨25, false⟩, .click .submitRound, .saveEdit]

theorem edit_mode_belongs_launch : Session.Reachable .launch ∧
    Always Page.step EditModeBelongs (opened Session.launch.state) editedAndSaved := by
  have helsewhere : Along Page.step SubmitsElsewhere (opened Session.launch.state)
      editedAndSaved := by decide +kernel
  exact ⟨.launch, (edit_mode_belongs_iff .launch _).mpr helsewhere⟩

/-- A round of two is opened for editing, the game is abandoned, and a round of three is played. -/
def abandonedEdit : List Event :=
  [.click (.typeNames ["Ann", "Bob"]), .click .startGame, .click .submitRound, .startEdit 0,
    .click .abandonGame, .click .addPlayer, .click (.typeNames ["Ann", "Bob", "Cid"]),
    .click .startGame, .click .submitRound]

/-- The first round of the new game is rendered with the two edit entries of the old one. -/
theorem abandoned_edit_breaks_rendering : ∃ p : Page,
    Transition.run Page.step (opened Session.launch.state) abandonedEdit = .ok p ∧
    p.renderHistory = .error .indexOutOfRange ∧ ¬ p.EditModeBelongs := by
  obtain ⟨p, hrun, hp⟩ := run_of_eval Page.step (opened Session.launch.state) abandonedEdit
    (fun p => p.renderHistory = .error .indexOutOfRange ∧
      p.editedRow.map (fun row => p.renderRow row.2.1 row.1) = some (.error .indexOutOfRange))
    (by decide +kernel)
  obtain ⟨hrender, hrow⟩ := of_decide_eq_true hp
  obtain ⟨⟨k, round, entries⟩, hedited, hfault⟩ := Option.map_eq_some_iff.mp hrow
  refine ⟨p, hrun, hrender, fun hbelongs => ?_⟩
  obtain ⟨cells, hcells⟩ := (hbelongs k round entries hedited).renders
  rw [hcells] at hfault
  cases hfault

end Page

end HwoodiwissHelper.Phase10
