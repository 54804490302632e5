import HwoodiwissHelper.Phase10.EditOrder

/-!
# Runs of edits

An edit of the history recalculates everybody. So after edits of one game, in whichever order and
of whichever rounds, the cells of the history decide the game, with repeated names too; and edits
of one round amount to a single edit.
-/

namespace HwoodiwissHelper.Phase10

open Phase10GameService Transition KeyedList

structure RoundEdit where
  roundIndex : ℤ
  updatedEntries : List RoundEntryModel
  deriving DecidableEq, Repr

def RoundEdit.event (e : RoundEdit) : Archive.Event :=
  .call (.editRound e.roundIndex e.updatedEntries)

namespace ScoreSheet

def edits (sheet : ScoreSheet) (es : List RoundEdit) : ScoreSheet :=
  es.foldl (fun sheet e => sheet.edit e.roundIndex e.updatedEntries) sheet

theorem edits_cons (sheet : ScoreSheet) (e : RoundEdit) (es : List RoundEdit) :
    sheet.edits (e :: es) = (sheet.edit e.roundIndex e.updatedEntries).edits es := rfl

theorem edits_playerNames (sheet : ScoreSheet) (es : List RoundEdit) :
    (sheet.edits es).playerNames = sheet.playerNames := by
  induction es generalizing sheet with
  | nil => rfl
  | cons e es ih => rw [edits_cons, ih, edit_playerNames]

def HasRound (sheet : ScoreSheet) (r : ℤ) : Prop := 0 ≤ r ∧ r < sheet.rows.length

instance (sheet : ScoreSheet) (r : ℤ) : Decidable (sheet.HasRound r) :=
  inferInstanceAs (Decidable (_ ∧ _))

theorem edit_of_not_hasRound {sheet : ScoreSheet} {r : ℤ} (h : ¬ sheet.HasRound r)
    (updates : List RoundEntryModel) : sheet.edit r updates = sheet := by
  apply edit_of_not_mem
  rw [HasRound] at h
  omega

end ScoreSheet

theorem Phase10GameState.Sound.settled {state : Phase10GameState} (h : state.Sound)
    {game : Phase10Game} (hg : state.game? = some game) : ∃ entries, Settled game entries state := by
  cases h with
  | setup => cases hg
  | live hl he hs =>
    obtain rfl : _ = game := Option.some.inj (hs.game?.symm.trans hg)
    exact ⟨_, hs⟩

/-- What a run of edits leaves: the edited sheet, the kept phases, and, if one of the edits is of a
round of the history, the recorded players. -/
structure EditedAll (game : Phase10Game) (es : List RoundEdit) (game' : Phase10Game) : Prop where
  sheet : game'.sheet = game.sheet.edits es
  phases : ∀ i, Repeats game.playerNames i → ∀ j, game'.phaseAt j i = game.phaseAt j i
  recorded : Recorded game ∨ (∃ e ∈ es, game.sheet.HasRound e.roundIndex) → Recorded game'

theorem run_edits {s : Archive} (hs : s.state.Sound) {game : Phase10Game}
    (hg : s.state.game? = some game) (es : List RoundEdit) :
    ∃ t game', run Archive.step s (es.map (·.event)) = .ok t ∧ t.state.Sound ∧
      t.state.game? = some game' ∧ EditedAll game es game' := by
  induction es generalizing s game with
  | nil => exact ⟨s, game, rfl, hs, hg, rfl, fun _ _ _ => rfl, fun h => h.resolve_right (by simp)⟩
  | cons e es ih =>
    obtain ⟨r, updates⟩ := e
    by_cases hr : game.sheet.HasRound r
    · obtain ⟨a, game₁, entries, ha, hsettled, hsound, hedited⟩ :=
        editRound_edited hs hg hr updates
      let s₁ : Archive := ⟨a, s.saved ++ (saveGame a).saved⟩
      have hstep : s.step (RoundEdit.event ⟨r, updates⟩) = .ok s₁ := by
        simp [RoundEdit.event, Archive.step, Operation.perform, ha, s₁]
      obtain ⟨t, game', ht, hsound', hg', hall⟩ := ih (s := s₁) hsound hsettled.game?
      have hnames : game₁.playerNames = game.playerNames := by
        have hsheet := congrArg ScoreSheet.playerNames hedited.sheet
        rwa [ScoreSheet.edit_playerNames] at hsheet
      refine ⟨t, game', ?_, hsound', hg', ?_, ?_, fun _ => hall.recorded (.inl hedited.recorded)⟩
      · rw [List.map_cons, run_cons, hstep]
        exact ht
      · rw [hall.sheet, hedited.sheet, ScoreSheet.edits_cons]
      · intro i hi j
        rw [hall.phases i (by rwa [hnames]) j, hedited.phases i hi j]
    · have hstay : editRound r updates s.state = .ok (s.state, .none) :=
        editRound_outside (by rw [Phase10GameState.sheet?, hg]; rfl) hr updates
      have hstep : s.step (RoundEdit.event ⟨r, updates⟩) = .ok s := by
        simp [RoundEdit.event, Archive.step, Operation.perform, hstay, StoreCall.saved]
      obtain ⟨t, game', ht, hsound', hg', hall⟩ := ih hs hg
      refine ⟨t, game', ?_, hsound', hg', ?_, hall.phases, ?_⟩
      · rw [List.map_cons, run_cons, hstep]
        exact ht
      · rw [hall.sheet, ScoreSheet.edits_cons, ScoreSheet.edit_of_not_hasRound hr]
      · rintro (hrecorded | ⟨e, he, hround⟩)
        · exact hall.recorded (.inl hrecorded)
        · rcases List.mem_cons.mp he with rfl | he
          · exact absurd hround hr
          · exact hall.recorded (.inr ⟨e, he, hround⟩)

theorem edits_agree {s : Archive} (hs : s.state.Sound) {game : Phase10Game}
    (hg : s.state.game? = some game) (es es' : List RoundEdit)
    (hes : Recorded game ∨ ∃ e ∈ es, game.sheet.HasRound e.roundIndex)
    (hes' : Recorded game ∨ ∃ e ∈ es', game.sheet.HasRound e.roundIndex)
    (hsame : game.sheet.edits es = game.sheet.edits es') :
    ∃ t t', run Archive.step s (es.map (·.event)) = .ok t ∧
      run Archive.step s (es'.map (·.event)) = .ok t' ∧ Agree t.state t'.state := by
  obtain ⟨t, game₁, ht, hsound, hg₁, hall⟩ := run_edits hs hg es
  obtain ⟨t', game₂, ht', hsound', hg₂, hall'⟩ := run_edits hs hg es'
  refine ⟨t, t', ht, ht', ?_⟩
  have hsheet : game₁.sheet = game₂.sheet := by rw [hall.sheet, hall'.sheet, hsame]
  have hnames : game₁.playerNames = game.playerNames := by
    have hsheet := congrArg ScoreSheet.playerNames hall.sheet
    rwa [ScoreSheet.edits_playerNames] at hsheet
  obtain rfl := (hsound.ledger hg₁).eq_of_sheet (hsound'.ledger hg₂) (hall.recorded hes)
    (hall'.recorded hes') hsheet (by
      intro i hi j
      rw [hnames] at hi
      rw [hall.phases i hi j, hall'.phases i hi j])
  obtain ⟨_, hsettled⟩ := hsound.settled hg₁
  obtain ⟨_, hsettled'⟩ := hsound'.settled hg₂
  exact hsettled.agree hsettled'

theorem run_edits_outside {s : Archive} {es : List RoundEdit} (h : ∀ e ∈ es, ∀ game,
    s.state.game? = some game → ¬ game.sheet.HasRound e.roundIndex) :
    run Archive.step s (es.map (·.event)) = .ok s := by
  apply run_fixed
  intro event hevent
  obtain ⟨e, he, rfl⟩ := List.mem_map.mp hevent
  have hstay : editRound e.roundIndex e.updatedEntries s.state = .ok (s.state, .none) := by
    apply editRound_of_not_mem
    intro game hg
    have hout := h e he game hg
    have hlen : game.sheet.rows.length = game.rounds.length := by simp [Phase10Game.sheet]
    rw [ScoreSheet.HasRound] at hout
    omega
  simp [RoundEdit.event, Archive.step, Operation.perform, hstay, StoreCall.saved]

theorem Ledger.recorded_of_nodup {game : Phase10Game} (h : Ledger game)
    (hn : game.playerNames.Nodup) : Recorded game := by
  have hplayer : ∀ p ∈ game.players,
      standing p.playerName (recordOf p.playerName game.rounds) = p := by
    intro p hp
    have hname : p.playerName ∈ game.playerNames := List.mem_map_of_mem hp
    have hlook : lookup Phase10Player.playerName p.playerName game.players = some p :=
      lookup_of_nodup _ hn hp
    rw [h.standings _ hname] at hlook
    exact Option.some.inj hlook
  rw [Recorded, Phase10Game.playerNames, List.map_map]
  exact ((List.map_congr_left hplayer).trans (List.map_id' _)).symm

/-- In every reachable game, runs of edits that write the same cells, in any order and in any number
of edits, end in the same state up to pending entries. Where names repeat, one edit of each run is
of a round of the history, so that everybody is recalculated. -/
theorem cells_decide_edits {s : Archive} (hs : s.Reachable) {game : Phase10Game}
    (hg : s.state.game? = some game) {es es' : List RoundEdit}
    (h : game.playerNames.Nodup ∨ (∃ e ∈ es, game.sheet.HasRound e.roundIndex) ∧
      ∃ e ∈ es', game.sheet.HasRound e.roundIndex)
    (hsame : game.sheet.edits es = game.sheet.edits es') :
    ∃ t t', run Archive.step s (es.map (·.event)) = .ok t ∧
      run Archive.step s (es'.map (·.event)) = .ok t' ∧ Agree t.state t'.state := by
  have hs := hs.sound.state
  rcases h with hn | ⟨hes, hes'⟩
  · have hrecorded := (hs.ledger hg).recorded_of_nodup hn
    exact edits_agree hs hg es es' (.inl hrecorded) (.inl hrecorded) hsame
  · exact edits_agree hs hg es es' (.inr hes) (.inr hes') hsame

def backAndForth : List RoundEdit :=
  [⟨0, [⟨3, false⟩]⟩, ⟨1, [⟨0, true⟩, ⟨9, false⟩]⟩, ⟨0, [⟨5, true⟩, ⟨4, true⟩]⟩, ⟨1, [⟨7, false⟩]⟩]

def inOneGo : List RoundEdit :=
  [⟨2, []⟩, ⟨1, [⟨7, false⟩, ⟨9, false⟩]⟩, ⟨0, [⟨5, true⟩, ⟨4, true⟩, ⟨1, true⟩]⟩]

theorem cells_decide_edits_namesakes : ∃ (s : Archive) (game : Phase10Game), s.Reachable ∧
    s.state.game? = some game ∧ game.playerNames = ["Ann", "Ann"] ∧
    ∃ t t', run Archive.step s (backAndForth.map (·.event)) = .ok t ∧
      run Archive.step s (inOneGo.map (·.event)) = .ok t' ∧ Agree t.state t'.state := by
  obtain ⟨s, hs, hp⟩ := Session.reachable_of_run
    ([.call (.typeNames ["Ann", "Ann"]), .call .startGame] ++
      Session.playRound [⟨1, true⟩, ⟨2, true⟩] ++ Session.playRound [⟨0, false⟩, ⟨8, true⟩])
    (fun s => s.state.sheet? = some ⟨["Ann", "Ann"],
      [[(true, 1), (true, 2)], [(false, 0), (true, 8)]]⟩) (by decide +kernel)
  obtain ⟨game, hg, hsheet⟩ := Option.map_eq_some_iff.mp (of_decide_eq_true hp)
  obtain ⟨saved, hreach, -⟩ := hs.archive
  have hnames : game.playerNames = ["Ann", "Ann"] := congrArg ScoreSheet.playerNames hsheet
  refine ⟨⟨s.state, saved⟩, game, hreach, hg, hnames,
    cells_decide_edits hreach hg (.inr ⟨?_, ?_⟩) ?_⟩
  · rw [hsheet]
    decide
  · rw [hsheet]
    decide
  · rw [hsheet]
    decide

theorem overwrite_nil (row : List Cell) : overwrite row [] = row := by simp [overwrite]

theorem nil_overwrite (updates : List RoundEntryModel) : overwrite [] updates = [] := by
  simp [overwrite]

theorem cons_overwrite_cons (cell : Cell) (row : List Cell) (updated : RoundEntryModel)
    (updates : List RoundEntryModel) :
    overwrite (cell :: row) (updated :: updates) = updated.clamped :: overwrite row updates := by
  simp [overwrite]

theorem overwrite_overwrite (row : List Cell) (e₁ e₂ : List RoundEntryModel) :
    overwrite (overwrite row e₁) e₂ = overwrite row (e₂ ++ e₁.drop e₂.length) := by
  induction row generalizing e₁ e₂ with
  | nil => simp only [nil_overwrite]
  | cons cell row ih =>
    cases e₂ with
    | nil => simp only [overwrite_nil, List.nil_append, List.length_nil, List.drop_zero]
    | cons updated e₂ =>
      cases e₁ with
      | nil => simp only [overwrite_nil, List.drop_nil, List.append_nil]
      | cons first e₁ =>
        rw [cons_overwrite_cons, cons_overwrite_cons, ih, List.length_cons, List.drop_succ_cons,
          List.cons_append, cons_overwrite_cons]

theorem ScoreSheet.edit_edit (sheet : ScoreSheet) (r : ℤ) (e₁ e₂ : List RoundEntryModel) :
    (sheet.edit r e₁).edit r e₂ = sheet.edit r (e₂ ++ e₁.drop e₂.length) := by
  by_cases h : 0 ≤ r ∧ r < sheet.rows.length
  · simp only [edit, h, and_self, if_true, List.length_modify, List.modify_modify_eq]
    congr 2
    funext row
    exact overwrite_overwrite row e₁ e₂
  · have hout : r < 0 ∨ (sheet.rows.length : ℤ) ≤ r := by omega
    rw [edit_of_not_mem hout, edit_of_not_mem hout, edit_of_not_mem hout]

/-- In every reachable state two edits of one round are one edit, up to pending entries: the later
one, with what the earlier one changed beyond it. Names may repeat. -/
theorem edits_of_round_compose {s : Archive} (hs : s.Reachable) (r : ℤ)
    (e₁ e₂ : List RoundEntryModel) :
    ∃ t t', run Archive.step s [.call (.editRound r e₁), .call (.editRound r e₂)] = .ok t ∧
      run Archive.step s [.call (.editRound r (e₂ ++ e₁.drop e₂.length))] = .ok t' ∧
      Agree t.state t'.state := by
  let es : List RoundEdit := [⟨r, e₁⟩, ⟨r, e₂⟩]
  let es' : List RoundEdit := [⟨r, e₂ ++ e₁.drop e₂.length⟩]
  by_cases hr : ∃ game, s.state.game? = some game ∧ game.sheet.HasRound r
  · obtain ⟨game, hg, hr⟩ := hr
    exact edits_agree hs.sound.state hg es es'
      (.inr ⟨⟨r, e₁⟩, by simp [es], hr⟩) (.inr ⟨_, List.mem_singleton_self _, hr⟩)
      (game.sheet.edit_edit r e₁ e₂)
  · have hout (es : List RoundEdit) (hes : ∀ e ∈ es, e.roundIndex = r) :
        run Archive.step s (es.map (·.event)) = .ok s := by
      apply run_edits_outside
      intro e he game hg hround
      rw [hes e he] at hround
      exact hr ⟨game, hg, hround⟩
    exact ⟨s, s, hout es (by simp [es]), hout es' (by simp [es']), agree_refl s.state⟩

/-- Two edits of a round of namesakes, the second one shorter. -/
theorem edits_of_round_compose_namesakes : ∃ (s : Archive) (game : Phase10Game), s.Reachable ∧
    s.state.game? = some game ∧ game.playerNames = ["Ann", "Ann"] ∧
    ∃ t t', run Archive.step s [.call (.editRound 0 [⟨3, false⟩, ⟨4, true⟩]),
        .call (.editRound 0 [⟨5, true⟩])] = .ok t ∧
      run Archive.step s [.call (.editRound 0 [⟨5, true⟩, ⟨4, true⟩])] = .ok t' ∧
      Agree t.state t'.state := by
  obtain ⟨s, hs, hp⟩ := Session.reachable_of_run
    ([.call (.typeNames ["Ann", "Ann"]), .call .startGame] ++
      Session.playRound [⟨1, true⟩, ⟨2, true⟩])
    (fun s => s.state.game?.map (·.playerNames) = some ["Ann", "Ann"]) (by decide +kernel)
  obtain ⟨game, hg, hnames⟩ := Option.map_eq_some_iff.mp (of_decide_eq_true hp)
  obtain ⟨saved, hreach, -⟩ := hs.archive
  exact ⟨⟨s.state, saved⟩, game, hreach, hg, hnames, edits_of_round_compose hreach 0 _ _⟩

end HwoodiwissHelper.Phase10
