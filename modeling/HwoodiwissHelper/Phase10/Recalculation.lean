import HwoodiwissHelper.Library.KeyedList
import HwoodiwissHelper.Library.Milestone
import HwoodiwissHelper.Phase10.Session

/-!
# What submitting and recalculating compute

A player is a counter with goal ten over the entries recorded for its name. `standing` is the
player a whole record amounts to; the loops of `SubmitRoundAsync` and `RecalculateGameState`
are shown to be steps of that counter, and the entries they leave behind are described
exactly.
-/

namespace HwoodiwissHelper.Phase10

open Phase10GameService Transition Milestone KeyedList Phase10RoundEntry

namespace Phase10RoundEntry

/-- What an edit can change and a recalculation cannot. -/
def cell (e : Phase10RoundEntry) : Bool × Int32 := (e.phaseCompleted, e.pointsAdded)

def withPhase (phase : Int32) (e : Phase10RoundEntry) : Phase10RoundEntry :=
  { e with phase := phase }

end Phase10RoundEntry

/-- The phase a player stands at after completing a number of phases, ten at most. -/
def phaseAfter (hits : ℕ) : Int32 := Int32.ofNat (min 10 (1 + hits))

theorem toInt_phaseAfter (hits : ℕ) : (phaseAfter hits).toInt = min 10 (1 + hits) := by
  rw [phaseAfter, Int32.toInt_ofNat_of_lt (by omega)]

theorem phaseAfter_of_le {hits : ℕ} (h : 9 ≤ hits) : phaseAfter hits = 10 := by
  have hmin : min 10 (1 + hits) = 10 := by omega
  rw [phaseAfter, hmin]
  rfl

theorem phaseAfter_succ {hits : ℕ} (h : hits + 1 < 10) :
    phaseAfter hits + 1 = phaseAfter (hits + 1) := by
  have hl : min 10 (1 + hits) = 1 + hits := by omega
  have hr : min 10 (1 + (hits + 1)) = 1 + hits + 1 := by omega
  rw [phaseAfter, phaseAfter, hl, hr, Int32.ofNat_add (1 + hits) 1]
  rfl

theorem ten_le_phaseAfter_iff {hits : ℕ} : 10 ≤ phaseAfter hits ↔ 9 ≤ hits := by
  rw [Int32.le_iff_toInt_le, toInt_phaseAfter]
  change (10 : ℤ) ≤ _ ↔ _
  omega

theorem phaseAfter_eq_ten_iff {hits : ℕ} : phaseAfter hits = 10 ↔ 9 ≤ hits := by
  rw [← Int32.toInt_inj, toInt_phaseAfter]
  change _ = (10 : ℤ) ↔ _
  omega

abbrev Tally := Progress Int32

abbrev Tally.add (t : Tally) (e : Phase10RoundEntry) : Tally :=
  Progress.step (·.phaseCompleted) 10 (·.pointsAdded) t e

def playerOf (name : String) : Tally → Phase10Player
  | .running hits total => .active ⟨name, phaseAfter hits, total⟩
  | .done total => .completed ⟨name, total⟩

@[simp] theorem playerOf_playerName (name : String) (t : Tally) :
    (playerOf name t).playerName = name := by cases t <;> rfl

def tally (record : List Phase10RoundEntry) : Tally :=
  progress (·.phaseCompleted) 10 (·.pointsAdded) record

theorem tally_snoc (record : List Phase10RoundEntry) (e : Phase10RoundEntry) :
    tally (record ++ [e]) = (tally record).add e :=
  progress_append _ _ _ record e

theorem tally_open (record : List Phase10RoundEntry) : (tally record).Open 10 :=
  (Progress.open_start 10 (by omega)).foldl _ 10 _ record

theorem tally_counts (record : List Phase10RoundEntry) :
    (tally record).Counts 10 (record.countP (·.phaseCompleted)) := by
  rw [tally, progress_eq _ _ _ (by omega)]
  split
  · assumption
  · rfl

def standing (name : String) (record : List Phase10RoundEntry) : Phase10Player :=
  playerOf name (tally record)

@[simp] theorem standing_playerName (name : String) (record : List Phase10RoundEntry) :
    (standing name record).playerName = name := playerOf_playerName _ _

theorem zero_le_max (x : Int32) : 0 ≤ max 0 x := by
  change 0 ≤ if (0 : Int32) ≤ x then x else 0
  split
  · assumption
  · exact Int32.le_refl 0

theorem max_pointsAdded (e : Phase10RoundEntry) : max 0 e.pointsAdded = e.pointsAdded := by
  change (if (0 : Int32) ≤ e.pointsAdded then e.pointsAdded else 0) = e.pointsAdded
  rw [if_pos e.pointsAdded_nonneg]

def recordedEntry (name : String) (phase : Int32) (pending : RoundEntryModel) :
    Phase10RoundEntry :=
  ⟨name, phase, pending.phaseCompleted, max 0 pending.points, zero_le_max _⟩

/-- The two places that advance a player agree with the counter: `Phase >= 10` and
`Phase == 10` both say that the tenth phase is the one to complete. -/
theorem playerOf_add_running (name : String) {hits : ℕ} (total : Int32) (e : Phase10RoundEntry)
    (hlt : hits < 10) :
    playerOf name (Tally.add (.running hits total) e) =
      match e.phaseCompleted, decide (9 ≤ hits) with
      | true, true => .completed ⟨name, total + e.pointsAdded⟩
      | true, false => .active ⟨name, phaseAfter hits + 1, total + e.pointsAdded⟩
      | _, _ => .active ⟨name, phaseAfter hits, total + e.pointsAdded⟩ := by
  cases hc : e.phaseCompleted with
  | false => simp [Progress.step, hc, playerOf]
  | true =>
    by_cases h9 : 9 ≤ hits
    · have h10 : hits + 1 = 10 := by omega
      simp [Progress.step, hc, playerOf, h10, h9]
    · have h10 : hits + 1 ≠ 10 := by omega
      simp only [Progress.step, hc, if_true, h10, if_false, playerOf, h9, decide_false,
        phaseAfter_succ (show hits + 1 < 10 by omega)]

def submittedPlayer (active : Phase10Player.Active) (pending : RoundEntryModel) : Phase10Player :=
  match pending.phaseCompleted, decide (10 ≤ active.phase) with
  | true, true => .completed ⟨active.playerName, active.score + max 0 pending.points⟩
  | true, false =>
    .active ⟨active.playerName, active.phase + 1, active.score + max 0 pending.points⟩
  | _, _ => .active ⟨active.playerName, active.phase, active.score + max 0 pending.points⟩

@[simp] theorem submittedPlayer_playerName (active : Phase10Player.Active)
    (pending : RoundEntryModel) :
    (submittedPlayer active pending).playerName = active.playerName := by
  unfold submittedPlayer
  split <;> rfl

theorem submittedPlayer_eq (name : String) {hits : ℕ} (total : Int32) (pending : RoundEntryModel)
    (hlt : hits < 10) :
    submittedPlayer ⟨name, phaseAfter hits, total⟩ pending =
      playerOf name
        (Tally.add (.running hits total) (recordedEntry name (phaseAfter hits) pending)) := by
  rw [playerOf_add_running _ _ _ hlt]
  simp only [submittedPlayer, ten_le_phaseAfter_iff]
  rfl

theorem submitPlayer_eq (active : Phase10Player.Active) (pending : RoundEntryModel) :
    submitPlayer active pending =
      .ok (recordedEntry active.playerName active.phase pending,
        submittedPlayer active pending) := by
  simp only [submitPlayer, tryCreate_of_nonneg _ _ _ (zero_le_max pending.points), nullForgiving,
    ok_bind]
  rfl

/-- With every player active and a pending entry for each, a submit records one entry a seat. -/
theorem submitPlayers_eq (seats : List (Phase10Player.Active × RoundEntryModel)) :
    submitPlayers (seats.map (fun s => .active s.1)) (seats.map (·.2)) =
      .ok (seats.map (fun s => recordedEntry s.1.playerName s.1.phase s.2),
        seats.map (fun s => submittedPlayer s.1 s.2)) := by
  induction seats with
  | nil => rfl
  | cons seat seats ih =>
    simp only [List.map_cons, submitPlayers, submitPlayer_eq, ok_bind, ih]
    rfl

def editedEntry (existing : Phase10RoundEntry) (updated : RoundEntryModel) : Phase10RoundEntry :=
  ⟨existing.playerName, existing.phase, updated.phaseCompleted, max 0 updated.points,
    zero_le_max _⟩

def editedEntries : List Phase10RoundEntry → List RoundEntryModel → List Phase10RoundEntry
  | [], _ => []
  | entries, [] => entries
  | existing :: entries, updated :: updates =>
    editedEntry existing updated :: editedEntries entries updates

theorem editEntries_eq (entries : List Phase10RoundEntry) (updates : List RoundEntryModel) :
    editEntries entries updates = .ok (editedEntries entries updates) := by
  induction entries generalizing updates with
  | nil => rfl
  | cons existing entries ih =>
    cases updates with
    | nil => rfl
    | cons updated updates =>
      simp only [editEntries, tryCreate_of_nonneg _ _ _ (zero_le_max updated.points),
        nullForgiving, ok_bind, ih]
      rfl

theorem getElem?_editedEntries (entries : List Phase10RoundEntry) (updates : List RoundEntryModel)
    (i : ℕ) :
    (editedEntries entries updates)[i]? =
      match updates[i]? with
      | none => entries[i]?
      | some updated => (entries[i]?).map (editedEntry · updated) := by
  induction entries generalizing updates i with
  | nil => cases h : updates[i]? <;> simp [editedEntries]
  | cons existing entries ih =>
    cases updates with
    | nil => simp [editedEntries]
    | cons updated updates =>
      cases i with
      | zero => rfl
      | succ i => simpa [editedEntries] using ih updates i

@[simp] theorem map_playerName_editedEntries (entries : List Phase10RoundEntry)
    (updates : List RoundEntryModel) :
    (editedEntries entries updates).map (·.playerName) = entries.map (·.playerName) := by
  induction entries generalizing updates with
  | nil => rfl
  | cons existing entries ih =>
    cases updates with
    | nil => rfl
    | cons updated updates => simp [editedEntries, ih, editedEntry]

abbrev entryOf (name : String) (entries : List Phase10RoundEntry) : Option Phase10RoundEntry :=
  lookup Phase10RoundEntry.playerName name entries

theorem entryOf_editedEntries (name : String) (entries : List Phase10RoundEntry)
    (updates : List RoundEntryModel) :
    ∃ f : Phase10RoundEntry → Phase10RoundEntry, (∀ e, (f e).phase = e.phase) ∧
      entryOf name (editedEntries entries updates) = (entryOf name entries).map f := by
  induction entries generalizing updates with
  | nil => exact ⟨id, fun _ => rfl, by simp [editedEntries]⟩
  | cons existing entries ih =>
    cases updates with
    | nil => exact ⟨id, fun _ => rfl, by simp [editedEntries]⟩
    | cons updated updates =>
      by_cases h : existing.playerName = name
      · refine ⟨(editedEntry · updated), fun _ => rfl, ?_⟩
        simp [editedEntries, lookup_cons, editedEntry, h]
      · obtain ⟨f, hf, heq⟩ := ih updates
        refine ⟨f, hf, ?_⟩
        simpa [editedEntries, lookup_cons, editedEntry, h] using heq

def Tally.hear (t : Tally) : Option Phase10RoundEntry → Tally
  | none => t
  | some e => t.add e

/-- The phase a recalculation writes over an entry, for a player who is still active. -/
def Tally.rewrite (t : Tally) (e : Phase10RoundEntry) : Phase10RoundEntry :=
  match t with
  | .running hits _ => e.withPhase (phaseAfter hits)
  | .done _ => e

@[simp] theorem Tally.rewrite_playerName (t : Tally) (e : Phase10RoundEntry) :
    (t.rewrite e).playerName = e.playerName := by cases t <;> rfl

@[simp] theorem Tally.rewrite_cell (t : Tally) (e : Phase10RoundEntry) :
    (t.rewrite e).cell = e.cell := by cases t <;> rfl

theorem Tally.add_congr (t : Tally) {e f : Phase10RoundEntry} (h : e.cell = f.cell) :
    t.add e = t.add f := by
  obtain ⟨hc, hp⟩ := Prod.mk.inj h
  cases t with
  | done total => rfl
  | running hits total => simp only [Progress.step, hc, hp]

@[simp] theorem Tally.add_rewrite (t u : Tally) (e : Phase10RoundEntry) :
    t.add (u.rewrite e) = t.add e := t.add_congr (u.rewrite_cell e)

def rewriteEntry (t : Tally) (name : String) (entries : List Phase10RoundEntry) :
    List Phase10RoundEntry :=
  modifyFirst (fun e => e.playerName = name) t.rewrite entries

@[simp] theorem rewriteEntry_done (total : Int32) (name : String)
    (entries : List Phase10RoundEntry) :
    rewriteEntry (.done total) name entries = entries := by
  induction entries with
  | nil => rfl
  | cons e entries ih =>
    simp only [rewriteEntry, modifyFirst] at ih ⊢
    rw [ih]
    split <;> rfl

theorem entryOf_rewriteEntry (t : Tally) (name other : String) (entries : List Phase10RoundEntry) :
    entryOf other (rewriteEntry t name entries) =
      if other = name then (entryOf other entries).map t.rewrite else entryOf other entries :=
  lookup_modifyFirst _ t.rewrite_playerName name other entries

theorem hear_rewriteEntry (t u : Tally) (name other : String) (entries : List Phase10RoundEntry) :
    t.hear (entryOf other (rewriteEntry u name entries)) = t.hear (entryOf other entries) := by
  rw [entryOf_rewriteEntry]
  split
  · cases entryOf other entries <;> simp [Tally.hear]
  · rfl

theorem recalculatePlayer_eq (name : String) (t : Tally) (ht : t.Open 10)
    (entries : List Phase10RoundEntry) :
    recalculatePlayer entries (playerOf name t) =
      .ok (playerOf name (t.hear (entryOf name entries)), rewriteEntry t name entries) := by
  cases t with
  | done total =>
    cases entryOf name entries <;>
      simp [recalculatePlayer, playerOf, Tally.hear, Progress.step]
  | running hits total =>
    change recalculatePlayer entries (.active ⟨name, phaseAfter hits, total⟩) = _
    rw [recalculatePlayer]
    cases hfind : entries.findIdx? (fun e => decide (e.playerName = name)) with
    | none =>
      have hnone : entryOf name entries = none := by
        simpa [entryOf, lookup, List.findIdx?_eq_none_iff] using hfind
      rw [hnone, rewriteEntry, modifyFirst_of_find?_none hnone]
      rfl
    | some entryIndex =>
      obtain ⟨entry, hget, hentry, hset⟩ :=
        set_findIdx? (f := (Tally.rewrite (.running hits total))) hfind
      have hname : entry.playerName = name := by simpa using List.find?_some hentry
      have hentry' : entryOf name entries = some entry := hentry
      rw [hentry', Tally.hear, playerOf_add_running _ _ _ ht]
      simp only [hget, tryCreate_of_nonneg _ _ _ entry.pointsAdded_nonneg, nullForgiving, ok_bind,
        phaseAfter_eq_ten_iff, rewriteEntry, ← hset]
      subst hname
      rfl

/-- The entries of a round after all players have been recalculated, in seat order. -/
def rewriteEntries (tallyOf : String → Tally) : List String → List Phase10RoundEntry →
    List Phase10RoundEntry
  | [], entries => entries
  | name :: names, entries =>
    rewriteEntries tallyOf names (rewriteEntry (tallyOf name) name entries)

/-- Seats with one name are given the same tally, so each of them hears the same entry. -/
theorem recalculatePlayers_eq (tallyOf : String → Tally) (hopen : ∀ n, (tallyOf n).Open 10)
    (names : List String) (entries : List Phase10RoundEntry) :
    recalculatePlayers (names.map (fun n => playerOf n (tallyOf n))) entries =
      .ok (names.map (fun n => playerOf n ((tallyOf n).hear (entryOf n entries))),
        rewriteEntries tallyOf names entries) := by
  induction names generalizing entries with
  | nil => rfl
  | cons name names ih =>
    simp only [List.map_cons, recalculatePlayers, recalculatePlayer_eq _ _ (hopen name), ok_bind,
      ih, hear_rewriteEntry, rewriteEntries]
    rfl

theorem map_rewriteEntries {β : Type*} {g : Phase10RoundEntry → β}
    (hg : ∀ (t : Tally) e, g (t.rewrite e) = g e) (tallyOf : String → Tally)
    (names : List String) (entries : List Phase10RoundEntry) :
    (rewriteEntries tallyOf names entries).map g = entries.map g := by
  induction names generalizing entries with
  | nil => rfl
  | cons name names ih => rw [rewriteEntries, ih, rewriteEntry, map_modifyFirst (hg _)]

@[simp] theorem Tally.rewrite_rewrite (t : Tally) (e : Phase10RoundEntry) :
    t.rewrite (t.rewrite e) = t.rewrite e := by cases t <;> rfl

/-- The entry of a seated name carries the phase its tally says, however often the name is
seated. -/
theorem entryOf_rewriteEntries (tallyOf : String → Tally) (names : List String) (name : String)
    (entries : List Phase10RoundEntry) :
    entryOf name (rewriteEntries tallyOf names entries) =
      if name ∈ names then (entryOf name entries).map (tallyOf name).rewrite
      else entryOf name entries := by
  induction names generalizing entries with
  | nil => rfl
  | cons seated names ih =>
    rw [rewriteEntries, ih, entryOf_rewriteEntry]
    by_cases hs : name = seated
    · subst hs
      by_cases hm : name ∈ names
      · simp [hm, Function.comp_def]
      · simp [hm]
    · by_cases hm : name ∈ names
      · simp [hs, hm]
      · simp [hs, hm]

def recordOf (name : String) (rounds : List Phase10Round) : List Phase10RoundEntry :=
  rounds.filterMap (fun round => entryOf name round.entries)

theorem recordOf_cons (name : String) (round : Phase10Round) (rounds : List Phase10Round) :
    recordOf name (round :: rounds) =
      (entryOf name round.entries).toList ++ recordOf name rounds := by
  cases h : entryOf name round.entries <;> simp [recordOf, h]

theorem recordOf_append (name : String) (rounds rounds' : List Phase10Round) :
    recordOf name (rounds ++ rounds') = recordOf name rounds ++ recordOf name rounds' :=
  List.filterMap_append

def rewriteRounds (names : List String) : (String → Tally) → List Phase10Round → List Phase10Round
  | _, [] => []
  | tallyOf, round :: rounds =>
    { round with entries := rewriteEntries tallyOf names round.entries } ::
      rewriteRounds names (fun n => (tallyOf n).hear (entryOf n round.entries)) rounds

/-- A record with every entry rewritten to the phase its tally says at that point. -/
def rewriteRecord : Tally → List Phase10RoundEntry → List Phase10RoundEntry
  | _, [] => []
  | t, e :: record => t.rewrite e :: rewriteRecord (t.add e) record

theorem Tally.hear_open {t : Tally} (ht : t.Open 10) (e : Option Phase10RoundEntry) :
    (t.hear e).Open 10 := by
  cases e with
  | none => exact ht
  | some e => exact ht.step _ 10 _ e

theorem recalculateRounds_eq (names : List String) (tallyOf : String → Tally)
    (hopen : ∀ n, (tallyOf n).Open 10) (rounds : List Phase10Round) :
    recalculateRounds (names.map (fun n => playerOf n (tallyOf n))) rounds =
      .ok (names.map (fun n => playerOf n ((recordOf n rounds).foldl Tally.add (tallyOf n))),
        rewriteRounds names tallyOf rounds) := by
  induction rounds generalizing tallyOf with
  | nil => rfl
  | cons round rounds ih =>
    have hopen' (n : String) : ((tallyOf n).hear (entryOf n round.entries)).Open 10 :=
      Tally.hear_open (hopen n) _
    have hfold (n : String) :
        (recordOf n (round :: rounds)).foldl Tally.add (tallyOf n) =
          (recordOf n rounds).foldl Tally.add
            ((tallyOf n).hear (entryOf n round.entries)) := by
      rw [recordOf_cons, List.foldl_append]
      cases entryOf n round.entries <;> rfl
    simp only [recalculateRounds, recalculatePlayers_eq tallyOf hopen, ok_bind, ih _ hopen', hfold,
      rewriteRounds]
    rfl

theorem recordOf_rewriteRounds {names : List String} {name : String} (hname : name ∈ names)
    (tallyOf : String → Tally) (rounds : List Phase10Round) :
    recordOf name (rewriteRounds names tallyOf rounds) =
      rewriteRecord (tallyOf name) (recordOf name rounds) := by
  induction rounds generalizing tallyOf with
  | nil => rfl
  | cons round rounds ih =>
    simp only [rewriteRounds, recordOf_cons, ih, entryOf_rewriteEntries, if_pos hname]
    cases entryOf name round.entries <;> rfl

/-- A recalculation keeps the number of rounds, their numbers, and the names and cells in
them. -/
theorem map_rewriteRounds {β : Type*} {g : Phase10Round → β}
    (hg : ∀ round tallyOf names, g { round with
      entries := rewriteEntries tallyOf names round.entries } = g round)
    (names : List String) (tallyOf : String → Tally) (rounds : List Phase10Round) :
    (rewriteRounds names tallyOf rounds).map g = rounds.map g := by
  induction rounds generalizing tallyOf with
  | nil => rfl
  | cons round rounds ih => simp only [rewriteRounds, List.map_cons, hg, ih]

/-- The tally of a record does not depend on the recorded phases. -/
theorem foldl_rewriteRecord (t u : Tally) (record : List Phase10RoundEntry) :
    (rewriteRecord u record).foldl Tally.add t = record.foldl Tally.add t := by
  induction record generalizing t u with
  | nil => rfl
  | cons e record ih => simp only [rewriteRecord, List.foldl_cons, Tally.add_rewrite, ih]

theorem standing_rewriteRecord (name : String) (t : Tally) (record : List Phase10RoundEntry) :
    standing name (rewriteRecord t record) = standing name record :=
  congrArg (playerOf name) (foldl_rewriteRecord _ t record)

/-- The tally every name starts a recalculation with. -/
def noTally : Tally := .running 0 0

/-- The game after a recalculation: every player is what the record of its name amounts to. -/
def recalculated (game : Phase10Game) : Phase10Game where
  players := game.playerNames.map (fun n => standing n (recordOf n game.rounds))
  rounds := rewriteRounds game.playerNames (fun _ => noTally) game.rounds
  currentRound := game.currentRound

theorem recalculateGameState_eq (game : Phase10Game) :
    recalculateGameState game = .ok (recalculated game) := by
  have hopen : noTally.Open 10 := Progress.open_start 10 (by omega)
  have hstart (n : String) : Phase10Player.active ⟨n, 1, 0⟩ = playerOf n noTally := rfl
  simp only [recalculateGameState, hstart,
    recalculateRounds_eq game.playerNames (fun _ => noTally) (fun _ => hopen), ok_bind]
  rfl

@[simp] theorem recalculated_playerNames (game : Phase10Game) :
    (recalculated game).playerNames = game.playerNames := by
  simp [recalculated, Phase10Game.playerNames, Function.comp_def]

def withEdit (game : Phase10Game) (roundIndex : ℕ) (round : Phase10Round)
    (updates : List RoundEntryModel) : Phase10Game :=
  let edited : Phase10Round := { round with entries := editedEntries round.entries updates }
  { game with rounds := game.rounds.set roundIndex edited }

theorem editGame_eq (game : Phase10Game) (roundIndex : ℕ) (round : Phase10Round)
    (updates : List RoundEntryModel) :
    editGame game roundIndex round updates =
      .ok (recalculated (withEdit game roundIndex round updates)) := by
  simp only [editGame, editEntries_eq, ok_bind, recalculateGameState_eq, withEdit]

end HwoodiwissHelper.Phase10
