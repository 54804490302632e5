import HwoodiwissHelper.Phase10.Soundness

/-!
# Loading damaged data

What `GetItemAsync` returns need not be what a service saved. Deserialisation takes an explicit
null for every list and every element of one, and the four places that say who has completed the
game may contradict each other. `ParseStoredGame` checks none of this.
-/

namespace HwoodiwissHelper.Phase10

open Phase10GameService Transition

structure RawRound where
  roundNumber : Int32 := 0
  entries : Option (List (Option Phase10RoundEntry)) := some []
  deriving DecidableEq, Repr

/-- A `Phase10StoredGame` as it comes out of the store. A null name is copied, compared and shown
like any other name, so it stands as one of them. -/
structure RawGame where
  players : Option (List (Option Phase10StoredPlayer)) := some []
  rounds : Option (List (Option RawRound)) := some []
  currentRound : Int32 := 1
  isComplete : Bool := false
  deriving DecidableEq, Repr

inductive LoadException where
  | argumentNull
  | nullReference
  | invalidOperation
  deriving DecidableEq, Repr

structure LoadedGame where
  players : List Phase10Player
  rounds : Option (List (Option RawRound))
  currentRound : Int32
  deriving DecidableEq, Repr

/-- The state after a load: the one before it, or that of the stored game. -/
inductive LoadedState where
  | previous (state : Phase10GameState)
  | inProgress (game : LoadedGame) (entries : List RoundEntryModel)
  | complete (game : LoadedGame) (winner : Phase10Player.Completed) (completedPlayerCount : ℕ)
  deriving DecidableEq, Repr

def parseRawPlayer : Option Phase10StoredPlayer → Except LoadException Phase10Player
  | none => .error .nullReference
  | some p => .ok (parseStoredPlayer p)

def parsePlayers : Option (List (Option Phase10StoredPlayer)) →
    Except LoadException (List Phase10Player)
  | none => .error .argumentNull
  | some players => players.mapM parseRawPlayer

/-- `ParseStoredGame` with the nulls of its argument. -/
def parseRawGame (stored : RawGame) : Except LoadException LoadedState := do
  let players ← parsePlayers stored.players
  let game : LoadedGame := ⟨players, stored.rounds, stored.currentRound⟩
  if stored.isComplete then
    let completedPlayers := players.filterMap (·.asCompleted)
    match lowestScore completedPlayers with
    | .error _ => .error .invalidOperation
    | .ok winner => return .complete game winner completedPlayers.length
  else
    return .inProgress game (players.map (fun _ => {}))

/-- `LoadGameAsync`, given what `GetItemAsync` returned. -/
def loadRawGame (item : Option RawGame) (state : Phase10GameState) :
    Except LoadException LoadedState :=
  match item with
  | none => .ok (.previous state)
  | some stored => parseRawGame stored

def renderRawEntry : Option Phase10RoundEntry → Except LoadException Unit
  | none => .error .nullReference
  | some _ => .ok ()

def renderRawRound : Option RawRound → Except LoadException Unit
  | none => .error .nullReference
  | some round =>
    match round.entries with
    | none => .error .nullReference
    | some entries => entries.forM renderRawEntry

/-- The round history. A game in progress counts the rounds first, one that is over selects from
them at once. -/
def renderRawHistory (onNull : LoadException) :
    Option (List (Option RawRound)) → Except LoadException Unit
  | none => .error onNull
  | some rounds => rounds.forM renderRawRound

/-- The first rendering of the page. Nothing in a state of the service itself is null. -/
def LoadedState.render : LoadedState → Except LoadException Unit
  | .previous _ => .ok ()
  | .inProgress game _ => renderRawHistory .nullReference game.rounds
  | .complete game _ _ => renderRawHistory .argumentNull game.rounds

def RawRound.round? (round : RawRound) : Option Phase10Round := do
  return ⟨round.roundNumber, ← (← round.entries).mapM id⟩

def rounds? (rounds : Option (List (Option RawRound))) : Option (List Phase10Round) := do
  (← rounds).mapM (·.bind RawRound.round?)

def RawGame.game? (stored : RawGame) : Option Phase10StoredGame := do
  return { players := ← (← stored.players).mapM id
           rounds := ← rounds? stored.rounds
           currentRound := stored.currentRound
           isComplete := stored.isComplete }

def LoadedGame.game? (game : LoadedGame) : Option Phase10Game := do
  return { players := game.players
           rounds := ← rounds? game.rounds
           currentRound := game.currentRound }

def LoadedState.state? : LoadedState → Option Phase10GameState
  | .previous state => some state
  | .inProgress game entries => game.game?.map (.inProgress · entries)
  | .complete game winner count => game.game?.map (.complete · winner count)

/-- A state the page can go on with, after a load that did not keep the previous one. -/
def LoadedState.WellFormed : LoadedState → Prop
  | .previous _ => True
  | .inProgress game entries =>
    (∀ p ∈ game.players, ∃ a, p = .active a ∧ 1 ≤ a.phase ∧ a.phase ≤ 10) ∧
      entries.length = game.players.length
  | .complete game winner _ => .completed winner ∈ game.players

/-- A session in which a submit records an entry for every player, and from whose store a page can
be opened. -/
structure Session.Serves (s : Session) : Prop where
  submits : ∀ game entries, s.state = .inProgress game entries → ∃ state call round,
    submitRound s.state = .ok (state, call) ∧
    state.game?.map (·.rounds) = some (game.rounds ++ [round]) ∧
    round.entries.map (·.playerName) = game.playerNames
  opens : ∃ state, loadGame s.store initial = .ok state

/-- Loading an item ends well: no exception, the previous state or a well-formed one, a page that
renders, and later sessions that serve, also when they load the item again. -/
def Harmless (item : Option RawGame) (previous : Phase10GameState) : Prop :=
  ∃ loaded, loadRawGame item previous = .ok loaded ∧ loaded.WellFormed ∧ loaded.render = .ok () ∧
    ∀ state, loaded.state? = some state → ∀ events s,
      run Session.step ⟨state, item.bind RawGame.game?⟩ events = .ok s → s.Serves

/-- Nothing is null, a complete game has a completed player, and in any other game nobody has
completed and every phase is one of the ten. -/
def RawGame.Consistent (stored : RawGame) : Prop :=
  ∃ game, stored.game? = some game ∧
    (game.isComplete = true → ∃ p ∈ game.players, p.completedGame = true) ∧
    (game.isComplete = false → ∀ p ∈ game.players,
      p.completedGame = false ∧ 1 ≤ p.currentPhase ∧ p.currentPhase ≤ 10)

/-- What is left of soundness when the history may say anything. -/
inductive Phase10GameState.Playable : Phase10GameState → Prop where
  | setup (playerNames) : Playable (.setup playerNames)
  | inProgress {game entries} (hc : game.completedPlayers = [])
      (he : entries.length = game.players.length) : Playable (.inProgress game entries)
  | complete {game} (winner count) (hc : game.completedPlayers ≠ []) :
      Playable (.complete game winner count)

def Phase10StoredGame.Playable (stored : Phase10StoredGame) : Prop :=
  ∃ state, parseStoredGame stored = .ok state ∧ state.Playable

theorem Settled.playable {game : Phase10Game} {entries : List RoundEntryModel}
    {state : Phase10GameState} (h : Settled game entries state)
    (he : entries.length = game.players.length) : state.Playable := by
  cases h with
  | inProgress hc => exact .inProgress hc he
  | complete hc => exact .complete _ _ hc

theorem Phase10GameState.Sound.playable {state : Phase10GameState} (h : state.Sound) :
    state.Playable := by
  cases h with
  | setup names => exact .setup names
  | live _ he hs => exact hs.playable he

def Phase10StoredGame.game (stored : Phase10StoredGame) : Phase10Game where
  players := stored.players.map parseStoredPlayer
  rounds := stored.rounds
  currentRound := stored.currentRound

/-- A stored game can be played on when it is marked complete exactly if somebody completed it. -/
theorem playable_of_isComplete {stored : Phase10StoredGame}
    (h : stored.isComplete = true ↔ stored.game.completedPlayers ≠ []) : stored.Playable := by
  by_cases hcomplete : stored.isComplete = true
  · have hne := h.mp hcomplete
    obtain ⟨winner, hw⟩ := lowestScore_ok hne
    refine ⟨.complete stored.game winner stored.game.completedPlayers.length, ?_,
      .complete _ _ hne⟩
    rw [parseStoredGame, if_pos hcomplete]
    change (lowestScore stored.game.completedPlayers >>= fun winner => _) = _
    rw [hw]
    rfl
  · have hnil : stored.game.completedPlayers = [] := by
      by_contra hne
      exact hcomplete (h.mpr hne)
    refine ⟨.inProgress stored.game (initEntries stored.game), ?_,
      .inProgress hnil (initEntries_length _)⟩
    rw [parseStoredGame, if_neg hcomplete]
    rfl

theorem game_toStoredGame (game : Phase10Game) (isComplete : Bool) :
    (toStoredGame game isComplete).game = game := by
  rw [Phase10StoredGame.game, toStoredGame, map_parseStoredPlayer]

theorem Phase10GameState.Playable.saved {state : Phase10GameState} (h : state.Playable)
    {stored : Phase10StoredGame} (hs : saveGame state = .setItem stored) : stored.Playable := by
  cases h with
  | setup names => cases hs
  | @inProgress game entries hc he =>
    obtain rfl : toStoredGame game false = stored := StoreCall.setItem.inj hs
    apply playable_of_isComplete
    rw [game_toStoredGame]
    exact ⟨fun hfalse => (by cases hfalse), fun hne => absurd hc hne⟩
  | @complete game winner count hc =>
    obtain rfl : toStoredGame game true = stored := StoreCall.setItem.inj hs
    apply playable_of_isComplete
    rw [game_toStoredGame]
    exact ⟨fun _ => hc, fun _ => rfl⟩

namespace Phase10GameState.Playable

variable {state : Phase10GameState} (h : state.Playable)
include h

theorem addPlayer : (Phase10GameService.addPlayer state).Playable := by
  cases h with
  | setup names =>
    rw [Phase10GameService.addPlayer]
    split <;> exact .setup _
  | inProgress hc hlen => exact .inProgress hc hlen
  | complete winner count hc => exact .complete winner count hc

theorem removePlayer {index : ℤ} {state' : Phase10GameState}
    (hr : Phase10GameService.removePlayer index state = .ok state') : state'.Playable := by
  cases h with
  | setup names =>
    rw [Phase10GameService.removePlayer] at hr
    split at hr
    · cases hr
      exact .setup _
    · split at hr <;> cases hr
      exact .setup _
  | inProgress hc hlen =>
    cases hr
    exact .inProgress hc hlen
  | complete winner count hc =>
    cases hr
    exact .complete winner count hc

theorem typeNames (names : List String) : (Phase10.typeNames names state).Playable := by
  cases h with
  | setup _ => exact .setup names
  | inProgress hc hlen => exact .inProgress hc hlen
  | complete winner count hc => exact .complete winner count hc

theorem typeEntry (index : ℕ) (entry : RoundEntryModel) :
    (Phase10.typeEntry index entry state).Playable := by
  cases h with
  | setup names => exact .setup names
  | inProgress hc hlen => exact .inProgress hc (by simpa using hlen)
  | complete winner count hc => exact .complete winner count hc

theorem startGame :
    (Phase10GameService.startGame state).1.Playable ∧
      ((Phase10GameService.startGame state).2 = .none ∨
        (Phase10GameService.startGame state).2 =
          saveGame (Phase10GameService.startGame state).1) := by
  cases h with
  | setup names =>
    by_cases hn : canStart names
    · have hc : (newGameOf names).completedPlayers = [] := by
        simp [Phase10Game.completedPlayers, newGameOf, Phase10Player.asCompleted]
      rw [Phase10GameService.startGame, if_pos hn]
      exact ⟨.inProgress hc (initEntries_length _), .inr rfl⟩
    · rw [Phase10GameService.startGame, if_neg hn]
      exact ⟨.setup names, .inl rfl⟩
  | inProgress hc hlen => exact ⟨.inProgress hc hlen, .inl rfl⟩
  | complete winner count hc => exact ⟨.complete winner count hc, .inl rfl⟩

theorem perform {operation : Operation} {next : Phase10GameState × StoreCall}
    (he : operation.perform state = .ok next) :
    next.1.Playable ∧ (next.2 = .none ∨ next.2 = .removeItem ∨ next.2 = saveGame next.1) := by
  have hkept {state' : Phase10GameState} (hp : state'.Playable) (hn : (state', .none) = next) :
      next.1.Playable ∧ (next.2 = .none ∨ next.2 = .removeItem ∨ next.2 = saveGame next.1) := by
    cases hn
    exact ⟨hp, .inl rfl⟩
  cases operation with
  | submitRound =>
    cases h with
    | setup names => exact hkept (.setup names) (Except.ok.inj he)
    | complete winner count hc => exact hkept (.complete winner count hc) (Except.ok.inj he)
    | inProgress hc hlen =>
      obtain ⟨seats, state', hseats, hentries, hsubmit, hsettled⟩ := submitRound_settles hc hlen
      cases hsubmit.symm.trans he
      exact ⟨hsettled.playable (by simp [submittedGame, hentries]), .inr (.inr rfl)⟩
  | editRound roundIndex updates =>
    rcases roundIndex_cases state roundIndex with hout | ⟨game, k, round, hg, rfl, hround⟩
    · exact hkept h (Except.ok.inj ((editRound_of_not_mem hout updates).symm.trans he))
    · obtain ⟨state', hedit, hsettled⟩ := editRound_settles hg hround updates
      have hlen := entriesAfterEdit_length hg
        (recalculated_playerNames (withEdit game k round updates)) (by
          rintro game' entries rfl
          cases h with
          | inProgress _ hlen => exact hlen)
      cases hedit.symm.trans he
      exact ⟨hsettled.playable hlen, .inr (.inr rfl)⟩
  | startGame =>
    cases he
    exact ⟨h.startGame.1, h.startGame.2.imp_right .inr⟩
  | abandonGame => cases he; exact ⟨.setup _, .inr (.inl rfl)⟩
  | newGame => cases he; exact ⟨.setup _, .inr (.inl rfl)⟩
  | addPlayer => exact hkept h.addPlayer (Except.ok.inj he)
  | removePlayer index =>
    obtain ⟨state', hremove, hnext⟩ : ∃ state',
        Phase10GameService.removePlayer index state = .ok state' ∧ (state', .none) = next := by
      simpa [Operation.perform] using he
    exact hkept (h.removePlayer hremove) hnext
  | typeNames names => exact hkept (h.typeNames names) (Except.ok.inj he)
  | typeEntry index entry => exact hkept (h.typeEntry index entry) (Except.ok.inj he)

end Phase10GameState.Playable

namespace Session

structure Playable (s : Session) : Prop where
  state : s.state.Playable
  store : ∀ stored, s.store = some stored → stored.Playable

theorem Playable.step {s s' : Session} (h : s.Playable) {e : Event} (he : s.step e = .ok s') :
    s'.Playable := by
  cases e with
  | load =>
    obtain ⟨state, hload, rfl⟩ : ∃ state, loadGame s.store s.state = .ok state ∧
        { s with state := state } = s' := by simpa [Session.step] using he
    refine ⟨?_, h.store⟩
    cases hstore : s.store with
    | none =>
      obtain rfl : s.state = state := by simpa [loadGame, hstore] using hload
      exact h.state
    | some stored =>
      obtain ⟨state', hparse, hplayable⟩ := h.store stored hstore
      rw [hstore, loadGame, hparse] at hload
      exact Except.ok.inj hload ▸ hplayable
  | call operation =>
    obtain ⟨next, hnext, rfl⟩ := perform_of_step he
    obtain ⟨hplayable, hcall⟩ := h.state.perform hnext
    refine ⟨hplayable, ?_⟩
    intro stored hstored
    change next.2.apply s.store = some stored at hstored
    rcases hcall with hcall | hcall | hcall
    · rw [hcall] at hstored
      exact h.store stored hstored
    · rw [hcall] at hstored
      cases hstored
    · rw [hcall] at hstored
      cases hsave : saveGame next.1 with
      | none =>
        rw [hsave] at hstored
        exact h.store stored hstored
      | setItem value =>
        rw [hsave] at hstored
        obtain rfl : value = stored := Option.some.inj hstored
        exact hplayable.saved hsave
      | removeItem =>
        rw [hsave] at hstored
        cases hstored

theorem Playable.serves {s : Session} (h : s.Playable) : s.Serves where
  submits := by
    intro game entries hstate
    have hplayable := h.state
    rw [hstate] at hplayable
    cases hplayable with
    | inProgress hc he =>
      obtain ⟨seats, state, hseats, -, hsubmit, hsettled⟩ := submitRound_settles hc he
      refine ⟨state, saveGame state, ⟨game.currentRound, seats.map Seat.recorded⟩, ?_, ?_, ?_⟩
      · rw [hstate]
        exact hsubmit
      · rw [hsettled.game?]
        rfl
      · rw [playerNames_eq_seats hseats, List.map_map]
        rfl
  opens := by
    cases hstore : s.store with
    | none => exact ⟨initial, rfl⟩
    | some stored =>
      obtain ⟨state, hparse, -⟩ := h.store stored hstore
      exact ⟨state, hparse⟩

theorem Playable.run_serves {s t : Session} (h : s.Playable) {events : List Event}
    (hrun : run Session.step s events = .ok t) : t.Serves :=
  (run_invariant (I := Session.Playable) (fun _ _ _ h he => h.step he) h hrun).serves

end Session

theorem mapM_id_eq_some {α : Type} {l : List (Option α)} {xs : List α} :
    l.mapM id = some xs ↔ l = xs.map some := by
  induction l generalizing xs with
  | nil => cases xs <;> simp
  | cons o l ih =>
    cases o with
    | none => cases xs <;> simp
    | some a =>
      rw [List.mapM_cons]
      cases h : l.mapM id with
      | none =>
        have hnone : ∀ ys : List α, l ≠ ys.map some := by
          intro ys hys
          rw [ih.mpr hys] at h
          cases h
        cases xs with
        | nil => simp
        | cons b xs => simp [hnone xs]
      | some ys =>
        obtain rfl := ih.mp h
        cases xs with
        | nil => simp
        | cons b xs => simp [(Option.some_injective α).list_map.eq_iff]

theorem mapM_eq_ok_iff {α β ε : Type} {f : Option α → Except ε β} {g : α → β} {error : ε}
    (hnone : f none = .error error) (hsome : ∀ a, f (some a) = .ok (g a)) {l : List (Option α)}
    {ys : List β} : l.mapM f = .ok ys ↔ ∃ xs : List α, l = xs.map some ∧ xs.map g = ys := by
  induction l generalizing ys with
  | nil =>
    constructor
    · intro h
      exact ⟨[], rfl, Except.ok.inj h⟩
    · rintro ⟨xs, hxs, rfl⟩
      obtain rfl : xs = [] := List.map_eq_nil_iff.mp hxs.symm
      rfl
  | cons o l ih =>
    rw [List.mapM_cons]
    cases o with
    | none =>
      rw [hnone]
      constructor
      · intro h
        cases h
      · rintro ⟨xs, hxs, -⟩
        cases xs <;> simp at hxs
    | some a =>
      rw [hsome, ok_bind, bind_eq_ok]
      constructor
      · rintro ⟨zs, hzs, hcons⟩
        obtain ⟨xs, rfl, rfl⟩ := ih.mp hzs
        exact ⟨a :: xs, rfl, Except.ok.inj hcons⟩
      · rintro ⟨xs, hxs, rfl⟩
        cases xs with
        | nil => simp at hxs
        | cons b xs =>
          obtain ⟨hab, rfl⟩ := List.cons.inj hxs
          obtain rfl := Option.some.inj hab
          exact ⟨xs.map g, ih.mpr ⟨xs, rfl, rfl⟩, rfl⟩

theorem forM_eq_ok_iff {α β ε : Type} {f : α → Except ε Unit} {g : α → Option β}
    (h : ∀ a, f a = .ok () ↔ ∃ b, g a = some b) (l : List α) :
    l.forM f = .ok () ↔ ∃ bs, l.mapM g = some bs := by
  induction l with
  | nil => simp [pure, Except.pure]
  | cons a l ih =>
    have hcons : (a :: l).forM f = (f a >>= fun _ => l.forM f) := rfl
    rw [hcons, bind_eq_ok, List.mapM_cons]
    constructor
    · rintro ⟨_, ha, hl⟩
      obtain ⟨b, hb⟩ := (h a).mp ha
      obtain ⟨bs, hbs⟩ := ih.mp hl
      exact ⟨b :: bs, by simp [hb, hbs]⟩
    · rintro ⟨bs, hbs⟩
      obtain ⟨b, hb, hbs⟩ := Option.bind_eq_some_iff.mp hbs
      obtain ⟨bs', hbs', -⟩ := Option.bind_eq_some_iff.mp hbs
      exact ⟨(), (h a).mpr ⟨b, hb⟩, ih.mpr ⟨bs', hbs'⟩⟩

theorem parsePlayers_eq_ok {raw : Option (List (Option Phase10StoredPlayer))}
    {players : List Phase10Player} : parsePlayers raw = .ok players ↔
      ∃ stored : List Phase10StoredPlayer, raw = some (stored.map some) ∧
        stored.map parseStoredPlayer = players := by
  cases raw with
  | none => simp [parsePlayers]
  | some raw =>
    simp only [parsePlayers, Option.some.injEq]
    exact mapM_eq_ok_iff (f := parseRawPlayer) rfl (fun _ => rfl)

theorem renderRawRound_eq_ok (round : Option RawRound) :
    renderRawRound round = .ok () ↔ ∃ round', round.bind RawRound.round? = some round' := by
  cases round with
  | none => simp [renderRawRound]
  | some round =>
    obtain ⟨roundNumber, entries⟩ := round
    cases entries with
    | none => simp [renderRawRound, RawRound.round?]
    | some entries =>
      have hentry (e : Option Phase10RoundEntry) :
          renderRawEntry e = .ok () ↔ ∃ e', id e = some e' := by
        cases e <;> simp [renderRawEntry]
      have hround (round' : Phase10Round) :
          (⟨roundNumber, some entries⟩ : RawRound).round? = some round' ↔
            ∃ es, entries.mapM id = some es ∧ ⟨roundNumber, es⟩ = round' := by
        cases h : entries.mapM id <;> simp [RawRound.round?, h]
      rw [renderRawRound, forM_eq_ok_iff hentry]
      simp only [Option.bind_some, hround]
      exact ⟨fun ⟨es, hes⟩ => ⟨_, es, hes, rfl⟩, fun ⟨_, es, hes, _⟩ => ⟨es, hes⟩⟩

theorem renderRawHistory_eq_ok {onNull : LoadException} {rounds : Option (List (Option RawRound))} :
    renderRawHistory onNull rounds = .ok () ↔ ∃ rounds', rounds? rounds = some rounds' := by
  cases rounds with
  | none => simp [renderRawHistory, rounds?]
  | some rounds => exact forM_eq_ok_iff renderRawRound_eq_ok rounds

theorem game?_eq_some {stored : RawGame} {game : Phase10StoredGame} :
    stored.game? = some game ↔ stored.players = some (game.players.map some) ∧
      rounds? stored.rounds = some game.rounds ∧ stored.currentRound = game.currentRound ∧
      stored.isComplete = game.isComplete := by
  obtain ⟨players, rounds, currentRound, isComplete⟩ := stored
  obtain ⟨players', rounds', currentRound', isComplete'⟩ := game
  simp only [RawGame.game?, Option.bind_eq_bind, Option.bind_eq_some_iff, Option.pure_def,
    Option.some.injEq, Phase10StoredGame.mk.injEq]
  constructor
  · rintro ⟨l, rfl, xs, hxs, rs, hrs, rfl, rfl, rfl, rfl⟩
    exact ⟨congrArg some (mapM_id_eq_some.mp hxs), hrs, rfl, rfl⟩
  · rintro ⟨rfl, hrs, rfl, rfl⟩
    exact ⟨_, rfl, players', mapM_id_eq_some.mpr rfl, rounds', hrs, rfl, rfl, rfl, rfl⟩

theorem LoadedGame.game?_eq {stored : RawGame} {game : Phase10StoredGame}
    (h : stored.game? = some game) :
    LoadedGame.game? ⟨game.game.players, stored.rounds, stored.currentRound⟩ =
      some game.game := by
  obtain ⟨-, hrounds, hcurrent, -⟩ := game?_eq_some.mp h
  simp [LoadedGame.game?, hrounds, hcurrent, Phase10StoredGame.game]

theorem parseRawGame_of_game? {stored : RawGame} {game : Phase10StoredGame}
    (h : stored.game? = some game) : parseRawGame stored =
      if game.isComplete = true then
        match lowestScore game.game.completedPlayers with
        | .error _ => .error .invalidOperation
        | .ok winner => .ok (.complete ⟨game.game.players, stored.rounds, stored.currentRound⟩
            winner game.game.completedPlayers.length)
      else .ok (.inProgress ⟨game.game.players, stored.rounds, stored.currentRound⟩
        (initEntries game.game)) := by
  obtain ⟨hraw, -, -, hcomplete⟩ := game?_eq_some.mp h
  rw [parseRawGame, parsePlayers_eq_ok.mpr ⟨game.players, hraw, rfl⟩, ok_bind, hcomplete]
  rfl

/-- Without nulls a load is the load of the service over the store of a session. -/
theorem loadRawGame_of_game? {stored : RawGame} {game : Phase10StoredGame}
    (h : stored.game? = some game) (previous state : Phase10GameState) :
    (∃ loaded, loadRawGame (some stored) previous = .ok loaded ∧ loaded.state? = some state) ↔
      loadGame (some game) previous = .ok state := by
  have hgame := LoadedGame.game?_eq h
  rw [loadRawGame, parseRawGame_of_game? h, loadGame, parseStoredGame]
  by_cases hover : game.isComplete = true
  · rw [if_pos hover, if_pos hover]
    change _ ↔ (lowestScore game.game.completedPlayers >>= fun winner => _) = _
    cases hw : lowestScore game.game.completedPlayers with
    | error fault =>
      constructor
      · rintro ⟨loaded, hloaded, -⟩
        cases hloaded
      · intro hstate
        cases hstate
    | ok winner =>
      constructor
      · rintro ⟨_, ⟨⟩, hstate⟩
        rw [LoadedState.state?, hgame] at hstate
        exact congrArg Except.ok (Option.some.inj hstate)
      · intro hstate
        refine ⟨_, rfl, ?_⟩
        rw [LoadedState.state?, hgame]
        exact congrArg some (Except.ok.inj hstate)
  · rw [if_neg hover, if_neg hover]
    constructor
    · rintro ⟨_, ⟨⟩, hstate⟩
      rw [LoadedState.state?, hgame] at hstate
      exact congrArg Except.ok (Option.some.inj hstate)
    · intro hstate
      refine ⟨_, rfl, ?_⟩
      rw [LoadedState.state?, hgame]
      exact congrArg some (Except.ok.inj hstate)

theorem parseStoredPlayer_active {p : Phase10StoredPlayer} :
    (∃ a, parseStoredPlayer p = .active a ∧ 1 ≤ a.phase ∧ a.phase ≤ 10) ↔
      p.completedGame = false ∧ 1 ≤ p.currentPhase ∧ p.currentPhase ≤ 10 := by
  cases h : p.completedGame <;> simp [parseStoredPlayer, h]

theorem completedPlayers_map_parse {players : List Phase10StoredPlayer} :
    (players.map parseStoredPlayer).filterMap (·.asCompleted) ≠ [] ↔
      ∃ p ∈ players, p.completedGame = true := by
  have hparse (p : Phase10StoredPlayer) :
      (parseStoredPlayer p).asCompleted.isSome ↔ p.completedGame = true := by
    cases h : p.completedGame <;> simp [parseStoredPlayer, h, Phase10Player.asCompleted]
  constructor
  · intro hne
    obtain ⟨c, hc⟩ := List.exists_mem_of_ne_nil _ hne
    obtain ⟨q, hq, hqc⟩ := List.mem_filterMap.mp hc
    obtain ⟨p, hp, rfl⟩ := List.mem_map.mp hq
    exact ⟨p, hp, (hparse p).mp (by rw [hqc]; rfl)⟩
  · rintro ⟨p, hp, hpc⟩
    obtain ⟨c, hc⟩ := Option.isSome_iff_exists.mp ((hparse p).mpr hpc)
    exact List.ne_nil_of_mem (List.mem_filterMap.mpr ⟨_, List.mem_map_of_mem hp, hc⟩)

/-- A game that loads and renders has no null in it. -/
theorem consistent_of_harmless {stored : RawGame} {previous : Phase10GameState}
    (h : Harmless (some stored) previous) : stored.Consistent := by
  obtain ⟨loaded, hload, hwell, hrender, -⟩ := h
  obtain ⟨players, hplayers, hload⟩ := bind_eq_ok.mp hload
  obtain ⟨players', hraw, rfl⟩ := parsePlayers_eq_ok.mp hplayers
  by_cases hcomplete : stored.isComplete = true
  · rw [if_pos hcomplete] at hload
    dsimp only at hload
    split at hload
    · cases hload
    · next winner hw =>
      cases hload
      obtain ⟨rounds, hrounds⟩ := renderRawHistory_eq_ok.mp hrender
      refine ⟨⟨players', rounds, stored.currentRound, stored.isComplete⟩,
        game?_eq_some.mpr ⟨hraw, hrounds, rfl, rfl⟩, fun _ => ?_, fun hfalse => ?_⟩
      · exact completedPlayers_map_parse.mp (List.ne_nil_of_mem (lowestScore_spec hw).1)
      · exact absurd (hcomplete.symm.trans hfalse) (by decide)
  · rw [if_neg hcomplete] at hload
    cases hload
    obtain ⟨rounds, hrounds⟩ := renderRawHistory_eq_ok.mp hrender
    refine ⟨⟨players', rounds, stored.currentRound, stored.isComplete⟩,
      game?_eq_some.mpr ⟨hraw, hrounds, rfl, rfl⟩, fun htrue => absurd htrue hcomplete, ?_⟩
    intro _ p hp
    have hactive := hwell.1 (parseStoredPlayer p) (List.mem_map_of_mem hp)
    exact parseStoredPlayer_active.mp hactive

/-- A consistent game can be played on. -/
theorem playable_of_consistent {game : Phase10StoredGame}
    (htrue : game.isComplete = true → ∃ p ∈ game.players, p.completedGame = true)
    (hfalse : game.isComplete = false → ∀ p ∈ game.players,
      p.completedGame = false ∧ 1 ≤ p.currentPhase ∧ p.currentPhase ≤ 10) : game.Playable := by
  refine playable_of_isComplete (Iff.trans ?_ completedPlayers_map_parse.symm)
  constructor
  · exact htrue
  · rintro ⟨p, hp, hpc⟩
    by_contra hnot
    have hnone := (hfalse (by simpa using hnot) p hp).1
    exact absurd (hpc.symm.trans hnone) (by decide)

/-- A consistent game is loaded to the state it is parsed to, and can be played on. -/
theorem harmless_of_consistent {stored : RawGame} (h : stored.Consistent)
    (previous : Phase10GameState) : Harmless (some stored) previous := by
  obtain ⟨game, hgame, htrue, hfalse⟩ := h
  obtain ⟨-, hrounds, -, -⟩ := game?_eq_some.mp hgame
  have hplayable := playable_of_consistent htrue hfalse
  have hserves (loaded) (hload : loadRawGame (some stored) previous = .ok loaded) (state)
      (hstate : loaded.state? = some state) (events) (s : Session)
      (hrun : run Session.step ⟨state, (some stored).bind RawGame.game?⟩ events = .ok s) :
      s.Serves := by
    have ⟨state', hparse, hstate'⟩ := hplayable
    have hload' := (loadRawGame_of_game? hgame previous state).mp ⟨loaded, hload, hstate⟩
    obtain rfl : state' = state := Except.ok.inj (hparse.symm.trans hload')
    have hstart : Session.Playable ⟨state', (some stored).bind RawGame.game?⟩ := by
      refine ⟨hstate', ?_⟩
      intro stored' hstored'
      obtain rfl : game = stored' := Option.some.inj (hgame.symm.trans hstored')
      exact hplayable
    exact hstart.run_serves hrun
  have hrender (onNull : LoadException) : renderRawHistory onNull stored.rounds = .ok () :=
    renderRawHistory_eq_ok.mpr ⟨game.rounds, hrounds⟩
  have hparse := parseRawGame_of_game? hgame
  by_cases hover : game.isComplete = true
  · obtain ⟨winner, hw⟩ := lowestScore_ok (completedPlayers_map_parse.mpr (htrue hover))
    change lowestScore game.game.completedPlayers = .ok winner at hw
    rw [if_pos hover, hw] at hparse
    refine ⟨_, hparse, ?_, hrender _, hserves _ hparse⟩
    exact Phase10Game.completed_mem.mp (lowestScore_spec hw).1
  · rw [if_neg hover] at hparse
    refine ⟨_, hparse, ⟨?_, initEntries_length game.game⟩, hrender _, hserves _ hparse⟩
    intro p hp
    obtain ⟨q, hq, rfl⟩ := List.mem_map.mp hp
    exact parseStoredPlayer_active.mpr (hfalse (by simpa using hover) q hq)

/-- Whatever the store returns, loading it is harmless exactly when it is nothing or a consistent
game. -/
theorem load_harmless_iff {s : Session} (hs : s.Reachable) (item : Option RawGame) :
    Harmless item s.state ↔ ∀ stored, item = some stored → stored.Consistent := by
  constructor
  · rintro h stored rfl
    exact consistent_of_harmless h
  · intro h
    cases item with
    | some stored => exact harmless_of_consistent (h stored rfl) s.state
    | none =>
      refine ⟨.previous s.state, rfl, trivial, rfl, ?_⟩
      rintro state hstate events t hrun
      obtain rfl : s.state = state := Option.some.inj hstate
      have hstart : Session.Playable ⟨s.state, none⟩ :=
        ⟨hs.sound.state.playable, fun stored hstored => by cases hstored⟩
      exact hstart.run_serves hrun

/-- A game with rounds and scores that do not fit together is loaded and played on. -/
theorem load_harmless_contradictory : Harmless (some
    { players := some [some ⟨"Ann", 3, -7, false⟩, some ⟨"Ann", 10, 0, false⟩]
      rounds := some [some ⟨9, some []⟩, some {}]
      currentRound := 4 }) Session.launch.state := by
  apply (load_harmless_iff .launch _).mpr
  rintro stored ⟨⟩
  refine ⟨⟨[⟨"Ann", 3, -7, false⟩, ⟨"Ann", 10, 0, false⟩], [⟨9, []⟩, ⟨0, []⟩], 4, false⟩, by decide,
    fun htrue => (by cases htrue), fun _ => (by decide)⟩

/-- A complete game without players: `First()` throws, also at every later load. -/
theorem complete_without_players_throws :
    loadRawGame (some { isComplete := true }) Session.launch.state = .error .invalidOperation ∧
      ¬ Harmless (some { isComplete := true }) Session.launch.state := by
  have hload : loadRawGame (some { isComplete := true }) Session.launch.state =
      .error .invalidOperation := rfl
  refine ⟨hload, ?_⟩
  rintro ⟨loaded, hloaded, -⟩
  rw [hload] at hloaded
  cases hloaded

end HwoodiwissHelper.Phase10
