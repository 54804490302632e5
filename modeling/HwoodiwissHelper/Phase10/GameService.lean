import HwoodiwissHelper.Phase10.Model

/-!
# `Phase10GameService`

Every operation maps the field `_state` to its next value together with the call it makes on
the store; an operation the guards turn down leaves the state and makes no call. A loop over
an index becomes a recursion over the lists it walks, and an operation that would throw
returns the `Fault`.
-/

namespace HwoodiwissHelper.Phase10

open StableOrder Phase10RoundEntry

/-- What an operation asks of the `IAppStateStore`, always under the key `phase10-game`. -/
inductive StoreCall where
  | none
  | setItem (value : Phase10StoredGame)
  | removeItem
  deriving DecidableEq, Repr

namespace Phase10GameService

def initial : Phase10GameState := .setup ["", ""]

def initEntries (game : Phase10Game) : List RoundEntryModel := game.players.map (fun _ => {})

def toStoredPlayer : Phase10Player → Phase10StoredPlayer
  | .active a => ⟨a.playerName, a.phase, a.score, false⟩
  | .completed c => ⟨c.playerName, 10, c.score, true⟩

def toStoredGame (game : Phase10Game) (isComplete : Bool) : Phase10StoredGame where
  players := game.players.map toStoredPlayer
  rounds := game.rounds
  currentRound := game.currentRound
  isComplete := isComplete

def saveGame : Phase10GameState → StoreCall
  | .inProgress game _ => .setItem (toStoredGame game false)
  | .complete game _ _ => .setItem (toStoredGame game true)
  | .setup _ => .none

def parseStoredPlayer (p : Phase10StoredPlayer) : Phase10Player :=
  if p.completedGame then .completed ⟨p.name, p.totalScore⟩
  else .active ⟨p.name, p.currentPhase, p.totalScore⟩

/-- `players.OrderBy(p => p.Score).First()`. -/
def lowestScore (players : List Phase10Player.Completed) :
    Except Fault Phase10Player.Completed :=
  match (orderBy (·.score) players).head? with
  | none => .error .sequenceEmpty
  | some winner => .ok winner

def parseStoredGame (stored : Phase10StoredGame) : Except Fault Phase10GameState := do
  let game : Phase10Game :=
    { players := stored.players.map parseStoredPlayer
      rounds := stored.rounds
      currentRound := stored.currentRound }
  if stored.isComplete then
    let winner ← lowestScore game.completedPlayers
    return .complete game winner game.completedPlayers.length
  else
    return .inProgress game (initEntries game)

/-- `LoadGameAsync`, given what `GetItemAsync` returned. -/
def loadGame (stored : Option Phase10StoredGame) (state : Phase10GameState) :
    Except Fault Phase10GameState :=
  match stored with
  | none => .ok state
  | some stored => parseStoredGame stored

def addPlayer : Phase10GameState → Phase10GameState
  | .setup playerNames =>
    if 6 ≤ playerNames.length then .setup playerNames else .setup (playerNames ++ [""])
  | state => state

def removePlayer (index : ℤ) : Phase10GameState → Except Fault Phase10GameState
  | .setup playerNames =>
    if playerNames.length ≤ 2 then .ok (.setup playerNames)
    else if 0 ≤ index ∧ index < playerNames.length then
      .ok (.setup (playerNames.eraseIdx index.toNat))
    else .error .indexOutOfRange
  | state => .ok state

def newGameOf (playerNames : List String) : Phase10Game where
  players := playerNames.map (fun n => .active ⟨trim n, 1, 0⟩)

def startGame : Phase10GameState → Phase10GameState × StoreCall
  | .setup playerNames =>
    if canStart playerNames then
      let game := newGameOf playerNames
      let state : Phase10GameState := .inProgress game (initEntries game)
      (state, saveGame state)
    else (.setup playerNames, .none)
  | state => (state, .none)

def submitPlayer (active : Phase10Player.Active) (entry : RoundEntryModel) :
    Except Fault (Phase10RoundEntry × Phase10Player) := do
  let points := max 0 entry.points
  let recorded ← nullForgiving
    (tryCreate active.playerName active.phase entry.phaseCompleted points)
  let newScore := active.score + points
  let player : Phase10Player :=
    match entry.phaseCompleted, decide (10 ≤ active.phase) with
    | true, true => .completed ⟨active.playerName, newScore⟩
    | true, false => .active ⟨active.playerName, active.phase + 1, newScore⟩
    | _, _ => .active ⟨active.playerName, active.phase, newScore⟩
  return (recorded, player)

/-- The loop of `SubmitRoundAsync`: the entries it records and the players afterwards. The
pending entry of a player who is not active is stepped over without being read. -/
def submitPlayers : List Phase10Player → List RoundEntryModel →
    Except Fault (List Phase10RoundEntry × List Phase10Player)
  | [], _ => .ok ([], [])
  | .completed c :: players, entries => do
    let (recorded, players) ← submitPlayers players entries.tail
    return (recorded, .completed c :: players)
  | .active _ :: _, [] => .error .indexOutOfRange
  | .active active :: players, entry :: entries => do
    let (first, player) ← submitPlayer active entry
    let (recorded, players) ← submitPlayers players entries
    return (first :: recorded, player :: players)

/-- The end of a submit and of an edit: a game with completed players is over, and any other
goes on in the given state. -/
def completeOr (game : Phase10Game) (otherwise : Phase10GameState) :
    Except Fault Phase10GameState :=
  if 0 < game.completedPlayers.length then do
    let winner ← lowestScore game.completedPlayers
    return .complete game winner game.completedPlayers.length
  else .ok otherwise

def submitRound : Phase10GameState → Except Fault (Phase10GameState × StoreCall)
  | .inProgress game entries => do
    let (recorded, players) ← submitPlayers game.players entries
    let game : Phase10Game :=
      { players := players
        rounds := game.rounds ++ [⟨game.currentRound, recorded⟩]
        currentRound := game.currentRound + 1 }
    let state ← completeOr game (.inProgress game (entries.map (fun _ => ⟨0, false⟩)))
    return (state, saveGame state)
  | state => .ok (state, .none)

/-- The loop of `EditRoundAsync` over the entries of the round and the updated entries. -/
def editEntries : List Phase10RoundEntry → List RoundEntryModel →
    Except Fault (List Phase10RoundEntry)
  | [], _ => .ok []
  | entries, [] => .ok entries
  | existing :: entries, updated :: updates => do
    let edited ← nullForgiving (tryCreate existing.playerName existing.phase
      updated.phaseCompleted (max 0 updated.points))
    let entries ← editEntries entries updates
    return edited :: entries

def recalculatePlayer (entries : List Phase10RoundEntry) :
    Phase10Player → Except Fault (Phase10Player × List Phase10RoundEntry)
  | .completed c => .ok (.completed c, entries)
  | .active active =>
    match entries.findIdx? (fun e => e.playerName = active.playerName) with
    | none => .ok (.active active, entries)
    | some entryIndex =>
      match entries[entryIndex]? with
      | none => .error .indexOutOfRange
      | some entry => do
        let rewritten ← nullForgiving (tryCreate active.playerName active.phase
          entry.phaseCompleted entry.pointsAdded)
        let newScore := active.score + entry.pointsAdded
        let player : Phase10Player :=
          match entry.phaseCompleted, decide (active.phase = 10) with
          | true, true => .completed ⟨active.playerName, newScore⟩
          | true, false => .active ⟨active.playerName, active.phase + 1, newScore⟩
          | _, _ => .active ⟨active.playerName, active.phase, newScore⟩
        return (player, entries.set entryIndex rewritten)

def recalculatePlayers : List Phase10Player → List Phase10RoundEntry →
    Except Fault (List Phase10Player × List Phase10RoundEntry)
  | [], entries => .ok ([], entries)
  | player :: players, entries => do
    let (player, entries) ← recalculatePlayer entries player
    let (players, entries) ← recalculatePlayers players entries
    return (player :: players, entries)

def recalculateRounds : List Phase10Player → List Phase10Round →
    Except Fault (List Phase10Player × List Phase10Round)
  | players, [] => .ok (players, [])
  | players, round :: rounds => do
    let (players, entries) ← recalculatePlayers players round.entries
    let (players, rounds) ← recalculateRounds players rounds
    return (players, { round with entries := entries } :: rounds)

def recalculateGameState (game : Phase10Game) : Except Fault Phase10Game := do
  let players := game.playerNames.map (fun n => Phase10Player.active ⟨n, 1, 0⟩)
  let (players, rounds) ← recalculateRounds players game.rounds
  return { game with players := players, rounds := rounds }

def editGame (game : Phase10Game) (roundIndex : ℕ) (round : Phase10Round)
    (updatedEntries : List RoundEntryModel) : Except Fault Phase10Game := do
  let entries ← editEntries round.entries updatedEntries
  recalculateGameState
    { game with rounds := game.rounds.set roundIndex { round with entries := entries } }

/-- The pending entries of a game nobody has completed after an edit: a game in progress keeps
its own, one that was over is reopened with fresh ones. -/
def entriesAfterEdit (state : Phase10GameState) (game : Phase10Game) : List RoundEntryModel :=
  match state with
  | .inProgress _ entries => entries
  | _ => initEntries game

def editRound (roundIndex : ℤ) (updatedEntries : List RoundEntryModel)
    (state : Phase10GameState) : Except Fault (Phase10GameState × StoreCall) :=
  match state.game? with
  | none => .ok (state, .none)
  | some game =>
    if roundIndex < 0 ∨ game.rounds.length ≤ roundIndex then .ok (state, .none)
    else
      match game.rounds[roundIndex.toNat]? with
      | none => .error .indexOutOfRange
      | some round => do
        let game ← editGame game roundIndex.toNat round updatedEntries
        let next ← completeOr game (.inProgress game (entriesAfterEdit state game))
        return (next, saveGame next)

def resetToSetup : Phase10GameState := .setup ["", ""]

def abandonGame (_state : Phase10GameState) : Phase10GameState × StoreCall :=
  (resetToSetup, .removeItem)

def newGame (_state : Phase10GameState) : Phase10GameState × StoreCall :=
  (resetToSetup, .removeItem)

end Phase10GameService

end HwoodiwissHelper.Phase10
