import HwoodiwissHelper.Library.StableOrder
import Mathlib.Data.List.DropRight

/-!
# The data of the Phase 10 scorer

The records and unions of `Pages/Games/Phase10`. `int` is `Int32`, whose addition wraps as the
unchecked addition of the source does; a `List<T>` or an array is a `List`.
-/

namespace HwoodiwissHelper.Phase10

/-- What stops an operation: an index outside a list, `First()` on an empty sequence, or a
`TryCreate(...)!` that would put `null` into a round. -/
inductive Fault where
  | indexOutOfRange
  | sequenceEmpty
  | nullEntry
  deriving DecidableEq, Repr

structure RoundEntryModel where
  points : Int32 := 0
  phaseCompleted : Bool := false
  deriving DecidableEq, Repr

/-- A recorded entry. The constructor of the source is private, so every entry comes from
`tryCreate` and its points are not negative. -/
structure Phase10RoundEntry where
  playerName : String
  phase : Int32
  phaseCompleted : Bool
  pointsAdded : Int32
  pointsAdded_nonneg : 0 ≤ pointsAdded
  deriving DecidableEq, Repr

def Phase10RoundEntry.model (e : Phase10RoundEntry) : RoundEntryModel :=
  ⟨e.pointsAdded, e.phaseCompleted⟩

theorem nonneg_of_not_neg {x : Int32} (h : ¬ x < 0) : 0 ≤ x := by
  rw [Int32.lt_iff_toInt_lt] at h
  rw [Int32.le_iff_toInt_le]
  omega

def Phase10RoundEntry.tryCreate (playerName : String) (phase : Int32) (phaseCompleted : Bool)
    (pointsAdded : Int32) : Option Phase10RoundEntry :=
  if h : pointsAdded < 0 then none
  else some ⟨playerName, phase, phaseCompleted, pointsAdded, nonneg_of_not_neg h⟩

theorem Phase10RoundEntry.tryCreate_of_nonneg (playerName : String) (phase : Int32)
    (phaseCompleted : Bool) {pointsAdded : Int32} (h : 0 ≤ pointsAdded) :
    tryCreate playerName phase phaseCompleted pointsAdded =
      some ⟨playerName, phase, phaseCompleted, pointsAdded, h⟩ := by
  have hn : ¬ pointsAdded < 0 := by
    rw [Int32.le_iff_toInt_le] at h
    rw [Int32.lt_iff_toInt_lt]
    omega
  simp [tryCreate, hn]

/-- The null-forgiving `!` after `TryCreate`. -/
def nullForgiving : Option Phase10RoundEntry → Except Fault Phase10RoundEntry
  | none => .error .nullEntry
  | some entry => .ok entry

structure Phase10Round where
  roundNumber : Int32
  entries : List Phase10RoundEntry
  deriving DecidableEq, Repr

structure Phase10Player.Active where
  playerName : String
  phase : Int32
  score : Int32
  deriving DecidableEq, Repr

structure Phase10Player.Completed where
  playerName : String
  score : Int32
  deriving DecidableEq, Repr

inductive Phase10Player where
  | active (player : Phase10Player.Active)
  | completed (player : Phase10Player.Completed)
  deriving DecidableEq, Repr

namespace Phase10Player

def playerName : Phase10Player → String
  | .active a => a.playerName
  | .completed c => c.playerName

def score : Phase10Player → Int32
  | .active a => a.score
  | .completed c => c.score

def asCompleted : Phase10Player → Option Completed
  | .active _ => none
  | .completed c => some c

end Phase10Player

structure Phase10Game where
  players : List Phase10Player
  rounds : List Phase10Round := []
  currentRound : Int32 := 1
  deriving DecidableEq, Repr

namespace Phase10Game

def playerNames (game : Phase10Game) : List String := game.players.map (·.playerName)

def completedPlayers (game : Phase10Game) : List Phase10Player.Completed :=
  game.players.filterMap (·.asCompleted)

theorem completed_mem {game : Phase10Game} {c : Phase10Player.Completed} :
    c ∈ game.completedPlayers ↔ .completed c ∈ game.players := by
  rw [completedPlayers, List.mem_filterMap]
  constructor
  · rintro ⟨p, hp, hc⟩
    cases p with
    | active a => cases hc
    | completed d =>
      obtain rfl : d = c := Option.some.inj hc
      exact hp
  · exact fun hp => ⟨_, hp, rfl⟩

end Phase10Game

inductive Phase10GameState where
  | setup (playerNames : List String)
  | inProgress (game : Phase10Game) (entries : List RoundEntryModel)
  | complete (game : Phase10Game) (winner : Phase10Player.Completed) (completedPlayerCount : ℕ)
  deriving DecidableEq, Repr

def Phase10GameState.game? : Phase10GameState → Option Phase10Game
  | .setup _ => none
  | .inProgress game _ => some game
  | .complete game _ _ => some game

structure Phase10StoredPlayer where
  name : String := ""
  currentPhase : Int32 := 1
  totalScore : Int32 := 0
  completedGame : Bool := false
  deriving DecidableEq, Repr

structure Phase10StoredGame where
  players : List Phase10StoredPlayer := []
  rounds : List Phase10Round := []
  currentRound : Int32 := 1
  isComplete : Bool := false
  deriving DecidableEq, Repr

/-- `char.IsWhiteSpace`: the space, line and paragraph separators of Unicode, the controls from
tab to carriage return, and next line. -/
def isWhiteSpace (c : Char) : Bool :=
  (9 ≤ c.toNat && c.toNat ≤ 13) || (0x2000 ≤ c.toNat && c.toNat ≤ 0x200A) ||
    c.toNat ∈ [0x20, 0x85, 0xA0, 0x1680, 0x2028, 0x2029, 0x202F, 0x205F, 0x3000]

def isNullOrWhiteSpace (s : String) : Bool := s.toList.all isWhiteSpace

def trim (s : String) : String :=
  String.ofList ((s.toList.dropWhile isWhiteSpace).rdropWhile isWhiteSpace)

def canStart (playerNames : List String) : Bool :=
  decide (2 ≤ playerNames.length) && playerNames.all (fun n => !isNullOrWhiteSpace n)

end HwoodiwissHelper.Phase10
