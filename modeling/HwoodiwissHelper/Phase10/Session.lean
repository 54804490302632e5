import HwoodiwissHelper.Library.Transition
import HwoodiwissHelper.Phase10.GameService

/-!
# The service over a faithful store

A session is the state of one service with the value its store holds. The store returns the
last value saved, or nothing after a removal, by value. What the page and its inputs do to the
lists the state hands out (`Setup.PlayerNames`, `InProgress.Entries`) are operations of their
own; `relaunch` is a fresh service over the store of an earlier session.
-/

namespace HwoodiwissHelper.Phase10

open Phase10GameService Transition

def StoreCall.apply : StoreCall → Option Phase10StoredGame → Option Phase10StoredGame
  | .none, stored => stored
  | .setItem value, _ => some value
  | .removeItem, _ => Option.none

/-- Everything that is done to the state, loading apart. -/
inductive Operation where
  | addPlayer
  | removePlayer (index : ℤ)
  | typeNames (playerNames : List String)
  | startGame
  | typeEntry (index : ℕ) (entry : RoundEntryModel)
  | submitRound
  | editRound (roundIndex : ℤ) (updatedEntries : List RoundEntryModel)
  | abandonGame
  | newGame
  deriving DecidableEq, Repr

/-- Filling in the names of the setup screen. The list is open to its holders, so any list can
stand there when a game is started. -/
def typeNames (playerNames : List String) : Phase10GameState → Phase10GameState
  | .setup _ => .setup playerNames
  | state => state

def typeEntry (index : ℕ) (entry : RoundEntryModel) : Phase10GameState → Phase10GameState
  | .inProgress game entries => .inProgress game (entries.set index entry)
  | state => state

def Operation.perform (state : Phase10GameState) :
    Operation → Except Fault (Phase10GameState × StoreCall)
  | .addPlayer => .ok (Phase10GameService.addPlayer state, .none)
  | .removePlayer index => do return (← Phase10GameService.removePlayer index state, .none)
  | .typeNames playerNames => .ok (Phase10.typeNames playerNames state, .none)
  | .startGame => .ok (Phase10GameService.startGame state)
  | .typeEntry index entry => .ok (Phase10.typeEntry index entry state, .none)
  | .submitRound => Phase10GameService.submitRound state
  | .editRound roundIndex updatedEntries =>
    Phase10GameService.editRound roundIndex updatedEntries state
  | .abandonGame => .ok (Phase10GameService.abandonGame state)
  | .newGame => .ok (Phase10GameService.newGame state)

structure Session where
  state : Phase10GameState
  store : Option Phase10StoredGame
  deriving DecidableEq, Repr

inductive Session.Event where
  | load
  | call (operation : Operation)
  deriving DecidableEq, Repr

namespace Session

/-- The state and the store after an operation that came with a store call. -/
def commit (s : Session) (next : Phase10GameState × StoreCall) : Session :=
  ⟨next.1, next.2.apply s.store⟩

def step (s : Session) : Event → Except Fault Session
  | .load => do return { s with state := ← loadGame s.store s.state }
  | .call operation => do return s.commit (← operation.perform s.state)

theorem step_load {s : Session} {state : Phase10GameState}
    (h : loadGame s.store s.state = .ok state) :
    s.step .load = .ok { s with state := state } := by simp [step, h]

theorem step_call {s : Session} {o : Operation} {next : Phase10GameState × StoreCall}
    (h : o.perform s.state = .ok next) : s.step (.call o) = .ok (s.commit next) := by simp [step, h]

theorem perform_of_step {s s' : Session} {o : Operation} (h : s.step (.call o) = .ok s') :
    ∃ next, o.perform s.state = .ok next ∧ s.commit next = s' := by simpa [step] using h

def launch : Session := ⟨initial, none⟩

/-- A fresh service over the store an earlier session left behind. -/
def relaunch (s : Session) : Session := ⟨initial, s.store⟩

inductive Reachable : Session → Prop where
  | launch : Reachable launch
  | relaunch {s} (h : Reachable s) : Reachable s.relaunch
  | step {s s'} {e : Event} (h : Reachable s) (he : s.step e = .ok s') : Reachable s'

/-- One round typed in seat by seat and submitted. -/
def playRound (entries : List RoundEntryModel) : List Event :=
  entries.zipIdx.map (fun p => .call (.typeEntry p.2 p.1)) ++ [.call .submitRound]

/-- A concrete run from the launch reaches a session with a property that was evaluated. -/
theorem reachable_of_run (events : List Event) (p : Session → Bool)
    (h : (Transition.run Session.step launch events).toOption.map p = some true) :
    ∃ s : Session, s.Reachable ∧ p s = true :=
  exists_of_run Session.step (fun _ _ _ hs he => hs.step he) .launch events p h

end Session

end HwoodiwissHelper.Phase10
