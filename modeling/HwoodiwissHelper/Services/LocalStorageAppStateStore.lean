import HwoodiwissHelper.Library.JsonContract
import Mathlib.Logic.Function.Basic

/-!
# `LocalStorageAppStateStore`

The local storage of the browser holds one document under every key. Calls into it may throw,
and the store swallows what they throw.
-/

namespace HwoodiwissHelper

open JsonContract

abbrev LocalStorage := String → Option Json

/-- Which of the calls into the browser throw. -/
structure JsRuntime where
  getItemThrows : Bool := false
  setItemThrows : Bool := false
  removeItemThrows : Bool := false
  deriving DecidableEq, Repr

namespace LocalStorageAppStateStore

variable {α : Type}

def removeItem (js : JsRuntime) (key : String) (storage : LocalStorage) : LocalStorage :=
  if js.removeItemThrows then storage else Function.update storage key none

def setItem (js : JsRuntime) (c : Contract α) (key : String) (value : α)
    (storage : LocalStorage) : LocalStorage :=
  if js.setItemThrows then storage else Function.update storage key (some (c.write value))

/-- `GetItemAsync`: the value and the storage it leaves. What cannot be read is removed. -/
def getItem (js : JsRuntime) (c : Contract α) (key : String) (storage : LocalStorage) :
    Option α × LocalStorage :=
  if js.getItemThrows then (none, removeItem js key storage)
  else
    match storage key with
    | none => (none, storage)
    | some json =>
      match c.read json with
      | .ok value => (some value, storage)
      | .error _ => (none, removeItem js key storage)

/-- With calls that work, a value that is written is read again exactly if its contract reads it,
and is lost if not. -/
theorem getItem_setItem {c : Contract α} {p : α → Bool} (h : Exact c p) (key : String) (value : α)
    (storage : LocalStorage) :
    getItem {} c key (setItem {} c key value storage) =
      if p value then (some value, setItem {} c key value storage)
      else (none, Function.update storage key none) := by
  have hstored : setItem {} c key value storage key = some (c.write value) := by
    simp [setItem]
  simp only [getItem, hstored, h value, Bool.false_eq_true, if_false]
  by_cases hp : p value
  · simp [hp]
  · simp [hp, removeItem, setItem]

end LocalStorageAppStateStore

end HwoodiwissHelper
