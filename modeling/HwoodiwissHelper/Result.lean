import Mathlib.Data.List.Basic

/-!
# Exceptions, problems and results
-/

namespace HwoodiwissHelper

/-- An exception, by the name of its type and the names of the types it derives from. -/
structure Exception where
  typeName : String
  bases : List String := []
  deriving DecidableEq, Repr

/-- `catch` of a type takes the exceptions that derive from it too. -/
def Exception.is (ex : Exception) (typeName : String) : Bool :=
  ex.typeName == typeName || ex.bases.contains typeName

inductive Problem where
  | exceptional (value : Exception)
  | reason (value : String)
  deriving DecidableEq, Repr

inductive Result (α : Type) where
  | success (value : α)
  | failure (problem : Problem)
  deriving DecidableEq, Repr

end HwoodiwissHelper
