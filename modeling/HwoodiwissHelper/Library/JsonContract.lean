import HwoodiwissHelper.Library.KeyedList
import HwoodiwissHelper.Library.Transition

/-!
# Serializers derived from the shape of a type

A contract is what a reflection-based serializer derives from a type: how its values are written
as JSON documents and how documents are read back. Lists and classes build contracts from
contracts. A class is read through a public constructor and the set or init accessors of its
properties; a class that only its own factory can build is written, and never read.

`Exact c p` describes a contract completely on what it writes itself: a value is read back as
it was if it satisfies `p`, and the reader refuses the document if not.
-/

namespace JsonContract

open Transition KeyedList

/-- The documents that are written here: nothing in them is null. -/
inductive Json where
  | bool (b : Bool)
  | num (n : Int)
  | str (s : String)
  | arr (items : List Json)
  | obj (members : List (String × Json))

/-- What a reader refuses a document with: `NotSupportedException` for a class that cannot be
built, `JsonException` for a document of the wrong shape. -/
inductive Refusal where
  | notSupported
  | mismatch
  deriving DecidableEq, Repr

structure Contract (α : Type) where
  write : α → Json
  read : Json → Except Refusal α

variable {α β : Type}

def Exact (c : Contract α) (p : α → Bool) : Prop :=
  ∀ a, c.read (c.write a) = if p a then .ok a else .error .notSupported

theorem Exact.congr {c : Contract α} {p q : α → Bool} (h : Exact c p) (hpq : ∀ a, p a = q a) :
    Exact c q := by
  intro a
  rw [h a, hpq a]

namespace Contract

def boolean : Contract Bool where
  write := .bool
  read
    | .bool b => .ok b
    | _ => .error .mismatch

def string : Contract String where
  write := .str
  read
    | .str s => .ok s
    | _ => .error .mismatch

def int32 : Contract Int32 where
  write n := .num n.toInt
  read
    | .num n => if (Int32.ofInt n).toInt = n then .ok (Int32.ofInt n) else .error .mismatch
    | _ => .error .mismatch

def list (c : Contract α) : Contract (List α) where
  write as := .arr (as.map c.write)
  read
    | .arr items => items.mapM c.read
    | _ => .error .mismatch

end Contract

theorem exact_boolean : Exact .boolean (fun _ => true) := fun _ => rfl

theorem exact_string : Exact .string (fun _ => true) := fun _ => rfl

theorem exact_int32 : Exact .int32 (fun _ => true) := by
  intro n
  simp [Contract.int32]

theorem exact_list {c : Contract α} {p : α → Bool} (h : Exact c p) :
    Exact (.list c) (fun as => as.all p) := by
  intro as
  change (as.map c.write).mapM c.read = _
  induction as with
  | nil => rfl
  | cons a as ih =>
    rw [List.map_cons, List.mapM_cons, ih, h a]
    by_cases ha : p a
    · by_cases has : as.all p
      · simp only [List.all_cons, ha, has, Bool.and_self, if_true, ok_bind]
        rfl
      · simp only [List.all_cons, ha, has, Bool.true_and, if_true, Bool.false_eq_true, if_false,
          ok_bind]
        rfl
    · simp only [List.all_cons, ha, Bool.false_and, Bool.false_eq_true, if_false]
      rfl

structure Property (α : Type) where
  name : String
  Value : Type
  contract : Contract Value
  get : α → Value
  set : Value → α → α

/-- One member of an object: a known property is read and set, an unknown one is skipped. -/
def assign (properties : List (Property α)) (a : α) (member : String × Json) :
    Except Refusal α :=
  match lookup Property.name member.1 properties with
  | none => .ok a
  | some p => do return p.set (← p.contract.read member.2) a

/-- The contract of a class with a public constructor, which makes `create`. -/
def Contract.ofClass (create : α) (properties : List (Property α)) : Contract α where
  write a := .obj (properties.map (fun p => (p.name, p.contract.write (p.get a))))
  read
    | .obj members => members.foldlM (assign properties) create
    | _ => .error .mismatch

/-- The contract of a class that has neither a public constructor nor an annotated one. -/
def Contract.ofFactory (members : α → List (String × Json)) : Contract α where
  write a := .obj (members a)
  read
    | .obj _ => .error .notSupported
    | _ => .error .mismatch

theorem exact_ofFactory (members : α → List (String × Json)) :
    Exact (.ofFactory members) (fun _ => false) := fun _ => rfl

structure ExactProperty (α : Type) extends Property α where
  reads : Value → Bool
  exact : Exact contract reads

def copyFrom (properties : List (Property α)) (a create : α) : α :=
  properties.foldl (fun b p => p.set (p.get a) b) create

theorem foldlM_assign {all : List (Property α)} (hnames : (all.map (·.name)).Nodup)
    {properties : List (ExactProperty α)} (hmem : ∀ p ∈ properties, p.toProperty ∈ all) (a b : α) :
    (properties.map (fun p => (p.name, p.contract.write (p.get a)))).foldlM (assign all) b =
      if properties.all (fun p => p.reads (p.get a))
      then .ok (copyFrom (properties.map (·.toProperty)) a b) else .error .notSupported := by
  induction properties generalizing b with
  | nil => rfl
  | cons p properties ih =>
    have hfind : lookup Property.name p.name all = some p.toProperty :=
      lookup_of_nodup Property.name hnames (hmem p List.mem_cons_self)
    have hmem' : ∀ q ∈ properties, q.toProperty ∈ all := fun q hq =>
      hmem q (List.mem_cons_of_mem p hq)
    have hrest := ih hmem' (p.set (p.get a) b)
    rw [List.map_cons, List.foldlM_cons, assign, hfind]
    simp only [p.exact (p.get a), List.all_cons]
    by_cases hp : p.reads (p.get a)
    · simp only [hp, if_true, Bool.true_and]
      exact hrest
    · simp only [hp, Bool.false_and, Bool.false_eq_true, if_false]
      rfl

/-- A class is read back whenever all of its properties are, as long as their names differ and
setting all of them makes a copy. -/
theorem exact_ofClass {create : α} {properties : List (ExactProperty α)}
    (hnames : ((properties.map (·.toProperty)).map (·.name)).Nodup)
    (hcopy : ∀ a, copyFrom (properties.map (·.toProperty)) a create = a) :
    Exact (.ofClass create (properties.map (·.toProperty)))
      (fun a => properties.all (fun p => p.reads (p.get a))) := by
  intro a
  have hmap : (properties.map (·.toProperty)).map (fun p => (p.name, p.contract.write (p.get a))) =
      properties.map (fun p => (p.name, p.contract.write (p.get a))) := List.map_map
  have hmem : ∀ p ∈ properties, p.toProperty ∈ properties.map (·.toProperty) := fun p hp =>
    List.mem_map_of_mem hp
  change (((properties.map (·.toProperty)).map _).foldlM _ create) = _
  rw [hmap, foldlM_assign hnames hmem, hcopy]

end JsonContract
