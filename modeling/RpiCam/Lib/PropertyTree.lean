import Mathlib.Data.List.Nodup
import Mathlib.Logic.Function.Basic
import RpiCam.Lib.Stoi

/-!
# Property trees

A node of a property tree has a text and children with names. Members are read from it one after the other, each from
the child of its name and with a parser of its own; reading ends at the first that fails.

* `Ptree.getChild`, `Ptree.get` : the first child of a name, and its text;
* `streamInt` : the `int` that a text is, with white space on both sides;
* `readKeys` : what is stored when keys are read in their order, and the error that ends the reading;
* `firstError` : this error, `readKeys_error`; `firstError_eq_none_iff`, `firstError_append`;
* `Stores` : every key is there and its value is stored; `stores_readKeys`.
-/

namespace RpiCam

inductive Ptree
  | node (data : List Char) (children : List (String × Ptree))

namespace Ptree

def data : Ptree → List Char
  | node d _ => d

/-- `get_child`, for a name without a dot. -/
def getChild : Ptree → String → Option Ptree
  | node _ children, name => children.lookup name

/-- The text of a child. -/
def get (t : Ptree) (name : String) : Option (List Char) := (t.getChild name).map data

end Ptree

/-- The number of a text, as `>>` reads it where nothing else may follow. -/
def streamInt (s : List Char) : Option Int :=
  let signed := takeSign (s.dropWhile isSpace)
  let digits := signed.2.takeWhile Char.isDigit
  if digits = [] ∨ (signed.2.dropWhile Char.isDigit).all isSpace = false then none
  else
    let value : Int := if signed.1 then -(decimal digits : Int) else decimal digits
    if value < -2 ^ 31 ∨ 2 ^ 31 - 1 < value then none else some value

/-- What reading throws. -/
inductive PtreeError
  /-- There is no child of the name. -/
  | badPath
  /-- Its text is no such value. -/
  | badData
  deriving DecidableEq, Repr

/-- A key, and the values its text can be. -/
structure Key (V : Type*) where
  name : String
  parse : List Char → Option V

/-- The members of an object, by their keys; `none` is what its constructor leaves. -/
abbrev Members (V : Type*) := String → Option V

section Reading

variable {V : Type*} (props : Ptree)

def Key.read (k : Key V) : Except PtreeError V :=
  match props.get k.name with
  | none => .error .badPath
  | some text =>
    match k.parse text with
    | none => .error .badData
    | some v => .ok v

/-- The keys in their order, up to the first that cannot be read. -/
def readKeys : List (Key V) → Members V → Members V × Option PtreeError
  | [], c => (c, none)
  | k :: keys, c =>
    match k.read props with
    | .error e => (c, some e)
    | .ok v => readKeys keys (Function.update c k.name (some v))

/-- The error of the first key that cannot be read. -/
def firstError : List (Key V) → Option PtreeError
  | [] => none
  | k :: keys =>
    match k.read props with
    | .error e => some e
    | .ok _ => firstError keys

/-- Every key is there, with a value, and the object has that value. -/
def Stores (keys : List (Key V)) (c : Members V) : Prop :=
  ∀ k ∈ keys, ∃ v, k.read props = .ok v ∧ c k.name = some v

variable {props}

theorem readKeys_error (keys : List (Key V)) (c : Members V) :
    (readKeys props keys c).2 = firstError props keys := by
  induction keys generalizing c with
  | nil => rfl
  | cons k keys ih =>
    rw [readKeys, firstError]
    cases k.read props with
    | error e => rfl
    | ok v => exact ih _

theorem readKeys_pair (keys : List (Key V)) (c : Members V) :
    readKeys props keys c = ((readKeys props keys c).1, firstError props keys) :=
  Prod.ext rfl (readKeys_error keys c)

theorem firstError_eq_none_iff (keys : List (Key V)) :
    firstError props keys = none ↔ ∀ k ∈ keys, ∃ v, k.read props = .ok v := by
  induction keys with
  | nil => exact iff_of_true rfl nofun
  | cons k keys ih =>
    rw [firstError, List.forall_mem_cons]
    cases k.read props with
    | error e => exact iff_of_false nofun fun h => nomatch h.1
    | ok v =>
      show firstError props keys = none ↔ _
      rw [ih]
      exact (and_iff_right ⟨v, rfl⟩).symm

theorem firstError_append (keys more : List (Key V)) :
    firstError props (keys ++ more) = (firstError props keys).or (firstError props more) := by
  induction keys with
  | nil => rfl
  | cons k keys ih =>
    rw [List.cons_append, firstError, firstError]
    cases k.read props with
    | error e => rfl
    | ok v => exact ih

theorem readKeys_other {keys : List (Key V)} {name : String} (h : name ∉ keys.map Key.name) (c : Members V) :
    (readKeys props keys c).1 name = c name := by
  induction keys generalizing c with
  | nil => rfl
  | cons k keys ih =>
    rw [List.map_cons, List.mem_cons, not_or] at h
    rw [readKeys]
    cases k.read props with
    | error e => rfl
    | ok v =>
      show (readKeys props keys _).1 name = c name
      rw [ih h.2, Function.update_of_ne h.1]

/-- **Where no key fails, all are stored.** -/
theorem stores_readKeys {keys : List (Key V)} (hnodup : (keys.map Key.name).Nodup)
    (h : firstError props keys = none) (c : Members V) : Stores props keys (readKeys props keys c).1 := by
  induction keys generalizing c with
  | nil => exact nofun
  | cons k keys ih =>
    rw [List.map_cons, List.nodup_cons] at hnodup
    rw [firstError] at h
    unfold Stores
    rw [readKeys, List.forall_mem_cons]
    cases hk : k.read props with
    | error e =>
      rw [hk] at h
      cases h
    | ok v =>
      rw [hk] at h
      refine ⟨⟨v, rfl, ?_⟩, ih hnodup.2 h _⟩
      show (readKeys props keys _).1 k.name = some v
      rw [readKeys_other hnodup.1, Function.update_self]

end Reading

end RpiCam
