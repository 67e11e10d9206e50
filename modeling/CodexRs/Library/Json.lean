import CodexRs.Library.Text

/-!
# JSON values

Values as a parser delivers them, with the accessors that answer for every value: an
access that does not fit the value gives nothing.
-/
namespace CodexRs
open Text

inductive JsonNumber where
  | posInt (n : UInt64)
  | negInt (n : ℤ)
  | float (text : Str)
deriving DecidableEq

inductive Json where
  | null
  | bool (b : Bool)
  | number (n : JsonNumber)
  | string (s : Str)
  | array (items : List Json)
  | object (fields : List (String × Json))

namespace Json

def get (key : String) : Json → Option Json
  | .object fields => fields.lookup key
  | _ => none

def asStr : Json → Option Str
  | .string s => some s
  | _ => none

def asArray : Json → Option (List Json)
  | .array items => some items
  | _ => none

def asU64 : Json → Option UInt64
  | .number (.posInt n) => some n
  | _ => none

def isNull : Json → Bool
  | .null => true
  | _ => false

/-- The field set to a value, at its place if it is there and behind the others if not. -/
def insertField (key : String) (value : Json) : List (String × Json) → List (String × Json)
  | [] => [(key, value)]
  | (k, v) :: fields =>
    if k = key then (key, value) :: fields else (k, v) :: insertField key value fields

def insert (json : Json) (key : String) (value : Json) : Json :=
  match json with
  | .object fields => .object (insertField key value fields)
  | json => json

def ofString (s : String) : Json := .string s.toList

def ofOption {α : Type*} (f : α → Json) : Option α → Json
  | none => .null
  | some a => f a

@[simp] theorem get_object_nil (k : String) : get k (.object []) = none := rfl

@[simp] theorem get_object_cons (k key : String) (value : Json) (fields : List (String × Json)) :
    get k (.object ((key, value) :: fields)) =
      if k = key then some value else get k (.object fields) := by
  by_cases h : k = key
  · simp [get, h]
  · simp [get, List.lookup_cons, h, beq_eq_false_iff_ne.mpr h]

@[simp] theorem asStr_ofString (s : String) : asStr (ofString s) = some s.toList := rfl

@[simp] theorem asStr_string (s : Str) : asStr (.string s) = some s := rfl

@[simp] theorem asArray_array (items : List Json) : asArray (.array items) = some items := rfl

theorem lookup_insertField (key k : String) (value : Json) (fields : List (String × Json)) :
    (insertField key value fields).lookup k = if k = key then some value else fields.lookup k := by
  induction fields with
  | nil =>
    by_cases h : k = key
    · simp [insertField, h]
    · simp [insertField, h]
  | cons field fields ih =>
    obtain ⟨name, v⟩ := field
    rw [insertField]
    by_cases hname : name = key
    · subst hname
      by_cases h : k = name
      · simp [h]
      · simp [List.lookup_cons, h, beq_eq_false_iff_ne.mpr h]
    · rw [if_neg hname, List.lookup_cons, List.lookup_cons, ih]
      by_cases h : k = name
      · subst h
        simp [hname]
      · simp [beq_eq_false_iff_ne.mpr h]

theorem get_insert_of_ne {key k : String} (h : k ≠ key) (value json : Json) :
    (json.insert key value).get k = json.get k := by
  cases json <;> try rfl
  simp [insert, get, lookup_insertField, h]

theorem get_insert_self {json : Json} {k : String} (h : (json.get k).isSome = true) (key : String)
    (value : Json) : (json.insert key value).get key = some value := by
  cases json <;> try cases h
  simp [insert, get, lookup_insertField]

mutual
def same : Json → Json → Bool
  | .null, .null => true
  | .bool a, .bool b => a = b
  | .number a, .number b => a = b
  | .string a, .string b => a = b
  | .array a, .array b => sameItems a b
  | .object a, .object b => sameFields a b
  | _, _ => false

def sameItems : List Json → List Json → Bool
  | [], [] => true
  | a :: as, b :: bs => same a b && sameItems as bs
  | _, _ => false

def sameFields : List (String × Json) → List (String × Json) → Bool
  | [], [] => true
  | a :: as, b :: bs => sameField a b && sameFields as bs
  | _, _ => false

def sameField : String × Json → String × Json → Bool
  | (k, a), (l, b) => k = l && same a b
end

mutual
theorem same_iff : ∀ a b : Json, same a b = true ↔ a = b
  | .null, b => by cases b <;> simp [same]
  | .bool _, b => by cases b <;> simp [same]
  | .number _, b => by cases b <;> simp [same]
  | .string _, b => by cases b <;> simp [same]
  | .array a, b => by cases b <;> simp [same, sameItems_iff a]
  | .object a, b => by cases b <;> simp [same, sameFields_iff a]

theorem sameItems_iff : ∀ a b : List Json, sameItems a b = true ↔ a = b
  | [], b => by cases b <;> simp [sameItems]
  | a :: as, b => by cases b <;> simp [sameItems, same_iff a, sameItems_iff as]

theorem sameFields_iff : ∀ a b : List (String × Json), sameFields a b = true ↔ a = b
  | [], b => by cases b <;> simp [sameFields]
  | a :: as, b => by cases b <;> simp [sameFields, sameField_iff a, sameFields_iff as]

theorem sameField_iff : ∀ a b : String × Json, sameField a b = true ↔ a = b
  | (k, a), (l, b) => by simp [sameField, same_iff a]
end

instance : DecidableEq Json := fun a b => decidable_of_iff _ (same_iff a b)

end Json

end CodexRs
