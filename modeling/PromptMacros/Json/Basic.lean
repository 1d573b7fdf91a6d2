import PromptMacros.Json.Number

/-!
# JSON values

Values as JSON writes them, and access to the fields of objects. The fields of an object are listed in the order in which
they are written. `Fields.insert` keeps the names sorted and replaces a field of the same name
(`Fields.get?_insert`), so objects built with it have each name once.
-/

namespace PromptMacros

/-- A JSON value. -/
inductive Json
  | null
  | bool (b : Bool)
  | number (n : Number)
  | string (s : String)
  | list (items : List Json)
  | object (fields : List (String × Json))
  deriving Repr, Inhabited

/-- The fields of an object, in the order in which they are written. -/
abbrev Fields := List (String × Json)

namespace Fields

/-- The value of the first field of this name. -/
def get? (key : String) : Fields → Option Json
  | [] => none
  | (k, v) :: fields => if k = key then some v else get? key fields

/-- Sets the value of a field, which goes where its name belongs in sorted order when it is new. -/
def insert (key : String) (value : Json) : Fields → Fields
  | [] => [(key, value)]
  | (k, v) :: fields =>
    match compare key k with
    | .lt => (key, value) :: (k, v) :: fields
    | .eq => (key, value) :: fields
    | .gt => (k, v) :: insert key value fields

/-- Fields sorted by name; of several of one name the last counts. -/
def ofList (fields : List (String × Json)) : Fields :=
  fields.foldl (fun fs (key, value) => insert key value fs) []

/-- After setting a field, it has the new value and every other field has the value it had. -/
theorem get?_insert (key : String) (value : Json) (fields : Fields) (name : String) :
    (fields.insert key value).get? name = if key = name then some value else fields.get? name := by
  induction fields with
  | nil => rfl
  | cons field fields ih =>
    obtain ⟨k, v⟩ := field
    rw [insert]
    split
    · rfl
    · next h =>
      obtain rfl := Std.LawfulEqOrd.eq_of_compare h
      simp only [get?]
      split <;> rfl
    · next h =>
      have hne : k ≠ key := fun he => by simp [he] at h
      simp only [get?, ih]
      grind

end Fields

namespace Json

/-- The value of a field; nothing when the value is no object or lacks the field. -/
def get? (key : String) : Json → Option Json
  | object fields => Fields.get? key fields
  | null | bool _ | number _ | string _ | list _ => none

/-- The text that the value is, if it is one. -/
def asString? : Json → Option String
  | string s => some s
  | null | bool _ | number _ | list _ | object _ => none

/-- The truth value that the value is, if it is one. -/
def asBool? : Json → Option Bool
  | bool b => some b
  | null | number _ | string _ | list _ | object _ => none

/-- The items that the value lists, if it is a list. -/
def asList? : Json → Option (List Json)
  | list items => some items
  | null | bool _ | number _ | string _ | object _ => none

/-- The fields of the value, if it is an object. -/
def asObject? : Json → Option Fields
  | object fields => some fields
  | null | bool _ | number _ | string _ | list _ => none

/-- The whole number that the value is, if it is written as one. -/
def asInteger? : Json → Option Int
  | number (.integer n) => some n
  | null | bool _ | number (.double _) | string _ | list _ | object _ => none

/-- Items are those of a list. -/
theorem asList?_eq_some_iff {v : Json} {items : List Json} : v.asList? = some items ↔ v = list items := by
  cases v <;> simp [asList?]

/-- Fields are those of an object. -/
theorem asObject?_eq_some_iff {v : Json} {fields : Fields} : v.asObject? = some fields ↔ v = object fields := by
  cases v <;> simp [asObject?]

/-- A whole number is written as one. -/
theorem asInteger?_eq_some_iff {v : Json} {n : Int} : v.asInteger? = some n ↔ v = number (.integer n) := by
  cases v with
  | number x => cases x <;> simp [asInteger?]
  | _ => simp [asInteger?]

end Json

end PromptMacros
