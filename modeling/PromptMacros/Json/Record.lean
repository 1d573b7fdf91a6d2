import PromptMacros.Json.Tree

/-!
# Records in JSON

A record with named fields is written as an object, in which other fields are skipped and a field of the record may stand
once at most, or as a list of its first fields in their order. `Tree.record?` finds what is written for each field, and the
readers of single values turn it into a value or refuse it.
-/

namespace PromptMacros.Json.Tree

/-- What is written for a field among named trees: nothing, or one tree; refused when there are several. -/
def single? (key : String) (fields : List (String × Tree)) : Option (Option Tree) :=
  match fields.filter fun field => field.1 = key with
  | [] => some none
  | [field] => some (some field.2)
  | _ :: _ :: _ => none

/-- What is written for each of the named fields of a record, in their order; refused when the tree is neither an object
that has each at most once nor a list of at most as many items. -/
def record? (keys : List String) : Tree → Option (List (Option Tree))
  | object fields => do
    let named ← fields.mapM fun (key, tree) => (TextUnit.text? key).map fun key => (key, tree)
    keys.mapM fun key => single? key named
  | list items =>
    if items.length ≤ keys.length then some (items.map some ++ List.replicate (keys.length - items.length) none)
    else none
  | null | bool _ | number _ | string _ => none

/-- The text that the tree is, if it is one. -/
def readText? : Tree → Option String
  | string units => TextUnit.text? units
  | null | bool _ | number _ | list _ | object _ => none

/-- The truth value that the tree is, if it is one. -/
def readBool? : Tree → Option Bool
  | bool b => some b
  | null | number _ | string _ | list _ | object _ => none

/-- The number of 64 bits without a sign that the tree is, if it is one. -/
def readWord? : Tree → Option Nat
  | number n => n.toWord?
  | null | bool _ | string _ | list _ | object _ => none

/-- The value of a field: what is written for it, or else the one that stands in for it. -/
def readOr {α : Type} (default : α) (read? : Tree → Option α) : Option Tree → Option α
  | none => some default
  | some tree => read? tree

end PromptMacros.Json.Tree
