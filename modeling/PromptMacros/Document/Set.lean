import Std.Data.ExtTreeMap
import PromptMacros.Document.Basic

/-!
# Document sets

Documents in the order in which they were first inserted, found by their ids through an index of their positions. An id is
inserted once: inserting it again replaces the document in its place. Removing a document moves those behind it up, and
the index with them. In-place changes never touch the id (`toList_map_ids`).
-/

namespace PromptMacros

/-- Documents in order, and where each id stands. -/
structure DocumentSet where
  docs : Array Document
  index : Std.ExtTreeMap String Nat

namespace DocumentSet

/-- The set without documents. -/
def empty : DocumentSet :=
  ⟨#[], ∅⟩

instance : EmptyCollection DocumentSet := ⟨empty⟩

instance : Inhabited DocumentSet := ⟨empty⟩

/-- The documents in their order. -/
def toList (s : DocumentSet) : List Document :=
  s.docs.toList

/-- The number of documents. -/
def size (s : DocumentSet) : Nat :=
  s.docs.size

/-- Whether there are no documents. -/
def isEmpty (s : DocumentSet) : Bool :=
  s.docs.isEmpty

/-- Two sets are the same when they have the same documents in the same order. -/
instance : BEq DocumentSet :=
  ⟨fun s t => s.docs == t.docs⟩

/-- The document with this id. -/
def get? (s : DocumentSet) (id : String) : Option Document :=
  s.index[id]?.bind fun i => s.docs[i]?

/-- Whether a document has this id. -/
def contains (s : DocumentSet) (id : String) : Bool :=
  s.index.contains id

/-- Puts a document into the place of the one with its id, or at the end; the document replaced, and the set. -/
def insert (s : DocumentSet) (doc : Document) : Option Document × DocumentSet :=
  match s.index[doc.id]? with
  | some i => (s.docs[i]?, { s with docs := s.docs.setIfInBounds i doc })
  | none => (none, ⟨s.docs.push doc, s.index.insert doc.id s.docs.size⟩)

/-- Takes the document with this id out; the document, and the set. -/
def remove (s : DocumentSet) (id : String) : Option Document × DocumentSet :=
  match s.index[id]? with
  | some i =>
    (s.docs[i]?, ⟨s.docs.eraseIdxIfInBounds i, (s.index.erase id).map fun _ j => if i < j then j - 1 else j⟩)
  | none => (none, s)

/-- Changes fields of the document with this id, which keeps its id. -/
def modify (s : DocumentSet) (id : String) (f : Document → Document) : DocumentSet :=
  match s.index[id]? with
  | some i => { s with docs := s.docs.modify i fun d => { f d with id := d.id } }
  | none => s

/-- Changes fields of all documents, which keep their ids. -/
def map (s : DocumentSet) (f : Document → Document) : DocumentSet :=
  { s with docs := s.docs.map fun d => { f d with id := d.id } }

/-- The set of the documents of a list, inserted in turn. -/
def ofList (docs : List Document) : DocumentSet :=
  docs.foldl (fun s d => (s.insert d).2) empty

/-- The set as a place to look documents up. -/
def provider (s : DocumentSet) : Provider :=
  s.get?

/-- Changing all documents changes them one by one and keeps their order and ids. -/
theorem toList_map (s : DocumentSet) (f : Document → Document) :
    (s.map f).toList = s.toList.map fun d => { f d with id := d.id } := by
  simp [map, toList]

/-- Changing all documents changes no id. -/
theorem toList_map_ids (s : DocumentSet) (f : Document → Document) :
    (s.map f).toList.map Document.id = s.toList.map Document.id := by
  simp [toList_map, Function.comp_def]

end DocumentSet

/-- Documents in a map, by the ids under which they are found there. -/
def Provider.ofMap (docs : Std.ExtTreeMap String Document) : Provider :=
  fun id => docs[id]?

end PromptMacros
