import PromptMacros.Analysis.Report
import PromptMacros.Config.Basic
import PromptMacros.Debounce
import PromptMacros.Document.Set
import PromptMacros.Error
import PromptMacros.Order

/-!
# Workspaces

What an editor holds: settings, documents, the order in which they run, the report of the last analysis, the deadline of
the edits that wait for one, and what is selected. A selected document and a selected variable are held apart; selecting one
takes the selection off the other. Changes of structure are analyzed at once (`Workspace.analyzed`); edits of a text wait for
the debounce.
-/

namespace PromptMacros

/-- The documents of an editor and what it knows about them. -/
structure Workspace where
  config : Config
  documents : DocumentSet
  /-- The ids of documents in the order in which they run. -/
  order : List String
  /-- The report of the last analysis. -/
  report : Report
  /-- The deadline of the edits that wait for an analysis. -/
  debounce : Debounce
  /-- The id of the document that is selected, if one is. -/
  selectedDocument : Option String
  /-- The name of the variable that is selected, if one is. -/
  selectedVariable : Option String

/-- Whether edits wait for an analysis. -/
inductive Status
  | idle
  | pending
  deriving DecidableEq, Repr

namespace Workspace

/-- The workspace after an analysis of its documents. -/
def analyzed (w : Workspace) : Workspace :=
  { w with report := analyze w.documents.provider w.order }

/-- A workspace with these documents, analyzed; of equal ids in the order the first counts. -/
def ofParts (config : Config) (documents : DocumentSet) (order : List String) : Workspace :=
  analyzed {
    config := config
    documents := documents
    order := Order.firsts order
    report := {}
    debounce := { delay := config.debounceMs }
    selectedDocument := none
    selectedVariable := none }

/-- A workspace without documents. -/
def ofConfig (config : Config) : Workspace :=
  ofParts config ∅ []

/-- Whether edits wait for an analysis. -/
def status (w : Workspace) : Status :=
  if w.debounce.isPending then .pending else .idle

/-- The document with this id. -/
def document? (w : Workspace) (id : String) : Option Document :=
  w.documents.get? id

/-- Whether the document with this id runs. -/
def isInOrder (w : Workspace) (id : String) : Bool :=
  w.order.contains id

/-- The documents in the order in which they run. -/
def orderedDocuments (w : Workspace) : List Document :=
  w.order.filterMap w.documents.get?

/-- The document in which a macro stands. -/
def documentOf? (w : Workspace) (id : MacroId) : Option Document :=
  w.documents.get? id.document

/-- Selects a document, whether there is one with this id or not, and no variable. -/
def selectDocument (id : String) (w : Workspace) : Workspace :=
  { w with selectedDocument := some id, selectedVariable := none }

/-- Selects a variable and no document; the empty name selects none and leaves the selection as it is. -/
def selectVariable (name : String) (w : Workspace) : Workspace :=
  if name = "" then w else { w with selectedVariable := some name, selectedDocument := none }

/-- Selects nothing. -/
def clearSelection (w : Workspace) : Workspace :=
  { w with selectedDocument := none, selectedVariable := none }

end Workspace

end PromptMacros
