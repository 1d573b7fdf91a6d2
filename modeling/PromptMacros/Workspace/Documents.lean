import PromptMacros.Workspace.Ordering

/-!
# Changing documents

Adding, copying, removing and changing documents, but for their texts. Whatever may change the report is analyzed at
once. An operation on a document that is not there is refused and changes nothing (`withDocument_eq_of_get?_eq_none`).
-/

namespace PromptMacros.Workspace

/-- Adds a document, or replaces the one with its id. A new document runs right behind the selected one, unless its id is
in the order already. -/
def insert (doc : Document) (w : Workspace) : Workspace :=
  let (replaced, documents) := w.documents.insert doc
  let order := if replaced.isNone && !w.isInOrder doc.id then w.orderWith doc.id else w.order
  analyzed { w with documents := documents, order := order }

/-- Adds an enabled document with nothing but a comment in it, under an id not yet used, and selects it. -/
def create (fresh : String) (w : Workspace) : Workspace :=
  let doc := { Document.ofContent fresh w.config.newDocumentContent with name := w.config.newDocumentName }
  (w.insert doc).selectDocument fresh

/-- Does something to the document with this id, or refuses when there is none. -/
def withDocument {α : Type} (id : String) (w : Workspace) (f : Document → α × Workspace) :
    Except Error α × Workspace :=
  match w.documents.get? id with
  | none => (.error (.unknownDocument id), w)
  | some doc =>
    let (result, w) := f doc
    (.ok result, w)

/-- What is to be done to a document that is not there is refused, and the workspace stays as it is. -/
theorem withDocument_eq_of_get?_eq_none {α : Type} {id : String} {w : Workspace} (f : Document → α × Workspace)
    (h : w.documents.get? id = none) : w.withDocument id f = (.error (.unknownDocument id), w) := by
  rw [withDocument, h]

/-- Copies a document under an id not yet used, right behind the one copied if that runs, or else last, and selects the
copy. The copy is not structural. -/
def duplicate (id fresh : String) (w : Workspace) : Except Error String × Workspace :=
  w.withDocument id fun doc =>
    let copy := { doc with id := fresh, name := w.config.copyName doc.name, marker := false, systemPrompt := false }
    let order := (Order.insertAfter? id fresh w.order).getD (w.order ++ [fresh])
    let w := analyzed { w with documents := (w.documents.insert copy).2, order := order }
    (fresh, w.selectDocument fresh)

/-- Takes a document out of the set and the order, and the selection off it, without an analysis. A selected variable stays
selected. -/
def dropDocument (id : String) (w : Workspace) : Workspace :=
  { w with
    documents := (w.documents.remove id).2
    order := Order.without id w.order
    selectedDocument := if w.selectedDocument = some id then none else w.selectedDocument }

/-- Removes a document; the document, if there was one. -/
def remove (id : String) (w : Workspace) : Option Document × Workspace :=
  match w.documents.get? id with
  | none => (none, w)
  | some doc => (some doc, (w.dropDocument id).analyzed)

/-- Whether removal in bulk takes a document: when it is there, and not protected. -/
def isRemovable (id : String) (w : Workspace) : Bool :=
  (w.documents.get? id).any fun doc => !(w.config.protectStructural && doc.isStructural)

/-- Takes documents out one by one, without an analysis; the ids of those taken. -/
def dropRemovable (w : Workspace) : List String → List String × Workspace
  | [] => ([], w)
  | id :: ids =>
    if w.isRemovable id then
      let (removed, w) := (w.dropDocument id).dropRemovable ids
      (id :: removed, w)
    else w.dropRemovable ids

/-- Removes documents with one analysis; the ids of those removed. -/
def removeMany (ids : List String) (w : Workspace) : List String × Workspace :=
  let (removed, w) := w.dropRemovable ids
  (removed, if removed.isEmpty then w else w.analyzed)

/-- Enables a disabled document and disables an enabled one; whether it is enabled now. -/
def toggle (id : String) (w : Workspace) : Except Error Bool × Workspace :=
  w.withDocument id fun doc =>
    let enabled := !doc.enabled
    (enabled, analyzed { w with documents := w.documents.modify id fun d => { d with enabled := enabled } })

/-- Enables or disables a document. -/
def setEnabled (id : String) (enabled : Bool) (w : Workspace) : Except Error Unit × Workspace :=
  w.withDocument id fun doc =>
    if doc.enabled = enabled then ((), w)
    else ((), analyzed { w with documents := w.documents.modify id fun d => { d with enabled := enabled } })

/-- Gives a document another name. -/
def setName (id name : String) (w : Workspace) : Except Error Unit × Workspace :=
  w.withDocument id fun _ => ((), { w with documents := w.documents.modify id fun d => { d with name := name } })

/-- Gives a document another role. -/
def setRole (id role : String) (w : Workspace) : Except Error Unit × Workspace :=
  w.withDocument id fun _ => ((), { w with documents := w.documents.modify id fun d => { d with role := role } })

end PromptMacros.Workspace
