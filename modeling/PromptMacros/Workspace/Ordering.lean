import PromptMacros.Workspace.Basic

/-!
# Changing the order

Changes of the order in which documents run. Each is analyzed at once if it changes anything, and tells whether it did.
-/

namespace PromptMacros.Workspace

/-- Takes another order, in which of equal ids the first counts. -/
def setOrder (order : List String) (w : Workspace) : Workspace :=
  analyzed { w with order := Order.firsts order }

/-- Takes another order if there is one; whether there was. -/
def reorder (order : Option (List String)) (w : Workspace) : Bool × Workspace :=
  match order with
  | none => (false, w)
  | some order => (true, analyzed { w with order := order })

/-- Lets a document run first. -/
def moveToTop (id : String) (w : Workspace) : Bool × Workspace :=
  w.reorder (Order.toTop? id w.order)

/-- Lets a document run last. -/
def moveToBottom (id : String) (w : Workspace) : Bool × Workspace :=
  w.reorder (Order.toBottom? id w.order)

/-- The order with an id right behind the selected document, or in front of all when none that runs is selected. -/
def orderWith (id : String) (w : Workspace) : List String :=
  (w.selectedDocument.bind fun anchor => Order.insertAfter? anchor id w.order).getD (id :: w.order)

/-- Lets a document run that does not, right behind the selected one. -/
def addToOrder (id : String) (w : Workspace) : Except Error Bool × Workspace :=
  if w.documents.contains id = false then (.error (.unknownDocument id), w)
  else if w.isInOrder id then (.ok false, w)
  else (.ok true, analyzed { w with order := w.orderWith id })

/-- Lets a document run no more. -/
def hide (id : String) (w : Workspace) : Bool × Workspace :=
  w.reorder (if w.isInOrder id then some (Order.without id w.order) else none)

end PromptMacros.Workspace
