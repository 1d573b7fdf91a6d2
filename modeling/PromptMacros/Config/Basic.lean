/-!
# Settings

The settings of a workspace, and the texts made from them.
-/

namespace PromptMacros

/-- The settings of a workspace. -/
structure Config where
  /-- How long after an edit the analysis waits for another one, in milliseconds. -/
  debounceMs : Nat := 300
  /-- What is put behind the name of a copied document. -/
  copySuffix : String := "Copy"
  /-- The name of a new document. -/
  newDocumentName : String := "New Prompt"
  /-- What the comment in a new document says. -/
  newDocumentNote : String := "New prompt"
  /-- Whether structural documents are exempt from removal in bulk. -/
  protectStructural : Bool := true
  deriving DecidableEq, Repr, Inhabited

namespace Config

/-- The content of a new document: a comment with the note. -/
def newDocumentContent (c : Config) : String :=
  "\x7b\x7b// " ++ c.newDocumentNote ++ "\x7d\x7d"

/-- The name of the copy of a document with this name. -/
def copyName (c : Config) (name : String) : String :=
  name ++ " (" ++ c.copySuffix ++ ")"

end Config

end PromptMacros
