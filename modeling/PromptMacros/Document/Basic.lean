/-!
# Documents

A prompt document: a text with macros, and what the editor knows about it.
-/

namespace PromptMacros

/-- A prompt document. -/
structure Document where
  id : String
  name : String
  content : String
  /-- Whether the macros of the document set variables. -/
  enabled : Bool
  role : String
  /-- Whether the document is a placeholder without a text of its own. -/
  marker : Bool
  /-- Whether the document belongs to the system. -/
  systemPrompt : Bool
  deriving DecidableEq, Repr, Inhabited

namespace Document

/-- The role of a document for which none is given. -/
def defaultRole : String := "system"

/-- An enabled document with this content, named after its id. -/
def ofContent (id content : String) : Document where
  id := id
  name := id
  content := content
  enabled := true
  role := defaultRole
  marker := false
  systemPrompt := false

/-- Markers and the documents of the system are exempt from removal in bulk. -/
def isStructural (d : Document) : Bool :=
  d.marker || d.systemPrompt

end Document

/-- Where the documents of an analysis are looked up by their ids. -/
abbrev Provider := String → Option Document

namespace Provider

/-- Documents in a list, of which the first with an id counts. -/
def ofList (docs : List Document) : Provider :=
  fun id => docs.find? fun d => d.id = id

end Provider

end PromptMacros
