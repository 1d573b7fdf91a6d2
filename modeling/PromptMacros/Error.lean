import PromptMacros.Text.Quoted

/-!
# What can go wrong

The causes for which an operation is refused, and the message for each.
-/

namespace PromptMacros

/-- Why a text is no preset. -/
inductive PresetFault
  /-- The text is not JSON. -/
  | notJson
  /-- The text is JSON, but not an object. -/
  | notObject
  deriving DecidableEq, Repr

/-- Why an operation is refused. -/
inductive Error
  /-- The new name of a variable is empty. -/
  | emptyName
  /-- The new name of a variable contains white space. -/
  | blankInName (name : String)
  /-- The new name of a variable contains a character that delimits macros or their parts. -/
  | reservedInName (name : String)
  /-- The new name is that of another variable. -/
  | nameTaken (name : String)
  /-- No variable has this name. -/
  | unknownVariable (name : String)
  /-- No document has this id. -/
  | unknownDocument (id : String)
  /-- A text is no preset. -/
  | preset (fault : PresetFault)
  deriving DecidableEq, Repr

/-- The end of the message about a text that is no preset. -/
def PresetFault.message : PresetFault → String
  | notJson => "not valid JSON"
  | notObject => "top-level value is not an object"

/-- The message about an error. -/
def Error.message : Error → String
  | emptyName => "Variable name must not be empty"
  | blankInName name => "Variable name must not contain whitespace: " ++ Text.quoted name
  | reservedInName name => "Variable name must not contain ':', '\x7b' or '\x7d': " ++ Text.quoted name
  | nameTaken name => "Variable name already in use: " ++ name
  | unknownVariable name => "Variable not found: " ++ name
  | unknownDocument id => "Document not found: " ++ id
  | preset fault => "Invalid preset: " ++ fault.message

end PromptMacros
