import Std.Data.ExtTreeSet
import PromptMacros.Macro.Kind
import PromptMacros.Macro.Token

/-!
# Macros of a document

A macro of a document is a token with an identity, the document and the byte position, and a kind. Identities are ordered
by document and then by position (`MacroId.compare_eq_eq_iff`), and written as the two with a hyphen between them.
-/

namespace PromptMacros

/-- The identity of a macro: the document it stands in and the byte position of its opening braces. -/
structure MacroId where
  document : String
  offset : Nat
  deriving DecidableEq, Repr, Inhabited

namespace MacroId

/-- Identities are ordered by document and, within one, by position. -/
instance : Ord MacroId :=
  ⟨compareLex (compareOn document) (compareOn offset)⟩

instance : Std.TransOrd MacroId :=
  inferInstanceAs (Std.TransCmp (compareLex (compareOn document) (compareOn offset)))

/-- Two identities are at the same place of the order only if they are equal. -/
theorem compare_eq_eq_iff {a b : MacroId} : compare a b = .eq ↔ a = b := by
  cases a
  cases b
  change compareLex (compareOn document) (compareOn offset) _ _ = .eq ↔ _
  simp [compareLex, compareOn, Ordering.then_eq_eq]

instance : Std.LawfulEqOrd MacroId where
  eq_of_compare := compare_eq_eq_iff.mp

/-- The written form of an identity. -/
def text (id : MacroId) : String :=
  id.document ++ "-" ++ toString id.offset

instance : ToString MacroId := ⟨text⟩

/-- The identities of a list in their order, each once. -/
def sorted (ids : List MacroId) : List MacroId :=
  (Std.ExtTreeSet.ofList ids).toList

end MacroId

/-- A macro of a document. -/
structure Macro where
  id : MacroId
  /-- The whole macro with its braces. -/
  full : String
  /-- The body without white space at its ends. -/
  inner : String
  /-- Where the macro stands in the content of its document, in bytes. -/
  range : ByteRange
  kind : Kind
  deriving DecidableEq, Repr

namespace Macro

/-- The macro of a document that a token stands for. -/
def ofToken (document : String) (t : Token) : Macro where
  id := ⟨document, t.offset⟩
  full := String.ofList t.full
  inner := String.ofList t.inner
  range := t.range
  kind := Kind.classify t.inner

/-- The macros of a document with this content, from left to right. -/
def ofContent (document content : String) : List Macro :=
  (Token.ofText content.toList).map (ofToken document)

/-- Every macro of a document carries the identity of the document. -/
theorem document_of_mem_ofContent {document content : String} {m : Macro} (h : m ∈ ofContent document content) :
    m.id.document = document := by
  obtain ⟨t, -, rfl⟩ := List.mem_map.mp h
  rfl

/-- The variable that the macro sets or reads. -/
def varName? (m : Macro) : Option String :=
  m.kind.varName?

end Macro

/-- The names of the variables that a text sets or reads, sorted, each once. -/
def variableNames (text : String) : List String :=
  (Std.ExtTreeSet.ofList ((Token.ofText text.toList).filterMap fun t => (Kind.classify t.inner).varName?)).toList

/-- A name is among the variable names of a text exactly when a macro of the text sets or reads it. -/
theorem mem_variableNames_iff {text name : String} :
    name ∈ variableNames text ↔ ∃ t ∈ Token.ofText text.toList, (Kind.classify t.inner).varName? = some name := by
  simp [variableNames, Std.ExtTreeSet.mem_ofList, List.mem_filterMap]

/-- The variable names of a text are strictly increasing. -/
theorem pairwise_lt_variableNames (text : String) : (variableNames text).Pairwise (compare · · = .lt) :=
  Std.ExtTreeSet.ordered_toList

end PromptMacros
