import Std.Data.ExtTreeMap
import PromptMacros.Document.Basic
import PromptMacros.Macro.Basic

/-!
# The flow of macros

The macros of the documents of an order, document by document, and all of them in the order in which they run. Ids
without a document are skipped, and a document that the order lists twice runs twice.
-/

namespace PromptMacros

/-- The macros of each document. -/
abbrev ParsedMacros := Std.ExtTreeMap String (List Macro)

/-- The macros of each document that the order lists and the provider has. -/
def ParsedMacros.ofOrder (provider : Provider) (order : List String) : ParsedMacros :=
  order.foldl (fun parsed id =>
    match provider id with
    | none => parsed
    | some d => parsed.insert id (Macro.ofContent id d.content)) ∅

/-- The macros of the documents of the order, in the order in which they run. -/
def flow (order : List String) (parsed : ParsedMacros) : List Macro :=
  order.flatMap fun id => parsed.getD id []

end PromptMacros
