import PromptMacros.Analysis.Report
import PromptMacros.Macro.Json

/-!
# Reports in JSON

Reports as JSON writes them. Maps become objects in the order of their keys; the snapshots stand in the order of the
identities of their macros, which is not that of their written forms.
-/

namespace PromptMacros

/-- A document in which a variable is used, as JSON. -/
def Occurrence.toJson (o : Occurrence) : Json :=
  .object [("documentId", .string o.document), ("enabled", .bool o.enabled)]

/-- Where a variable is used, as JSON. -/
def Variable.toJson (v : Variable) : Json :=
  .object [("definedIn", .list (v.definedIn.map Occurrence.toJson)),
    ("referencedIn", .list (v.referencedIn.map Occurrence.toJson))]

/-- A report as JSON. -/
def Report.toJson (r : Report) : Json :=
  .object [
    ("macros", .object (r.macros.toList.map fun (id, macros) => (id, .list (macros.map Macro.toJson)))),
    ("variables", .object (r.usage.toList.map fun (name, v) => (name, v.toJson))),
    ("unresolved", .list (r.unresolved.map fun name => .object [("varName", .string name)])),
    ("snapshots", .object (r.snapshots.toList.map fun (id, value) => (id.text, Json.ofOption value))),
    ("finalState", .object (r.finalState.toList.map fun (name, value) => (name, Json.ofOption value)))]

end PromptMacros
