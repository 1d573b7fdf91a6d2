import PromptMacros.Json.Basic
import PromptMacros.Macro.Basic

/-!
# Macros in JSON

Macros and their identities as JSON writes them.
-/

namespace PromptMacros

namespace Json

/-- A text that may be absent, as JSON. -/
def ofOption : Option String → Json
  | none => null
  | some s => string s

/-- A natural number as JSON. -/
def ofNat (n : Nat) : Json :=
  number (.integer n)

end Json

/-- The kind of a macro as JSON. -/
def Kind.toJson : Kind → Json
  | comment => .object [("type", .string "comment")]
  | setVar name value =>
    .object [("type", .string "setvar"), ("name", Json.ofOption name), ("value", Json.ofOption value)]
  | getVar name => .object [("type", .string "getvar"), ("name", .string name)]
  | other tag params =>
    .object [("type", .string "other"), ("tag", .string tag), ("params", .list (params.map .string))]

/-- The identity of a macro as JSON: its written form. -/
def MacroId.toJson (id : MacroId) : Json :=
  .string id.text

/-- A range of bytes as JSON. -/
def ByteRange.toJson (r : ByteRange) : Json :=
  .object [("start", Json.ofNat r.start), ("end", Json.ofNat r.stop)]

/-- A macro as JSON. -/
def Macro.toJson (m : Macro) : Json :=
  .object [("id", m.id.toJson), ("full", .string m.full), ("inner", .string m.inner), ("range", m.range.toJson),
    ("kind", m.kind.toJson)]

end PromptMacros
