import PromptMacros.Macro.Layout
import PromptMacros.Macro.Kind

/-!
# Where a macro names its variable

The name of a variable stands in its macro between white space. `NameSite.find?` finds the place: nothing of the macro is
lost (`NameSite.text_of_find?_eq_some`), so a name is replaced by writing another between what comes before and after it.
-/

namespace PromptMacros

open Text

/-- A macro as what comes before the name of its variable, the name, and what comes after it. -/
structure NameSite where
  before : List Char
  name : List Char
  after : List Char
  deriving DecidableEq, Repr

namespace NameSite

/-- The characters of the macro. -/
def text (s : NameSite) : List Char :=
  s.before ++ s.name ++ s.after

/-- The macro with another name. -/
def renamed (s : NameSite) (name : List Char) : List Char :=
  s.before ++ name ++ s.after

/-- Where the name stands, in bytes from the opening of the macro. -/
def range (s : NameSite) : ByteRange :=
  ⟨byteLength s.before, byteLength s.before + byteLength s.name⟩

/-- The keyword behind which a kind of macro has the name of its variable; nothing when it names none. -/
def keyword? : Kind → Option (List Char)
  | .setVar (some _) _ => some Kind.setKeyword
  | .getVar name => if name = "" then none else some Kind.getKeyword
  | .setVar none _ | .comment | .other _ _ => none

/-- What a kind of macro counts as the name in the text behind its keyword: up to the first `::` when it sets the variable,
and all of it when it reads it. -/
def segmentOf (kind : Kind) (rest : List Char) : List Char :=
  match kind, cutPair ':' rest with
  | .setVar _ _, some (segment, _) => segment
  | _, _ => rest

/-- Where a macro of this kind names its variable; nothing when it names none. -/
def find? (kind : Kind) (full : List Char) : Option NameSite := do
  let keyword ← keyword? kind
  let body := (full.drop 2).dropLast.dropLast
  let rest ← after? keyword (trim body)
  let segment := segmentOf kind rest
  let before := full.take 2 ++ body.takeWhile isBlank ++ keyword ++ segment.takeWhile isBlank
  let name := trim segment
  let after ← after? (before ++ name) full
  pure ⟨before, name, after⟩

/-- The place found makes up the whole macro. -/
theorem text_of_find?_eq_some {kind : Kind} {full : List Char} {s : NameSite} (h : find? kind full = some s) :
    s.text = full := by
  obtain ⟨keyword, -, h⟩ := Option.bind_eq_some_iff.mp h
  obtain ⟨rest, -, h⟩ := Option.bind_eq_some_iff.mp h
  obtain ⟨after, hafter, h⟩ := Option.bind_eq_some_iff.mp h
  obtain rfl := Option.some.inj h
  exact (after?_eq_some_iff.mp hafter).symm

/-- Writing the same name again changes nothing. -/
theorem renamed_self (s : NameSite) : s.renamed s.name = s.text := rfl

end NameSite

/-- Where the macro of a piece names the variable `old`; nothing when it does not name it. -/
def Piece.site? (old : String) (p : Piece) : Option NameSite :=
  let kind := Kind.classify (trim p.body)
  if kind.varName? = some old then NameSite.find? kind p.full else none

end PromptMacros
