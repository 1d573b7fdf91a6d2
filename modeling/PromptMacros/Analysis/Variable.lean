/-!
# Where variables are used

For each variable, the documents that set it and the documents that read it. A document is noted once, the first time, with
the flag it has then (`Occurrence.noteIn_of_mem`).
-/

namespace PromptMacros

/-- A document in which a variable is used, and whether the document is enabled. -/
structure Occurrence where
  document : String
  enabled : Bool
  deriving DecidableEq, Repr

/-- Notes a document at the end of a list unless the document is in it. -/
def Occurrence.noteIn (o : Occurrence) (list : List Occurrence) : List Occurrence :=
  if list.any fun p => p.document = o.document then list else list ++ [o]

/-- A document that was noted before is not noted again. -/
theorem Occurrence.noteIn_of_mem {o p : Occurrence} {list : List Occurrence} (hp : p ∈ list)
    (h : p.document = o.document) : o.noteIn list = list :=
  if_pos (List.any_eq_true.mpr ⟨p, hp, by simpa using h⟩)

/-- A document that was not noted before is noted last. -/
theorem Occurrence.noteIn_of_forall_ne {o : Occurrence} {list : List Occurrence}
    (h : ∀ p ∈ list, p.document ≠ o.document) : o.noteIn list = list ++ [o] :=
  if_neg (by simpa using h)

/-- The documents that set a variable and those that read it, each in the order in which they first do. -/
structure Variable where
  definedIn : List Occurrence := []
  referencedIn : List Occurrence := []
  deriving DecidableEq, Repr, Inhabited

namespace Variable

/-- Whether the variable is read but nowhere set. -/
def isUnresolved (v : Variable) : Bool :=
  v.definedIn.isEmpty && !v.referencedIn.isEmpty

/-- Whether the variable is set but nowhere read. -/
def isUnreferenced (v : Variable) : Bool :=
  !v.definedIn.isEmpty && v.referencedIn.isEmpty

/-- Notes that a document sets the variable. -/
def define (v : Variable) (o : Occurrence) : Variable :=
  { v with definedIn := o.noteIn v.definedIn }

/-- Notes that a document reads the variable. -/
def reference (v : Variable) (o : Occurrence) : Variable :=
  { v with referencedIn := o.noteIn v.referencedIn }

end Variable

end PromptMacros
