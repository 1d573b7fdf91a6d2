import PromptMacros.Config.Basic
import PromptMacros.Proofs.Macro.Layout
import PromptMacros.Proofs.Text.Blank

/-!
# The comment in a new document

The content of a new document is its note between the marks of a comment, and the note is taken as it is. The comment ends at the
first `}}`, which may stand in the note; what follows in the note is then text of the document again, and if `{{` stands in it, a
macro (`Config.NoteReopens`). So the content starts with a comment whatever the note says, and has no other macro exactly when the
note does not reopen (`Config.ofContent_newDocumentContent_iff`).
-/

namespace PromptMacros

open Text

/-- A body that starts with the mark of a comment and a space is that of a comment. -/
theorem Kind.classify_trim_comment (body : List Char) : classify (trim ('/' :: '/' :: ' ' :: body)) = .comment := by
  have hslash : isBlank '/' = false := by decide
  have htrim : trim ('/' :: '/' :: ' ' :: body) = commentMark ++ trimEnd (' ' :: body) := by
    rw [trim, trimStart_eq_self (by simp [hslash])]
    exact trimEnd_append_cons hslash ['/'] (' ' :: body)
  rw [htrim, classify, after?_eq_some_iff.mpr rfl]
  rfl

/-- Behind a note that is closed, the text goes on with a macro exactly when the note closes itself and opens one behind that. -/
theorem exists_cutPair_closed (note : List Char) :
    ∃ body rest, cutPair '}' (note ++ ['}', '}']) = some (body, rest) ∧
      (cutMacro rest = none ↔ ¬∃ i j, i + 2 ≤ j ∧ PairAt '}' note i ∧ PairAt '{' note j) := by
  have hclosed : ∀ cs : List Char, ∃ cut, cutPair '}' (cs ++ ['}', '}']) = some cut := by
    intro cs
    refine Option.ne_none_iff_exists'.mp fun hnone => ?_
    have hbraces := (cutPair_append_eq_none_iff.mp hnone).2.1
    simp [cutPair] at hbraces
  rw [← exists_cutPair_iff]
  cases hnote : cutPair '}' note with
  | none =>
    -- The braces behind the note close it, or the first of them together with the last character of the note.
    obtain ⟨⟨body, rest⟩, hcut⟩ := hclosed note
    have htext : note ++ ['}', '}'] = body ++ '}' :: '}' :: rest := eq_of_cutPair_eq_some hcut
    have hplace : PairAt '}' (note ++ ['}', '}']) body.length :=
      htext ▸ (firstPairAt_iff.mpr (cutPair_snoc_eq_none hcut)).1
    have hbody : note.length ≤ body.length + 1 := by
      by_contra hlt
      exact cutPair_eq_none_iff_forall_not_pairAt.mp hnote _ ((pairAt_append_left (by omega)).mp hplace)
    have hlength := congrArg List.length htext
    simp only [List.length_append, List.length_cons, List.length_nil] at hlength
    have hrest : cutMacro rest = none := by
      rcases rest with _ | ⟨a, _ | ⟨b, rest⟩⟩
      · rfl
      · simp [cutMacro, cutPair]
      · simp only [List.length_cons] at hlength
        omega
    exact ⟨body, rest, hcut, by simp [hrest]⟩
  | some cut =>
    obtain ⟨body, rest⟩ := cut
    refine ⟨body, rest ++ ['}', '}'], cutPair_append_of_eq_some hnote _, ?_⟩
    cases hopen : cutPair '{' rest with
    | none =>
      have hnone : cutPair '{' (rest ++ ['}', '}']) = none :=
        cutPair_append_eq_none_iff.mpr ⟨hopen, by simp [cutPair], by simp⟩
      simp [cutMacro, hnone, hopen]
    | some cut =>
      obtain ⟨gap, opened⟩ := cut
      obtain ⟨cut, hclose⟩ := hclosed opened
      simp [cutMacro, cutPair_append_of_eq_some hopen, hclose, hopen]

namespace Config

/-- The note closes the comment that it is put into, and opens a macro behind that. -/
def NoteReopens (c : Config) : Prop :=
  ∃ i j, i + 2 ≤ j ∧ PairAt '}' c.newDocumentNote.toList i ∧ PairAt '{' c.newDocumentNote.toList j

instance (c : Config) : Decidable c.NoteReopens :=
  decidable_of_iff (∃ cut ∈ cutPair '}' c.newDocumentNote.toList, cutPair '{' cut.2 ≠ none) <| by
    rw [NoteReopens, ← exists_cutPair_iff]
    simp [Prod.exists]

/-- The content of a new document starts with a comment, and has another macro exactly when the note reopens. -/
theorem exists_kinds_newDocumentContent (c : Config) (id : String) :
    ∃ kinds, (Macro.ofContent id c.newDocumentContent).map Macro.kind = .comment :: kinds ∧ (kinds = [] ↔ ¬c.NoteReopens) := by
  obtain ⟨body, rest, hclose, hrest⟩ := exists_cutPair_closed c.newDocumentNote.toList
  have hcut : cutMacro c.newDocumentContent.toList = some ([], '/' :: '/' :: ' ' :: body, rest) := by
    have htext : c.newDocumentContent.toList = '{' :: '{' :: '/' :: '/' :: ' ' :: (c.newDocumentNote.toList ++ ['}', '}']) := by
      simp [newDocumentContent]
    rw [htext]
    simp [cutMacro, cutPair, hclose]
  rw [Macro.kinds_ofContent, Layout.ofText_of_cutMacro_eq_some hcut, List.map_cons, Kind.classify_trim_comment]
  refine ⟨_, rfl, ?_⟩
  rw [List.map_eq_nil_iff, Layout.pieces_ofText_eq_nil_iff, hrest]
  rfl

/-- The content of a new document is one comment exactly when the note does not reopen. -/
theorem ofContent_newDocumentContent_iff (c : Config) (id : String) :
    (∃ m, Macro.ofContent id c.newDocumentContent = [m] ∧ m.kind = .comment) ↔ ¬c.NoteReopens := by
  obtain ⟨kinds, hkinds, hnil⟩ := c.exists_kinds_newDocumentContent id
  rw [← hnil]
  constructor
  · rintro ⟨m, hm, -⟩
    rw [hm, List.map_singleton] at hkinds
    exact (List.cons.inj hkinds).2.symm
  · rintro rfl
    exact List.map_eq_singleton_iff.mp hkinds

end Config

end PromptMacros
