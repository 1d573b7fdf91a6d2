import PromptMacros.Proofs.Macro.Note
import PromptMacros.Proofs.Workspace.Coherence

/-!
# Creating a document

A document added under a new id runs at one place of the order, and if its macros neither set nor read anything, the report gains
these macros and is the same otherwise (`report_insert_of_idle`). A document created by an editor is of this kind when the note in
the settings is text for a comment (`report_create`). The note is not looked at, though: one that closes the comment and opens a
macro behind it makes a new document that sets variables (`report_create_reopened`).
-/

namespace PromptMacros.Workspace

variable {w : Workspace} {fresh : String}

/-- A document under a new id is put into the order and analyzed there. -/
theorem report_insert_of_new {doc : Document} (hnew : w.documents.contains doc.id = false) (hrun : doc.id ∉ w.order) :
    (w.insert doc).report = analyze (w.documents.insert doc).2.provider (w.orderWith doc.id) := by
  have hindex : w.documents.index[doc.id]? = none := Std.ExtTreeMap.getElem?_eq_none_of_contains_eq_false hnew
  have hput : ((w.documents.insert doc).1.isNone && !w.isInOrder doc.id) = true := by
    rw [DocumentSet.Indexed.insert_of_none hindex]
    simp [isInOrder, hrun]
  exact congrArg (analyze (w.documents.insert doc).2.provider) (if_pos hput)

/-- A document of idle macros under a new id adds its macros to the report, and nothing else. -/
theorem report_insert_of_idle (hw : w.documents.Indexed) {doc : Document} (hnew : w.documents.contains doc.id = false)
    (hrun : doc.id ∉ w.order) (hidle : ∀ m ∈ Macro.ofContent doc.id doc.content, m.Idle) :
    (w.insert doc).report =
      { analyze w.documents.provider w.order with
        macros := (analyze w.documents.provider w.order).macros.insert doc.id (Macro.ofContent doc.id doc.content) } := by
  obtain ⟨before, after, horder, hwith⟩ := exists_orderWith doc.id w
  have hfound : (w.documents.insert doc).2.provider doc.id = some doc := (hw.get?_insert doc doc.id).trans (if_pos rfl)
  have hsame : analyze (w.documents.insert doc).2.provider (before ++ after) = analyze w.documents.provider w.order := by
    rw [← horder]
    exact analyze_congr (hw.agreeOn_insert hrun)
  rw [report_insert_of_new hnew hrun, hwith, analyze_append_cons_of_idle hfound hidle, hsame]

/-- In every reachable workspace, the content of a document created there is exactly one macro, a comment, unless the note in the
settings reopens; and unless it does, the report is that of the documents as they were, with this macro under the new id. -/
theorem report_create (hw : w.Reachable) (hfresh : (Action.create fresh).UnusedIn w) :
    ((w.create fresh).document? fresh).map Document.content = some w.config.newDocumentContent ∧
      ((∃ m, Macro.ofContent fresh w.config.newDocumentContent = [m] ∧ m.kind = .comment) ↔ ¬w.config.NoteReopens) ∧
      (¬w.config.NoteReopens → (w.create fresh).report =
        { analyze w.documents.provider w.order with
          macros := (analyze w.documents.provider w.order).macros.insert fresh
            (Macro.ofContent fresh w.config.newDocumentContent) }) := by
  have hone := w.config.ofContent_newDocumentContent_iff fresh
  refine ⟨?_, hone, fun hnote => ?_⟩
  · have hfound : (w.create fresh).document? fresh =
        some { Document.ofContent fresh w.config.newDocumentContent with name := w.config.newDocumentName } :=
      (hw.indexed.get?_insert _ fresh).trans (if_pos rfl)
    rw [hfound]
    rfl
  · obtain ⟨m, hm, hkind⟩ := hone.mpr hnote
    refine report_insert_of_idle hw.indexed hfresh.1 hfresh.2 ?_
    change ∀ x ∈ Macro.ofContent fresh w.config.newDocumentContent, x.Idle
    rw [hm]
    exact List.forall_mem_singleton.mpr (.of_comment hkind)

/-- A note with braces that do not reopen, and a document that reads what an edit that waits will have set. -/
theorem report_create_braces :
    let config : Config := { newDocumentNote := "\x7b\x7bsetvar::x::1 \x7d\x7d \x7d \x7b" }
    let w := ((ofParts config (.ofList [.ofContent "a" "", .ofContent "b" "\x7b\x7bgetvar::x\x7d\x7d"]) ["a", "b"]).performAll
      [.selectDocument "a", .edit "a" "\x7b\x7bsetvar::x::2\x7d\x7d" 5]).2
    w.Reachable ∧ w.status = .pending ∧ (Action.create "c").UnusedIn w ∧ ¬w.config.NoteReopens ∧
      (∃ m, Macro.ofContent "c" w.config.newDocumentContent = [m] ∧ m.kind = .comment) ∧
      (w.create "c").order = ["a", "c", "b"] ∧
      (w.create "c").report =
        { analyze w.documents.provider w.order with
          macros := (analyze w.documents.provider w.order).macros.insert "c"
            (Macro.ofContent "c" w.config.newDocumentContent) } := by
  intro config w
  have hw : w.Reachable :=
    Reachable.performAll (.start (.parts _ _ (DocumentSet.indexed_ofList _))) ⟨trivial, trivial, trivial⟩
  have hfresh : (Action.create "c").UnusedIn w := ⟨by decide +kernel, by decide +kernel⟩
  have hnote : ¬w.config.NoteReopens := by decide +kernel
  obtain ⟨-, hone, hreport⟩ := report_create hw hfresh
  exact ⟨hw, by decide +kernel, hfresh, hnote, hone.mpr hnote, by decide +kernel, hreport hnote⟩

/-- A note that reopens: the new document has a macro behind its comment, which sets a variable that another document reads. -/
theorem report_create_reopened :
    let config : Config := { newDocumentNote := "\x7d\x7d\x7b\x7bsetvar::x::1" }
    let w := ofParts config (.ofList [.ofContent "a" "\x7b\x7bgetvar::x\x7d\x7d"]) ["a"]
    w.Reachable ∧ (Action.create "b").UnusedIn w ∧
      (Macro.ofContent "b" w.config.newDocumentContent).map Macro.kind = [.comment, .setVar (some "x") (some "1")] ∧
      (analyze w.documents.provider w.order).snapshot? ⟨"a", 0⟩ = none ∧
      (w.create "b").report.snapshot? ⟨"a", 0⟩ = some "1" ∧
      (analyze w.documents.provider w.order).unresolved = ["x"] ∧ (w.create "b").report.unresolved = [] :=
  ⟨.start (.parts _ _ (DocumentSet.indexed_ofList _)), ⟨by decide +kernel, by decide +kernel⟩, by decide +kernel,
    by decide +kernel, by decide +kernel, by decide +kernel, by decide +kernel⟩

end PromptMacros.Workspace
