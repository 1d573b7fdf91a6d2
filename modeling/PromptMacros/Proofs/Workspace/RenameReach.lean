import PromptMacros.Proofs.Rename.Laws
import PromptMacros.Proofs.Workspace.RenamedReport

/-!
# What a renaming reaches

A renaming reaches the macros that name the variable in all documents of the set, in the order or not, and says truthfully
what it did (`renamedThroughout_rename`). The name is replaced in a text as often as macros of the text name the variable, so a
text changes exactly when one of its macros does (`Document.content_renamed_ne_iff`), and afterwards none does any more
(`Document.varName?_renamed_ne`).
-/

namespace PromptMacros

/-! ## Documents -/

namespace Document

variable {old new : String} {d : Document}

/-- The macros of a document, whether it runs or not. -/
def macros (d : Document) : List Macro :=
  Macro.ofContent d.id d.content

/-- The number of macros of a document that name a variable. -/
def namings (name : String) (d : Document) : Nat :=
  d.macros.countP fun m => m.varName? = some name

/-- A macro names the variable exactly when one is counted. -/
theorem namings_ne_zero_iff {name : String} : d.namings name ≠ 0 ↔ ∃ m ∈ d.macros, m.varName? = some name := by
  rw [← Nat.pos_iff_ne_zero, namings, List.countP_pos_iff]
  simp only [decide_eq_true_eq]

/-- The name is replaced in every macro that names the variable. -/
theorem count_ofText_content (old new : String) (d : Document) :
    (TextRenaming.ofText d.content old new).count = d.namings old := by
  rw [TextRenaming.count_ofText, namings, macros, Macro.countP_ofContent]

/-- In a document after a renaming to another name no macro names the variable. -/
theorem varName?_renamed_ne (hnew : ValidName new) (hne : new ≠ old) :
    ∀ m ∈ (d.renamed old new).macros, m.varName? ≠ some old := by
  have hcount : (d.renamed old new).namings old = 0 := by
    rw [namings, macros, renamed, Macro.countP_ofContent, TextRenaming.layout_ofText hnew, Layout.renamed,
      List.countP_map, List.countP_eq_zero]
    intro p _
    rw [Function.comp_apply, Piece.names_renamed hnew]
    split
    · simpa using hne
    · next hp => exact hp
  intro m hm hname
  exact namings_ne_zero_iff.mpr ⟨m, hm, hname⟩ hcount

/-- A renaming to another name changes the text of a document exactly when one of its macros names the variable. -/
theorem content_renamed_ne_iff (hnew : ValidName new) (hne : new ≠ old) :
    (d.renamed old new).content ≠ d.content ↔ ∃ m ∈ d.macros, m.varName? = some old := by
  constructor
  · intro hchanged
    rw [← namings_ne_zero_iff, ← count_ofText_content old new]
    exact fun hzero => hchanged (TextRenaming.text_eq_of_count_eq_zero hzero)
  · rintro ⟨m, hm, hname⟩ hsame
    -- The same text would have the same macros, and one of them still names the variable.
    have hmacros : (d.renamed old new).macros = d.macros := congrArg (Macro.ofContent d.id) hsame
    exact varName?_renamed_ne hnew hne m (hmacros ▸ hm) hname

end Document

/-! ## Workspaces -/

/-- `e` is the document `d` after a renaming of `old` that lists the documents it changed. -/
structure Document.Rewritten (old : String) (listed : List String) (d e : Document) : Prop where
  /-- Nothing but the text may have changed. -/
  kept : e = { d with content := e.content }
  gone : ∀ m ∈ e.macros, m.varName? ≠ some old
  changed : e.content ≠ d.content ↔ d.id ∈ listed
  listed : d.id ∈ listed ↔ ∃ m ∈ d.macros, m.varName? = some old

namespace Workspace

/-- `v` is the workspace `w` after the renaming `result` of `old`, which reached every macro that named the variable. -/
structure RenamedThroughout (old : String) (result : Renaming) (w v : Workspace) : Prop where
  oldName : result.oldName = old
  /-- All macros that named the variable are counted, over all documents of the set. -/
  replaced : result.replaced = (w.documents.toList.flatMap Document.macros).countP fun m => m.varName? = some old
  /-- The documents keep their places. -/
  documents : List.Forall₂ (Document.Rewritten old result.documents) w.documents.toList v.documents.toList
  /-- The documents listed stand in the order of the set, each once. -/
  sublist : result.documents.Sublist (w.documents.toList.map Document.id)
  nodup : result.documents.Nodup
  order : v.order = w.order
  config : v.config = w.config
  selectedVariable : v.selectedVariable = if w.selectedVariable = some old then some result.newName else w.selectedVariable
  selectedDocument : v.selectedDocument = w.selectedDocument

variable {w : Workspace} {old new : String}

/-- A renaming counts the macros that name the variable. -/
theorem replaced_renameIn (documents : DocumentSet) (old new : String) :
    (renameIn documents old new).1.replaced =
      (documents.toList.flatMap Document.macros).countP fun m => m.varName? = some old := by
  simp only [renameIn, List.foldr_map, Document.count_ofText_content]
  induction documents.toList with
  | nil => rfl
  | cons d ds ih =>
    rw [List.foldr_cons, List.flatMap_cons, List.countP_append, ih]
    rfl

/-- A renaming lists the documents in which a macro names the variable. -/
theorem documents_renameIn (documents : DocumentSet) (old new : String) :
    (renameIn documents old new).1.documents =
      (documents.toList.filter fun d => d.namings old ≠ 0).map Document.id := by
  simp only [renameIn, List.filter_map, List.map_map, Document.count_ofText_content, Function.comp_def]

/-- The documents of a renaming, in their order. -/
theorem toList_renameIn (documents : DocumentSet) (old new : String) :
    (renameIn documents old new).2.toList = documents.toList.map (Document.renamed old new) :=
  documents.toList_map _

/-- A document of the set is listed exactly when one of its macros names the variable. -/
theorem mem_documents_renameIn_iff {documents : DocumentSet} (hi : documents.Indexed) (old new : String) {d : Document}
    (hd : d ∈ documents.toList) :
    d.id ∈ (renameIn documents old new).1.documents ↔ ∃ m ∈ d.macros, m.varName? = some old := by
  rw [documents_renameIn, List.mem_map, ← Document.namings_ne_zero_iff]
  constructor
  · rintro ⟨e, he, hid⟩
    obtain ⟨hmem, hnamings⟩ := List.mem_filter.mp he
    obtain rfl : e = d := List.inj_on_of_nodup_map hi.nodup_ids hmem hd hid
    exact of_decide_eq_true hnamings
  · intro hnamings
    exact ⟨d, List.mem_filter.mpr ⟨hd, decide_eq_true hnamings⟩, rfl⟩

/-- Each document of a renaming to another name is the one in its place, rewritten. -/
theorem forall₂_renameIn {documents : DocumentSet} (hi : documents.Indexed) (hnew : ValidName new) (hne : new ≠ old) :
    List.Forall₂ (Document.Rewritten old (renameIn documents old new).1.documents) documents.toList
      (renameIn documents old new).2.toList := by
  rw [toList_renameIn, List.forall₂_map_right_iff, List.forall₂_same]
  intro d hd
  have hlisted := mem_documents_renameIn_iff hi old new hd
  exact ⟨rfl, Document.varName?_renamed_ne hnew hne, (Document.content_renamed_ne_iff hnew hne).trans hlisted.symm, hlisted⟩

/-- A new name for a variable is written wherever the variable was named. -/
theorem renamedThroughout_withRenamed (hi : w.documents.Indexed) (hnew : ValidName new) (hne : new ≠ old) :
    RenamedThroughout old (renameIn w.documents old new).1 w (w.withRenamed old new) where
  oldName := rfl
  replaced := replaced_renameIn w.documents old new
  documents := forall₂_renameIn hi hnew hne
  sublist := by
    rw [documents_renameIn]
    exact List.filter_sublist.map Document.id
  nodup := by
    rw [documents_renameIn]
    exact hi.nodup_ids.sublist (List.filter_sublist.map Document.id)
  order := order_flush w
  config := config_flush w
  selectedVariable := rfl
  selectedDocument := selectedDocument_flush w

/-- In every reachable workspace a renaming that succeeds under another name reaches every macro of every document that named
the variable, says so, and changes nothing else; under the old name it changes nothing and says that. -/
theorem renamedThroughout_rename (hw : w.Reachable) {result : Renaming} (hr : (w.rename old new).1 = .ok result) :
    (result.newName ≠ old → RenamedThroughout old result w (w.rename old new).2) ∧
      (result.newName = old → result.replaced = 0 ∧ result.documents = [] ∧ (w.rename old new).2.documents = w.documents ∧
        (w.rename old new).2.order = w.order ∧ (w.rename old new).2.config = w.config ∧
        (w.rename old new).2.selectedDocument = w.selectedDocument ∧
        (w.rename old new).2.selectedVariable = w.selectedVariable) := by
  obtain ⟨hcheck, ⟨hold, hresult, hv⟩ | ⟨hne, hresult, hv⟩⟩ := hw.settled.rename_cases hr
  · refine ⟨fun hne => absurd hold hne, fun _ => ?_⟩
    rw [hv, hresult]
    exact ⟨rfl, rfl, documents_flush w, order_flush w, config_flush w, selectedDocument_flush w, selectedVariable_flush w⟩
  · refine ⟨fun _ => ?_, fun hold => absurd hold hne⟩
    have h : RenamedThroughout old _ w (w.withRenamed old result.newName) :=
      renamedThroughout_withRenamed hw.indexed (.of_check hcheck) hne
    rw [hv]
    rwa [← hresult] at h

/-- Two macros in one text, one in a document outside the order, and one with white space around the name; the variable is
selected, and the document that does not name it stays. The same name again, with a space behind it, changes nothing. -/
theorem renamedThroughout_rename_selected :
    let w := ((ofParts {} (.ofList [.ofContent "a" "\x7b\x7bsetvar::x::x\x7d\x7d\x7b\x7bgetvar::x\x7d\x7d",
      .ofContent "b" "\x7b\x7bgetvar::y\x7d\x7d", .ofContent "c" "\x7b\x7b getvar:: x \x7d\x7d"]) ["b", "a"]).perform
      (.selectVariable "x")).2
    let result : Renaming := ⟨"x", "total", 3, ["a", "c"]⟩
    w.Reachable ∧ (w.rename "x" " total ").1 = .ok result ∧ RenamedThroughout "x" result w (w.rename "x" " total ").2 ∧
      (w.rename "x" " total ").2.selectedVariable = some "total" ∧
      (w.rename "x" "x ").1 = .ok ⟨"x", "x", 0, []⟩ ∧ (w.rename "x" "x ").2.documents = w.documents := by
  intro w result
  have hw : w.Reachable := .perform _ (.start (.parts _ _ (DocumentSet.indexed_ofList _))) trivial
  have hr : (w.rename "x" " total ").1 = .ok result := by decide +kernel
  have hself : (w.rename "x" "x ").1 = .ok ⟨"x", "x", 0, []⟩ := by decide +kernel
  exact ⟨hw, hr, (renamedThroughout_rename hw hr).1 (by decide), by decide +kernel, hself,
    ((renamedThroughout_rename hw hself).2 rfl).2.2.1⟩

end Workspace

end PromptMacros
