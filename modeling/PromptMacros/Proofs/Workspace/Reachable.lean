import PromptMacros.Proofs.Preset.Export
import PromptMacros.Proofs.Workspace.Effect

/-!
# Reachable workspaces

The workspaces that actions in turn make of one with which an editor starts. In each of them the index of the documents is
right (`Reachable.indexed`), and the report is current when no edit waits (`Reachable.settled`), so that a flush leaves the
report of the documents as they are (`Settled.report_flush`).
-/

namespace PromptMacros

/-- The documents of a preset have a right index. -/
theorem Preset.indexed_contents (p : Preset) : p.contents.1.Indexed := by
  unfold Preset.contents
  have h : (documentsOf p.prompts).Indexed := DocumentSet.indexed_ofList _
  dsimp only
  split
  · exact h
  · exact Preset.indexed_enableListed h _

/-- The ids that an action gives to new documents are those of no document and in no order. -/
def Action.UnusedIn (w : Workspace) : Action → Prop
  | .create fresh | .duplicate _ fresh => w.documents.contains fresh = false ∧ fresh ∉ w.order
  | _ => True

namespace Workspace

/-- The workspaces with which an editor starts: an empty one, one made of parts, and that of a preset. -/
inductive Start : Workspace → Prop
  | config (config : Config) : Start (ofConfig config)
  | parts (config : Config) {documents : DocumentSet} (order : List String) (h : documents.Indexed) :
      Start (ofParts config documents order)
  | preset {text : String} {config : Config} {p : Preset} {w : Workspace} (h : Preset.load text config = .ok (p, w)) :
      Start w

/-- The workspaces that actions in turn make of one with which an editor starts. -/
inductive Reachable : Workspace → Prop
  | start {w : Workspace} (h : Start w) : Reachable w
  | perform {w : Workspace} (a : Action) (h : Reachable w) (ha : a.UnusedIn w) : Reachable (w.perform a).2

/-- Each of the actions gives new documents ids that are unused where it is performed. -/
def UnusedAlong (w : Workspace) : List Action → Prop
  | [] => True
  | a :: actions => a.UnusedIn w ∧ UnusedAlong (w.perform a).2 actions

/-- Actions in turn lead from a reachable workspace to a reachable one. -/
theorem Reachable.performAll {w : Workspace} {actions : List Action} (h : Reachable w) (hactions : w.UnusedAlong actions) :
    Reachable (w.performAll actions).2 := by
  induction actions generalizing w with
  | nil => exact h
  | cons a actions ih =>
    obtain ⟨ha, hactions⟩ := hactions
    exact ih (h.perform a ha) hactions

/-- When no edit waits, the report is current. -/
def Settled (w : Workspace) : Prop :=
  w.debounce.deadline = none → w.Current

/-! ## The start -/

/-- An editor starts with a workspace made of parts. -/
theorem Start.exists_parts {w : Workspace} (h : Start w) :
    ∃ (config : Config) (documents : DocumentSet) (order : List String),
      documents.Indexed ∧ w = ofParts config documents order := by
  cases h with
  | config config => exact ⟨config, ∅, [], DocumentSet.indexed_empty, rfl⟩
  | @parts config documents order h => exact ⟨config, documents, order, h, rfl⟩
  | @preset text config p w h =>
    unfold Preset.load at h
    cases hp : Preset.parse text with
    | error e => rw [hp] at h; cases h
    | ok q =>
      rw [hp] at h
      obtain ⟨rfl, rfl⟩ := Prod.mk.inj (Except.ok.inj h)
      exact ⟨config, q.contents.1, q.contents.2, q.indexed_contents, rfl⟩

theorem Start.indexed {w : Workspace} (h : Start w) : w.documents.Indexed := by
  obtain ⟨config, documents, order, hd, rfl⟩ := h.exists_parts
  exact hd

theorem Start.current {w : Workspace} (h : Start w) : w.Current := by
  obtain ⟨config, documents, order, -, rfl⟩ := h.exists_parts
  rfl

/-! ## What the parts of actions keep -/

section Kept

variable {w : Workspace} {P : Workspace → Prop}

/-- What is done to a document is done, or refused because there is no document. -/
theorem withDocument_induction {α : Type} {id : String} {f : Document → α × Workspace} (hw : P w)
    (hf : ∀ doc, P (f doc).2) : P (w.withDocument id f).2 := by
  unfold withDocument
  split
  · exact hw
  · next doc _ => exact hf doc

/-- Documents are taken out one by one. -/
theorem dropRemovable_induction (hw : P w) (hdrop : ∀ v id, P v → P (dropDocument id v)) (ids : List String) :
    P (w.dropRemovable ids).2 := by
  induction ids generalizing w with
  | nil => exact hw
  | cons id ids ih =>
    unfold dropRemovable
    split
    · exact ih (hdrop w id hw)
    · exact ih hw

/-- A renaming does what a flush does, and it may write other documents and then select the variable, if it was selected, by
its new name. -/
theorem rename_induction {old new : String} (hflush : P w.flush.2)
    (hrenamed : ∀ name, checkNewName w.flush.2.report.knows old new = .ok name →
      let v := analyzed { w.flush.2 with documents := (renameIn w.flush.2.documents old name).2 }
      P v ∧ (w.flush.2.selectedVariable = some old → P { v with selectedVariable := some name })) :
    P (w.rename old new).2 := by
  unfold rename
  dsimp only
  split
  · exact hflush
  · next name hname =>
    obtain ⟨hkept, hselected⟩ := hrenamed name hname
    split
    · exact hflush
    · dsimp only
      split
      · next hold => exact hselected hold
      · exact hkept

end Kept

/-! ## The index of the documents -/

section Indexed

variable {w : Workspace}

theorem indexed_reorder (h : w.documents.Indexed) (order : Option (List String)) :
    (w.reorder order).2.documents.Indexed := by
  cases order <;> exact h

theorem indexed_dropDocument (h : w.documents.Indexed) (id : String) : (w.dropDocument id).documents.Indexed :=
  h.remove id

/-- A flush changes no document, and neither the order, the selection nor the settings. -/
theorem flush_eq (w : Workspace) : w.flush.2 = { w with report := w.flush.2.report, debounce := w.flush.2.debounce } := by
  unfold flush
  dsimp only
  split <;> rfl

theorem documents_flush (w : Workspace) : w.flush.2.documents = w.documents := by
  rw [flush_eq]

theorem order_flush (w : Workspace) : w.flush.2.order = w.order := by
  rw [flush_eq]

theorem indexed_rename (h : w.documents.Indexed) (old new : String) : (w.rename old new).2.documents.Indexed := by
  have hf : w.flush.2.documents.Indexed := documents_flush w ▸ h
  exact rename_induction (P := fun v => v.documents.Indexed) hf fun _ _ => ⟨hf.map _, fun _ => hf.map _⟩

/-- Every action keeps the index right. -/
theorem indexed_perform (h : w.documents.Indexed) (a : Action) : (w.perform a).2.documents.Indexed := by
  cases a with
  | setOrder _ | analyze | selectDocument _ | clearSelection => exact h
  | moveToTop _ | moveToBottom _ | hide _ => exact indexed_reorder h _
  | addToOrder id =>
    simp only [perform, snd_ofResult, addToOrder]
    split
    · exact h
    · split <;> exact h
  | insert doc => exact h.insert doc
  | create fresh => exact h.insert _
  | duplicate id fresh =>
    simp only [perform, snd_ofResult]
    exact withDocument_induction (P := fun v => v.documents.Indexed) h fun _ => h.insert _
  | remove id =>
    simp only [perform, snd_of, remove]
    split
    · exact h
    · exact indexed_dropDocument h id
  | removeMany ids =>
    have hd := dropRemovable_induction (P := fun v => v.documents.Indexed) h (fun _ id hv => indexed_dropDocument hv id) ids
    simp only [perform, snd_of, removeMany]
    split <;> exact hd
  | toggle id =>
    simp only [perform, snd_ofResult]
    exact withDocument_induction (P := fun v => v.documents.Indexed) h fun _ => h.modify _ _
  | setEnabled id enabled =>
    simp only [perform, snd_ofResult]
    refine withDocument_induction (P := fun v => v.documents.Indexed) h ?_
    intro doc
    split
    · exact h
    · exact h.modify _ _
  | setName _ _ | setRole _ _ | edit _ _ _ =>
    simp only [perform, snd_ofResult]
    exact withDocument_induction (P := fun v => v.documents.Indexed) h fun _ => h.modify _ _
  | poll now =>
    simp only [perform, snd_of, poll]
    split <;> exact h
  | flush =>
    simp only [perform, snd_of, documents_flush]
    exact h
  | settle =>
    simp only [perform, snd_of, settle_eq_flush, documents_flush]
    exact h
  | rename old new =>
    simp only [perform, snd_ofResult]
    exact indexed_rename h old new
  | selectVariable name =>
    simp only [perform, selectVariable]
    split <;> exact h

theorem Reachable.indexed (h : Reachable w) : w.documents.Indexed := by
  induction h with
  | start h => exact h.indexed
  | perform a _ _ ih => exact indexed_perform ih a

end Indexed

/-! ## The report -/

section Settled

variable {w v : Workspace}

/-- A workspace in which an analysis sees the same has a current report if the first has. -/
theorem Quiet.current (h : Quiet w v) (hw : w.Current) : v.Current := by
  unfold Current
  rw [h.report, h.order, hw]
  exact analyze_congr (h.documents.agreeOn w.order)

/-- Every action leaves the report current when no edit waits then. -/
theorem Settled.perform (h : w.Settled) (a : Action) : (w.perform a).2.Settled := by
  intro hd
  cases effect w a with
  | analyzed _ hc => exact hc
  | quiet _ _ hq => exact hq.current (h (hq.debounce ▸ hd))
  | edited id content now _ _ hw =>
    rw [hw] at hd
    cases hd

theorem Reachable.settled (h : Reachable w) : w.Settled := by
  induction h with
  | start h => exact fun _ => h.current
  | perform a _ _ ih => exact ih.perform a

/-- A flush leaves the report of the documents as they are. -/
theorem Settled.report_flush (h : w.Settled) : w.flush.2.report = analyze w.documents.provider w.order := by
  rcases flush_cases w with ⟨-, hc, -⟩ | ⟨hp, hf⟩
  · rw [hc, documents_flush, order_flush]
  · rw [hf]
    exact h (by simpa [Debounce.isPending] using hp)

end Settled

end Workspace

end PromptMacros
