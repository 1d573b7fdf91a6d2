import PromptMacros.Proofs.Workspace.Reachable

/-!
# How fresh the report is

After every run of actions the report is that of the documents as they were but for the texts edited since the last analysis
(`report_performAll`): never another order, never documents that are gone or have another flag. With nothing waiting it is
that of the documents as they are. An action that runs no analysis leaves the report alone (`report_perform`), so
`editedSince` counts from the last analysis and from no earlier one.
-/

namespace PromptMacros.Workspace

/-- An action replaces the report by that of an analysis, or leaves it as it is. -/
theorem report_perform (w : Workspace) (a : Action) :
    (w.perform a).2.report =
      if w.analyzes a then analyze (w.perform a).2.documents.provider (w.perform a).2.order else w.report := by
  cases effect w a with
  | analyzed h hc => rw [if_pos h, hc]
  | quiet h _ hq => rw [h, hq.report]; rfl
  | edited id content now ha _ hw =>
    subst ha
    rw [hw]
    rfl

/-- The ids of the documents edited since the last analysis, an action later; `edited` are those before it. -/
def editedAfter (w : Workspace) (edited : List String) (a : Action) : List String :=
  if w.analyzes a then [] else w.editedBy a ++ edited

/-- The ids of the documents edited since the last analysis, at the end of a run of actions; `edited` are those at its
start. -/
def editedSince (w : Workspace) (edited : List String) : List Action → List String
  | [] => edited
  | a :: actions => (w.perform a).2.editedSince (w.editedAfter edited a) actions

/-- The report is that of the documents as they are but for the texts `edited`, and with nothing waiting there are none. -/
structure UpToDate (edited : List String) (w : Workspace) : Prop where
  indexed : w.documents.Indexed
  report : ∃ s : DocumentSet, s.SameBut edited w.documents ∧ w.report = analyze s.provider w.order
  idle : w.debounce.deadline = none → edited = []

namespace UpToDate

variable {edited : List String} {w : Workspace}

/-- A workspace whose report is current is up to date with no text edited. -/
theorem of_current (hi : w.documents.Indexed) (hc : w.Current) : UpToDate [] w :=
  ⟨hi, ⟨w.documents, .refl [] w.documents, hc⟩, fun _ => rfl⟩

/-- A workspace that is up to date with no text edited has a current report. -/
theorem current (h : UpToDate [] w) : w.Current := by
  obtain ⟨s, hs, hr⟩ := h.report
  exact hr.trans (analyze_congr (hs.agreeOn w.order))

/-- Every action keeps a workspace up to date but for the texts edited since the last analysis. -/
theorem perform (h : UpToDate edited w) (a : Action) : UpToDate (w.editedAfter edited a) (w.perform a).2 := by
  have hi := indexed_perform h.indexed a
  obtain ⟨s, hs, hr⟩ := h.report
  unfold editedAfter
  cases effect w a with
  | analyzed ha hc =>
    rw [if_pos ha]
    exact of_current hi hc
  | quiet ha hb hq =>
    rw [ha, hb, if_neg Bool.false_ne_true, List.nil_append]
    refine ⟨hi, ⟨s, hs.trans hq.documents, ?_⟩, fun hd => h.idle (hq.debounce ▸ hd)⟩
    rw [hq.report, hq.order, hr]
  | edited id content now ha hid hw =>
    subst ha
    rw [hw] at hi ⊢
    have hb : w.editedBy (.edit id content now) = [id] := if_pos hid
    rw [hb]
    refine ⟨hi, ⟨s, hs.trans (h.indexed.sameBut_modify_content id content), hr⟩, ?_⟩
    intro hd
    cases hd

/-- Every run of actions keeps a workspace up to date but for the texts edited since the last analysis. -/
theorem performAll (h : UpToDate edited w) (actions : List Action) :
    UpToDate (w.editedSince edited actions) (w.performAll actions).2 := by
  induction actions generalizing w edited with
  | nil => exact h
  | cons a actions ih => exact ih (h.perform a)

end UpToDate

/-- After every run of actions the report is that of the order as it is and of a document set that has the same ids in the
same places with the same flags, and differs in content at most in the documents edited since the last analysis; and with
nothing waiting it is that of the documents as they are. -/
theorem report_performAll {w : Workspace} (hw : Start w) (actions : List Action) :
    (∃ s : DocumentSet, s.Indexed ∧ s.SameBut (w.editedSince [] actions) (w.performAll actions).2.documents ∧
      (w.performAll actions).2.report = analyze s.provider (w.performAll actions).2.order) ∧
    ((w.performAll actions).2.status = .idle →
      (w.performAll actions).2.report =
        analyze (w.performAll actions).2.documents.provider (w.performAll actions).2.order) := by
  have h : UpToDate (w.editedSince [] actions) (w.performAll actions).2 :=
    (UpToDate.of_current hw.indexed hw.current).performAll actions
  obtain ⟨s, hs, hr⟩ := h.report
  refine ⟨⟨s, hs.indexed h.indexed, hs, hr⟩, ?_⟩
  intro hidle
  have hd : (w.performAll actions).2.debounce.deadline = none := by
    unfold status at hidle
    split at hidle
    · cases hidle
    · next hp => simpa [Debounce.isPending] using hp
  rw [h.idle hd] at h
  exact h.current

/-- The text of one document is edited and analyzed with the flag of the other, whose edit then waits: the report is that of a
set in which only the text of the other may differ. -/
theorem report_performAll_edit_waiting :
    let w := ofParts {} (.ofList [.ofContent "a" "\x7b\x7bsetvar::x::1\x7d\x7d", .ofContent "b" "\x7b\x7bgetvar::x\x7d\x7d"])
      ["a", "b"]
    let actions := [.edit "a" "" 0, .toggle "b", .edit "b" "\x7b\x7bgetvar::y\x7d\x7d" 5, .poll 100]
    let v := (w.performAll actions).2
    Start w ∧ w.editedSince [] actions = ["b"] ∧
      (∃ s : DocumentSet, s.Indexed ∧ s.SameBut (w.editedSince [] actions) v.documents ∧
        v.report = analyze s.provider v.order) ∧
      (v.status = .idle → v.report = analyze v.documents.provider v.order) :=
  have hw : Start (ofParts {} (.ofList [.ofContent "a" "\x7b\x7bsetvar::x::1\x7d\x7d",
      .ofContent "b" "\x7b\x7bgetvar::x\x7d\x7d"]) ["a", "b"]) := .parts _ _ (DocumentSet.indexed_ofList _)
  ⟨hw, by decide, report_performAll hw _⟩

end PromptMacros.Workspace
