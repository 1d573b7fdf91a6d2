import PromptMacros.Proofs.Analysis.Copy
import PromptMacros.Proofs.Workspace.Coherence

/-!
# Copying a document that runs

A document that runs is copied right behind itself (`exists_copy_duplicate`), and the analysis that follows sees the copy with
the content and the flag of the document, whatever edits waited before. So it is the analysis of the documents as they were with a
copy run behind the document (`report_duplicate`), which changes nothing for all others.
-/

namespace PromptMacros.Workspace

variable {w : Workspace} {d : Document}

/-- The copy of a document that runs is analyzed with it, right behind it. -/
theorem exists_copy_duplicate (fresh : String) {before after : List String} (hd : w.documents.get? d.id = some d)
    (horder : w.order = before ++ d.id :: after) (hbefore : d.id ∉ before) :
    ∃ c : Document, c.id = fresh ∧ c.content = d.content ∧ c.enabled = d.enabled ∧
      (w.duplicate d.id fresh).1 = .ok fresh ∧ (w.duplicate d.id fresh).2.order = before ++ [d.id, fresh] ++ after ∧
      (w.duplicate d.id fresh).2.report = analyze (w.documents.insert c).2.provider (before ++ [d.id, fresh] ++ after) := by
  have hafter : Order.insertAfter? d.id fresh w.order = some (before ++ [d.id, fresh] ++ after) :=
    Order.insertAfter?_eq_some_iff.mpr ⟨before, after, hbefore, horder, by simp⟩
  rw [duplicate, withDocument, hd, hafter]
  exact ⟨{ d with id := fresh, name := w.config.copyName d.name, marker := false, systemPrompt := false },
    rfl, rfl, rfl, rfl, rfl, rfl⟩

/-- Copying a document that runs leaves the report that the documents as they are have with a copy run behind the document: but
for the copy itself, and the entries for it behind those for the document, nothing changes. -/
theorem report_duplicate {fresh : String} (hw : w.Reachable) (hd : d ∈ w.documents.toList) (hrun : d.id ∈ w.order)
    (hfresh : (Action.duplicate d.id fresh).UnusedIn w) :
    (w.duplicate d.id fresh).1 = .ok fresh ∧
      (analyze w.documents.provider w.order).WithCopy d fresh (w.duplicate d.id fresh).2.report := by
  have hget : w.documents.get? d.id = some d := hw.indexed.get?_eq_some_iff.mpr ⟨hd, rfl⟩
  obtain ⟨before, after, horder⟩ := List.append_of_mem hrun
  have hnodup : (before ++ d.id :: after).Nodup := horder ▸ hw.nodup_order
  have hbefore : d.id ∉ before := fun h => (List.nodup_append.mp hnodup).2.2 _ h _ List.mem_cons_self rfl
  obtain ⟨c, rfl, hcontent, henabled, hanswer, hplaced, hreport⟩ := exists_copy_duplicate fresh hget horder hbefore
  have hne : c.id ≠ d.id := fun h => hfresh.2 (h ▸ hrun)
  have hcopy : (w.documents.insert c).2.provider.HasCopy d c := by
    refine ⟨(hw.indexed.get?_insert c d.id).trans ?_, (hw.indexed.get?_insert c c.id).trans (if_pos rfl), hcontent, henabled⟩
    rw [if_neg hne, hget]
  have hkeyed : (w.documents.insert c).2.provider.Keyed := Provider.keyed_of_indexed (hw.indexed.insert c)
  have hcopied : (before ++ [d.id, c.id] ++ after).Nodup := by
    have hnext := (hw.perform (.duplicate d.id c.id) hfresh).nodup_order
    rwa [perform, snd_ofResult, hplaced] at hnext
  have hsame : analyze (w.documents.insert c).2.provider (before ++ [d.id] ++ after) = analyze w.documents.provider w.order := by
    rw [← List.append_cons, ← horder]
    exact analyze_congr (hw.indexed.agreeOn_insert hfresh.2)
  rw [hreport, ← hsame]
  exact ⟨hanswer, withCopy_analyze hkeyed hcopy hcopied⟩

/-- A structural document that is disabled is copied while an edit of it waits; it sets what it reads, and a document behind it
reads what it sets. -/
theorem report_duplicate_waiting :
    let content := "\x7b\x7bgetvar::x\x7d\x7d\x7b\x7bsetvar::x::2\x7d\x7d"
    let b := { Document.ofContent "b" content with enabled := false, marker := true }
    let documents := DocumentSet.ofList [.ofContent "a" "\x7b\x7bsetvar::x::1\x7d\x7d", { b with content := "" },
      .ofContent "c" "\x7b\x7bgetvar::x\x7d\x7d\x7b\x7bgetvar::y\x7d\x7d"]
    let w := ((ofParts {} documents ["a", "ghost", "b", "c"]).perform (.edit "b" content 5)).2
    let v := (w.duplicate "b" "e").2
    w.Reachable ∧ w.status = .pending ∧ b ∈ w.documents.toList ∧ b.id ∈ w.order ∧ (Action.duplicate b.id "e").UnusedIn w ∧
      (w.duplicate b.id "e").1 = .ok "e" ∧ (analyze w.documents.provider w.order).WithCopy b "e" v.report ∧
      v.order = ["a", "ghost", "b", "e", "c"] ∧
      v.report.variableNamed? "x" =
        some ⟨[⟨"a", true⟩, ⟨"b", false⟩, ⟨"e", false⟩], [⟨"b", false⟩, ⟨"e", false⟩, ⟨"c", true⟩]⟩ := by
  intro content b documents w v
  have hw : w.Reachable := .perform _ (.start (.parts _ _ (DocumentSet.indexed_ofList _))) trivial
  have hb : b ∈ w.documents.toList := by decide +kernel
  have hrun : b.id ∈ w.order := by decide +kernel
  have hfresh : (Action.duplicate b.id "e").UnusedIn w := ⟨by decide +kernel, by decide +kernel⟩
  obtain ⟨hanswer, hcopy⟩ := report_duplicate hw hb hrun hfresh
  exact ⟨hw, by decide +kernel, hb, hrun, hfresh, hanswer, hcopy, by decide +kernel, by decide +kernel⟩

end PromptMacros.Workspace
