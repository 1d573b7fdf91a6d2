import PromptMacros.Proofs.Analysis.LastWrite
import PromptMacros.Proofs.Analysis.Records
import PromptMacros.Proofs.Preset.RoundTrip
import PromptMacros.Proofs.Workspace.Coherence

/-!
# Saving and loading again

A workspace is exported, and what was exported is loaded: the documents are the same, and the order goes on from where it was
(`exists_reloads`). An export tells which documents the order lists, not that another one is hidden, and import puts documents
that no order lists at the end. So the order and the report are those that were saved exactly when no document is outside the
order (`Reloads.order_eq_iff`, `Reloads.report_eq_iff`), and a hidden document comes back (`not_kept_hidden`). In any case the
documents that were in the order have the macros and see the values that they did (`Report.GoesOn`).
-/

namespace PromptMacros

/-! ## Orders that go on -/

/-- A report on an order that goes on behind these ids: of their documents it says what the first report does. -/
structure Report.GoesOn (ids : List String) (r r' : Report) : Prop where
  macrosOf_eq : ∀ id ∈ ids, r'.macrosOf id = r.macrosOf id
  snapshots_eq : ∀ id : MacroId, id.document ∈ ids → r'.snapshots[id]? = r.snapshots[id]?
  /-- The documents noted for a variable are noted first. -/
  variableNamed?_eq : ∀ name v, r.variableNamed? name = some v → ∃ v', r'.variableNamed? name = some v' ∧
    v.definedIn <+: v'.definedIn ∧ v.referencedIn <+: v'.referencedIn

section Orders

variable {provider : Provider} {order others : List String}

/-- An id that leads to no document has no macros. -/
theorem flatMap_macrosOf_filter {p : String → Bool} (h : ∀ id, (provider id).isSome → p id = true) :
    (order.filter p).flatMap provider.macrosOf = order.flatMap provider.macrosOf := by
  induction order with
  | nil => rfl
  | cons id order ih =>
    by_cases hp : p id = true
    · rw [List.filter_cons_of_pos hp, List.flatMap_cons, List.flatMap_cons, ih]
    · have hnone : provider id = none := by
        cases hd : provider id with
        | none => rfl
        | some d => exact absurd (h id (by rw [hd]; rfl)) hp
      have hempty : provider.macrosOf id = [] := by rw [Provider.macrosOf, hnone]
      rw [List.filter_cons_of_neg hp, List.flatMap_cons, hempty, List.nil_append, ih]

/-- Ids that lead to no document can be left out of an order. -/
theorem analyze_filter {p : String → Bool} (h : ∀ id, (provider id).isSome → p id = true) :
    analyze provider (order.filter p) = analyze provider order := by
  have hparsed : ParsedMacros.ofOrder provider (order.filter p) = ParsedMacros.ofOrder provider order := by
    refine Std.ExtTreeMap.ext_getElem? ?_
    intro id
    rw [ParsedMacros.getElem?_ofOrder, ParsedMacros.getElem?_ofOrder]
    cases hd : provider id with
    | none => simp
    | some d =>
      have hp : p id = true := h id (by rw [hd]; rfl)
      simp [hp]
  rw [analyze_eq, analyze_eq, hparsed, flatMap_macrosOf_filter h]

/-- A report tells which documents the order lists. -/
theorem mem_macros_analyze_iff {id : String} :
    id ∈ (analyze provider order).macros ↔ id ∈ order ∧ (provider id).isSome := by
  change id ∈ ParsedMacros.ofOrder provider order ↔ _
  rw [Std.ExtTreeMap.mem_iff_isSome_getElem?, ParsedMacros.getElem?_ofOrder]
  split
  · next h => simp [h]
  · next h => simp [h]

/-- A document that runs is listed in every order with the same report. -/
theorem mem_of_analyze_eq {order' : List String} {id : String} (h : analyze provider order' = analyze provider order)
    (hid : id ∈ order') (hd : (provider id).isSome) : id ∈ order := by
  have hreported : id ∈ (analyze provider order').macros := mem_macros_analyze_iff.mpr ⟨hid, hd⟩
  rw [h] at hreported
  exact (mem_macros_analyze_iff.mp hreported).1

/-- The documents noted are noted first when the order goes on. -/
theorem isPrefix_documentsWith (h : (order ++ others).Nodup) (p : Macro → Bool) :
    provider.documentsWith order p <+: provider.documentsWith (order ++ others) p := by
  unfold Provider.documentsWith
  rw [Order.firsts_eq_self h, Order.firsts_eq_self h.of_append_left, List.filterMap_append, List.filter_append]
  exact List.prefix_append _ _

/-- An order that goes on behind documents leaves what a report says of them. -/
theorem goesOn_analyze (hp : provider.Keyed) (h : (order ++ others).Nodup) :
    (analyze provider order).GoesOn order (analyze provider (order ++ others)) := by
  refine ⟨fun id hid => ?_, fun id hid => ?_, fun name v hv => ?_⟩
  · rw [macrosOf_analyze, macrosOf_analyze, if_pos hid, if_pos (List.mem_append_left others hid)]
  · exact getElem?_snapshots_analyze_append h hid
  · have hknown := knows_of_variableNamed? hv
    have hknown' : (analyze provider (order ++ others)).knows name = true := by
      obtain ⟨id, hid, huse⟩ := knows_analyze_iff.mp hknown
      exact knows_analyze_iff.mpr ⟨id, List.mem_append_left others hid, huse⟩
    rw [variableNamed?_analyze hp hknown] at hv
    obtain rfl := Option.some.inj hv
    exact ⟨_, variableNamed?_analyze hp hknown', (isPrefix_documentsWith h _).map _, (isPrefix_documentsWith h _).map _⟩

end Orders

namespace Preset

/-- What loading makes of an export of a workspace. -/
structure Reloads (p : Preset) (w v : Workspace) : Prop where
  documents_eq : v.documents = w.documents
  /-- The order goes on from where it was with the documents outside of it, sorted. -/
  order_eq : ∃ others : List Document, v.order = w.order.filter w.documents.contains ++ others.map Document.id ∧
    others.Perm (w.documents.toList.filter fun d => d.id ∉ w.order) ∧ others.Pairwise (p.Precedes w.documents)
  report_eq : v.report = analyze w.documents.provider v.order
  /-- The order comes back exactly when no document is outside of it. -/
  order_eq_iff : v.order = w.order.filter w.documents.contains ↔ ∀ d ∈ w.documents.toList, d.id ∈ w.order
  /-- So does the report. -/
  report_eq_iff : v.report = analyze w.documents.provider w.order ↔ ∀ d ∈ w.documents.toList, d.id ∈ w.order
  /-- What is said of the documents in the order stays. -/
  goesOn : (analyze w.documents.provider w.order).GoesOn (w.order.filter w.documents.contains) v.report

variable {p : Preset} {w : Workspace}

/-- A set contains the ids that lead to documents. -/
theorem contains_of_isSome_provider {documents : DocumentSet} (h : documents.Indexed) (id : String)
    (hid : (documents.provider id).isSome) : documents.contains id = true := by
  obtain ⟨d, hd⟩ := Option.isSome_iff_exists.mp hid
  exact h.contains_iff.mpr ⟨d, h.get?_eq_some_iff.mp hd⟩

/-- What was exported of a workspace is a workspace again, which goes on from where the first was. -/
theorem Reimports.reloads {q : Preset} (hq : p.Reimports w.documents w.order q) (hw : w.Reachable) (config : Config) :
    p.Reloads w (q.workspace config) := by
  have h := hw.indexed
  obtain ⟨hnodup, hcomplete⟩ := hq.complete h
  have hkept : Order.firsts (w.order.filter w.documents.contains) = w.order.filter w.documents.contains :=
    Order.firsts_eq_self (hw.nodup_order.filter _)
  have hfiltered : analyze w.documents.provider (w.order.filter w.documents.contains) = analyze w.documents.provider w.order :=
    analyze_filter (contains_of_isSome_provider h)
  have hdocuments : (q.workspace config).documents = w.documents := hq.documents_eq
  have horder : (q.workspace config).order = q.contents.2 := Order.firsts_eq_self hnodup
  have hreport : (q.workspace config).report = analyze w.documents.provider q.contents.2 := by
    rw [← hdocuments, ← horder]
    rfl
  have hall : ∀ d ∈ w.documents.toList, d.id ∈ q.contents.2 :=
    fun d hd => (hcomplete d.id).mpr (h.contains_iff.mpr ⟨d, hd, rfl⟩)
  obtain ⟨others, heq, hothers, hsorted⟩ := hq.order_eq
  rw [hkept] at heq
  refine ⟨hdocuments, ⟨others, horder.trans heq, hothers, hsorted⟩, horder ▸ hreport, ?_, ?_, ?_⟩
  · rw [horder]
    constructor
    · intro hsame d hd
      exact (List.mem_filter.mp (hsame ▸ hall d hd)).1
    · intro hlisted
      rw [hq.order_eq_of_listed hlisted, hkept]
  · rw [hreport]
    constructor
    · -- A report has an entry for each document that ran, so a document more shows even if it has no macros.
      intro hsame d hd
      have hfound : w.documents.provider d.id = some d := h.get?_eq_some_iff.mpr ⟨hd, rfl⟩
      exact mem_of_analyze_eq hsame (hall d hd) (by rw [hfound]; rfl)
    · intro hlisted
      rw [hq.order_eq_of_listed hlisted, hkept, hfiltered]
  · rw [hreport, heq, ← hfiltered]
    exact goesOn_analyze (Provider.keyed_of_indexed h) (heq ▸ hnodup)

/-- An export that is read back is loaded as a workspace with what import finds in it. -/
theorem load_exportText {documents : DocumentSet} {order : List String} (h : (p.toJson documents order).ReadsBack)
    (config : Config) : load (p.exportText documents order) config =
      .ok (⟨p.exportFields documents order⟩, workspace ⟨p.exportFields documents order⟩ config) := by
  rw [load, parse_exportText h]
  rfl

/-- A preset that is read back is loaded from its text. -/
theorem load_pretty (h : (Json.object p.fields).ReadsBack) (config : Config) :
    load (Json.object p.fields).pretty config = .ok (p, p.workspace config) := by
  rw [load, parse, h]
  rfl

/-- A prompt with an identifier and a content is readable. -/
theorem readable_prompt (room : Nat) (id content : String) :
    Json.Readable (room + 1) (.object [("content", .string content), ("identifier", .string id)]) :=
  have hkeys : compare "content" "identifier" = .lt := by decide +kernel
  .pair hkeys (.string room content) (.string room id)

/-- An object with one readable field is readable. -/
theorem readable_singleton {room : Nat} {value : Json} (h : Json.Readable room value) (key : String) :
    Json.Readable (room + 1) (.object [(key, value)]) :=
  .object (List.pairwise_singleton _ _) (List.forall_mem_singleton.mpr h)

/-- Neither the order nor the report comes back when a document is hidden: the second of two documents that set a variable is
hidden, and runs again, and last, when the workspace is loaded. -/
theorem not_kept_hidden :
    let p : Preset := ⟨[
      ("prompt_order", .list [.object [("order", .list [
        .object [("identifier", .string "a")], .object [("identifier", .string "b")]])]]),
      ("prompts", .list [
        .object [("content", .string "\x7b\x7bsetvar::x::1\x7d\x7d"), ("identifier", .string "a")],
        .object [("content", .string "\x7b\x7bsetvar::x::2\x7d\x7d"), ("identifier", .string "b")]])]⟩
    let w := ((p.workspace {}).perform (.hide "b")).2
    load (Json.object p.fields).pretty {} = .ok (p, p.workspace {}) ∧ w.Reachable ∧ (∀ d ∈ w.documents.toList, d.id ≠ "") ∧
      (p.toJson w.documents w.order).ReadsBack ∧ w.order.filter w.documents.contains = ["a"] ∧
      ∃ q v, load (p.exportText w.documents w.order) {} = .ok (q, v) ∧ v.order = ["a", "b"] ∧
        v.report ≠ analyze w.documents.provider w.order := by
  intro p w
  have hp : Json.Readable Json.maxDepth (.object p.fields) := by
    refine .pair (by decide +kernel) (.list (List.forall_mem_singleton.mpr (readable_singleton (.list ?_) _))) (.list ?_)
    · refine List.forall_mem_cons.mpr ⟨readable_singleton (.string _ _) _, ?_⟩
      exact List.forall_mem_singleton.mpr (readable_singleton (.string _ _) _)
    · exact List.forall_mem_cons.mpr ⟨readable_prompt _ _ _, List.forall_mem_singleton.mpr (readable_prompt _ _ _)⟩
  have hload : load (Json.object p.fields).pretty {} = .ok (p, p.workspace {}) := load_pretty hp.readsBack {}
  have hw : w.Reachable := .perform _ (.start (.preset hload)) trivial
  have hids : ∀ d ∈ w.documents.toList, d.id ≠ "" := by decide +kernel
  have hread : (p.toJson w.documents w.order).ReadsBack := (readable_toJson hp w.documents w.order).readsBack
  have hkept : w.order.filter w.documents.contains = ["a"] := by decide +kernel
  have hothers : (w.documents.toList.filter fun d => d.id ∉ w.order) = [.ofContent "b" "\x7b\x7bsetvar::x::2\x7d\x7d"] := by
    decide +kernel
  have hv := (reimports_exported p hw.indexed hids w.order).reloads hw {}
  refine ⟨hload, hw, hids, hread, hkept, _, _, load_exportText hread {}, ?_, fun hreport => ?_⟩
  · obtain ⟨others, heq, hperm, -⟩ := hv.order_eq
    rw [hothers, List.perm_singleton] at hperm
    rw [heq, hkept, hperm]
    rfl
  · have hall := hv.report_eq_iff.mp hreport
    revert hall
    decide +kernel

/-- A workspace that is exported can be loaded, and goes on from where it was. -/
theorem exists_reloads (hw : w.Reachable) (hids : ∀ d ∈ w.documents.toList, d.id ≠ "")
    (hread : (p.toJson w.documents w.order).ReadsBack) (config : Config) :
    ∃ q v, load (p.exportText w.documents w.order) config = .ok (q, v) ∧ p.Reloads w v :=
  ⟨_, _, load_exportText hread config, (reimports_exported p hw.indexed hids w.order).reloads hw config⟩

/-- Three prompts, of which the order of another character lists two, are loaded. The last of them is hidden, and an edit waits
when the workspace is exported. -/
theorem exists_reloads_hidden :
    let p : Preset := ⟨[
      ("prompt_order", .list [.object [("character_id", .number (.integer 7)), ("order", .list [
        .object [("identifier", .string "b")], .object [("identifier", .string "a")]])]]),
      ("prompts", .list [
        .object [("content", .string "\x7b\x7bsetvar::x::1\x7d\x7d"), ("identifier", .string "a")],
        .object [("content", .string ""), ("identifier", .string "b")],
        .object [("content", .string "\x7b\x7bgetvar::x\x7d\x7d"), ("identifier", .string "c")]])]⟩
    let w := ((p.workspace {}).performAll [.hide "c", .edit "b" "\x7b\x7bgetvar::x\x7d\x7d" 5]).2
    load (Json.object p.fields).pretty {} = .ok (p, p.workspace {}) ∧ w.Reachable ∧ (∀ d ∈ w.documents.toList, d.id ≠ "") ∧
      (p.toJson w.documents w.order).ReadsBack ∧
      ∃ q v, load (p.exportText w.documents w.order) {} = .ok (q, v) ∧ p.Reloads w v ∧ v.order = ["b", "a", "c"] := by
  intro p w
  have hp : Json.Readable Json.maxDepth (.object p.fields) := by
    have hseven : ∀ room, Json.Readable room (.number (.integer 7)) :=
      fun room => .number room (Json.numberReads_integer (by decide) (by decide))
    refine .pair (by decide +kernel) (.list (List.forall_mem_singleton.mpr ?_)) (.list ?_)
    · refine .pair (by decide +kernel) (hseven _) (.list ?_)
      refine List.forall_mem_cons.mpr ⟨readable_singleton (.string _ _) _, ?_⟩
      exact List.forall_mem_singleton.mpr (readable_singleton (.string _ _) _)
    · refine List.forall_mem_cons.mpr ⟨readable_prompt _ _ _, ?_⟩
      exact List.forall_mem_cons.mpr ⟨readable_prompt _ _ _, List.forall_mem_singleton.mpr (readable_prompt _ _ _)⟩
  have hload : load (Json.object p.fields).pretty {} = .ok (p, p.workspace {}) := load_pretty hp.readsBack {}
  have hw : w.Reachable := (Workspace.Reachable.start (.preset hload)).performAll ⟨trivial, trivial, trivial⟩
  have hids : ∀ d ∈ w.documents.toList, d.id ≠ "" := by decide +kernel
  have hread : (p.toJson w.documents w.order).ReadsBack := (readable_toJson hp w.documents w.order).readsBack
  have hkept : w.order.filter w.documents.contains = ["b", "a"] := by decide +kernel
  have hothers : (w.documents.toList.filter fun d => d.id ∉ w.order) = [.ofContent "c" "\x7b\x7bgetvar::x\x7d\x7d"] := by
    decide +kernel
  obtain ⟨q, v, hloaded, hv⟩ := exists_reloads hw hids hread {}
  refine ⟨hload, hw, hids, hread, q, v, hloaded, hv, ?_⟩
  obtain ⟨others, heq, hperm, -⟩ := hv.order_eq
  rw [hothers, List.perm_singleton] at hperm
  rw [heq, hkept, hperm]
  rfl

end Preset

end PromptMacros
