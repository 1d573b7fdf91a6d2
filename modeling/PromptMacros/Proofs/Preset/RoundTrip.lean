import PromptMacros.Proofs.Json.RoundTrip
import PromptMacros.Proofs.Preset.Listed

/-!
# Export and then import

What was exported is imported again: the same set of documents, in an order that starts with the documents the exported order
lists and goes on with the others, sorted (`exists_reimports`). Only one order is like that (`Reimports.contents_eq`). All that
is asked of the preset is that what it exports is read back as it was written; its prompts and orders may have any shape. An
export of a readable preset is read back (`readable_toJson`).
-/

namespace PromptMacros

namespace Preset

/-- What import finds in an export of documents in an order. -/
structure Reimports (p : Preset) (documents : DocumentSet) (order : List String) (q : Preset) : Prop where
  documents_eq : q.contents.1 = documents
  /-- The ids that the order lists come first, and then those of the other documents, sorted. -/
  order_eq : ∃ others : List Document,
    q.contents.2 = Order.firsts (order.filter documents.contains) ++ others.map Document.id ∧
    others.Perm (documents.toList.filter fun d => d.id ∉ order) ∧ others.Pairwise (p.Precedes documents)
  /-- If the order lists every document, there are no others. -/
  order_eq_of_listed : (∀ d ∈ documents.toList, d.id ∈ order) →
    q.contents.2 = Order.firsts (order.filter documents.contains)
  /-- An order that lists every document once, and nothing else, comes back as it is. -/
  order_eq_of_complete : order.Nodup → (∀ id, id ∈ order ↔ documents.contains id = true) → q.contents.2 = order

/-! ## Exports are read back -/

section Readable

variable {documents : DocumentSet} {order : List String} {room : Nat} {fields : Fields}

/-- The prompt that describes a document is readable if the one before it is. -/
theorem readable_describe (h : Json.Readable (room + 1) (.object fields)) (d : Document) :
    Json.Readable (room + 1) (.object (describe fields d)) :=
  ((((((h.insert (.string room d.id) _).insert (.string room d.name) _).insert (.string room d.content) _).insert
    (.string room d.role) _).insert (.bool room d.enabled) _).insert (.bool room d.systemPrompt) _).insert
    (.bool room d.marker) _

/-- What an order says of a document is readable. -/
theorem readable_listing (room : Nat) (d : Document) : Json.Readable (room + 1) (listing d) :=
  have hkeys : compare "enabled" "identifier" = .lt := by decide +kernel
  .pair hkeys (.bool room d.enabled) (.string room d.id)

/-- The orders written are readable if the orders before them and the list are. -/
theorem readable_setChosen {entries listings : List Json} (hentries : ∀ entry ∈ entries, Json.Readable (room + 2) entry)
    (hlistings : ∀ entry ∈ listings, Json.Readable room entry) :
    ∀ entry ∈ setChosen entries listings, Json.Readable (room + 2) entry := by
  intro entry hentry
  have hlist : Json.Readable (room + 1) (.list listings) := .list hlistings
  unfold setChosen at hentry
  split at hentry
  · next i fields h =>
    obtain ⟨j, -, h⟩ := Option.bind_eq_some_iff.mp h
    obtain ⟨fs, hfs, h⟩ := Option.map_eq_some_iff.mp h
    obtain ⟨rfl, rfl⟩ := Prod.mk.inj h
    obtain ⟨old, hold, hobject⟩ := Option.bind_eq_some_iff.mp hfs
    rcases List.mem_or_eq_of_mem_set hentry with hentry | rfl
    · exact hentries entry hentry
    · have hreadable := hentries old (List.mem_of_getElem? hold)
      rw [Json.asObject?_eq_some_iff.mp hobject] at hreadable
      exact hreadable.insert hlist _
  · rcases List.mem_append.mp hentry with hentry | hentry
    · exact hentries entry hentry
    · obtain rfl := List.mem_singleton.mp hentry
      have hkeys : compare "character_id" "order" = .lt := by decide +kernel
      exact .pair hkeys (.number _ (Json.numberReads_integer (by decide) (by decide))) hlist

/-- The prompt exported of a document is readable if the prompts before it are. -/
theorem readable_promptFor {p : Preset} (h : ∀ prompt ∈ p.prompts, Json.Readable (room + 1) prompt) (d : Document) :
    Json.Readable (room + 1) (p.promptFor d) := by
  refine readable_describe ?_ d
  cases hprompt : p.prompt? d.id with
  | none => exact .object .nil nofun
  | some prompt =>
    have hreadable := h prompt (List.mem_reverse.mp (List.mem_of_find?_eq_some hprompt))
    rw [Option.bind_some]
    cases hobject : prompt.asObject? with
    | none => exact .object .nil nofun
    | some fields =>
      rw [Json.asObject?_eq_some_iff.mp hobject] at hreadable
      exact hreadable

/-- What is exported of a readable preset is readable. -/
theorem readable_toJson {p : Preset} (hp : Json.Readable (room + 5) (.object p.fields)) (documents : DocumentSet)
    (order : List String) : Json.Readable (room + 5) (p.toJson documents order) := by
  have hprompts : ∀ prompt ∈ documents.toList.map p.promptFor, Json.Readable (room + 3) prompt := by
    intro prompt hprompt
    obtain ⟨d, -, rfl⟩ := List.mem_map.mp hprompt
    exact readable_promptFor (hp.items "prompts") d
  have hlistings : ∀ entry ∈ (order.filterMap documents.get?).map listing, Json.Readable (room + 1) entry := by
    intro entry hentry
    obtain ⟨d, -, rfl⟩ := List.mem_map.mp hentry
    exact readable_listing room d
  rw [toJson, exportFields_eq]
  exact (hp.insert (.list hprompts) _).insert (.list (readable_setChosen (hp.items "prompt_order") hlistings)) _

end Readable

section RoundTrip

variable {documents : DocumentSet} {order : List String}

/-- Import finds the documents of an export, in the order that the export had. -/
theorem reimports_exported (p : Preset) (h : documents.Indexed) (hids : ∀ d ∈ documents.toList, d.id ≠ "")
    (order : List String) : p.Reimports documents order ⟨p.exportFields documents order⟩ := by
  have horder : p.ListedFirst documents order (contents ⟨p.exportFields documents order⟩).2 := by
    rw [contents_exported p h hids]
    exact listedFirst_orderListed h (fun d hd => injectionOrders_exported p h hids hd) order
  refine ⟨by rw [contents_exported p h hids], horder, horder.eq_of_listed, fun hnodup hids' => ?_⟩
  have hkeep : order.filter documents.contains = order := List.filter_eq_self.mpr fun id hid => (hids' id).mp hid
  rw [horder.eq_of_listed fun d hd => (hids' d.id).mpr (h.contains_iff.mpr ⟨d, hd, rfl⟩), hkeep, Order.firsts_eq_self hnodup]

/-- Documents and an order are imported in one way only. -/
theorem Reimports.contents_eq {p q q' : Preset} (h : documents.Indexed) (hq : p.Reimports documents order q)
    (hq' : p.Reimports documents order q') : q.contents = q'.contents := by
  refine Prod.ext (hq.documents_eq.trans hq'.documents_eq.symm) ?_
  exact ListedFirst.eq h hq.order_eq hq'.order_eq

/-- The order that import finds lists every document once, and nothing else. -/
theorem Reimports.complete {p q : Preset} (h : documents.Indexed) (hq : p.Reimports documents order q) :
    q.contents.2.Nodup ∧ ∀ id, id ∈ q.contents.2 ↔ documents.contains id = true :=
  ListedFirst.complete h hq.order_eq

/-- What was imported of an export is imported again of a further export. -/
theorem contents_exported_again (p : Preset) (h : documents.Indexed) (hids : ∀ d ∈ documents.toList, d.id ≠ "")
    (order : List String) {q : Preset} (hq : q = ⟨p.exportFields documents order⟩) :
    contents ⟨q.exportFields q.contents.1 q.contents.2⟩ = q.contents := by
  subst hq
  have hq := reimports_exported p h hids order
  obtain ⟨hnodup, hcomplete⟩ := hq.complete h
  rw [hq.documents_eq]
  have hagain := reimports_exported ⟨p.exportFields documents order⟩ h hids (contents ⟨p.exportFields documents order⟩).2
  exact Prod.ext (hagain.documents_eq.trans hq.documents_eq.symm) (hagain.order_eq_of_complete hnodup hcomplete)

/-- An export that is read back is parsed to the preset with the fields exported. -/
theorem parse_exportText {p : Preset} (hread : (p.toJson documents order).ReadsBack) :
    parse (p.exportText documents order) = .ok ⟨p.exportFields documents order⟩ := by
  rw [parse, exportText, hread]
  rfl

/-- What was exported is imported again, and exporting and importing it once more changes nothing. -/
theorem exists_reimports (p : Preset) (h : documents.Indexed) (hids : ∀ d ∈ documents.toList, d.id ≠ "")
    (order : List String) (hread : (p.toJson documents order).ReadsBack) :
    ∃ q, parse (p.exportText documents order) = .ok q ∧ p.Reimports documents order q ∧
      ((q.toJson q.contents.1 q.contents.2).ReadsBack →
        ∃ q', parse (q.exportText q.contents.1 q.contents.2) = .ok q' ∧ q'.contents = q.contents) :=
  ⟨_, parse_exportText hread, reimports_exported p h hids order,
    fun hagain => ⟨_, parse_exportText hagain, contents_exported_again p h hids order rfl⟩⟩

/-- Two prompts have one id, the order that counts is that of another character and lists nothing, and what is exported lists
one document twice and one that is not there. -/
theorem exists_reimports_duplicates :
    let p : Preset := ⟨[
      ("prompt_order", .list [.object [("character_id", .number (.integer 7)), ("order", .null)]]),
      ("prompts", .list [.object [("identifier", .string "c"), ("injection_order", .number (.integer 1))], .null,
        .object [("injection_order", .number (.integer 4)), ("name", .string "c")]])]⟩
    let documents := DocumentSet.ofList [.ofContent "c" "1", .ofContent "b" "2",
      { Document.ofContent "a" "3" with enabled := false, systemPrompt := true }]
    let order := ["b", "ghost", "b"]
    documents.Indexed ∧ (∀ d ∈ documents.toList, d.id ≠ "") ∧ (p.toJson documents order).ReadsBack ∧
      ∃ q, parse (p.exportText documents order) = .ok q ∧ p.Reimports documents order q ∧
        q.contents.2 = ["b", "a", "c"] ∧
        ∃ q', parse (q.exportText q.contents.1 q.contents.2) = .ok q' ∧ q'.contents = q.contents := by
  intro p documents order
  have h : documents.Indexed := DocumentSet.indexed_ofList _
  have hids : ∀ d ∈ documents.toList, d.id ≠ "" := by decide +kernel
  have hp : Json.Readable Json.maxDepth (.object p.fields) := by
    have hword : ∀ n ∈ [(1 : Int), 4, 7], (n < 0 → n.natAbs ≤ Nat.pow 2 63) ∧ n.natAbs ≤ Numeral.maxWord := by decide
    have hnumber : ∀ room, ∀ n ∈ [1, 4, 7], Json.Readable room (.number (.integer n)) := by
      intro room n hn
      exact .number room (Json.numberReads_integer (hword n hn).1 (hword n hn).2)
    have horders : Json.Readable 126 (.list [.object [("character_id", .number (.integer 7)), ("order", .null)]]) := by
      refine .list (List.forall_mem_singleton.mpr ?_)
      exact .pair (by decide +kernel) (hnumber _ 7 (by simp)) (.null _)
    refine .pair (by decide +kernel) horders (.list ?_)
    refine List.forall_mem_cons.mpr ⟨?_, List.forall_mem_cons.mpr ⟨.null _, List.forall_mem_singleton.mpr ?_⟩⟩
    · exact .pair (by decide +kernel) (.string _ _) (hnumber _ 1 (by simp))
    · exact .pair (by decide +kernel) (hnumber _ 4 (by simp)) (.string _ _)
  have hread : Json.Readable Json.maxDepth (p.toJson documents order) := readable_toJson hp documents order
  obtain ⟨q, hparse, hq, hagain⟩ := exists_reimports p h hids order hread.readsBack
  have horder : q.contents.2 = ["b", "a", "c"] := by
    obtain ⟨others, heq, hperm, hothers⟩ := hq.order_eq
    let a : Document := { Document.ofContent "a" "3" with enabled := false, systemPrompt := true }
    let c : Document := .ofContent "c" "1"
    have hleft : documents.toList.filter (fun d => d.id ∉ order) = [c, a] := by decide +kernel
    have hca : [c, a].Perm [a, c] := .swap a c []
    have hac : [a, c].Pairwise (p.Precedes documents) := List.pairwise_pair.mpr (Or.inl (by decide +kernel))
    rw [hleft] at hperm
    rw [heq, eq_of_pairwise_precedes h (hperm.trans hca) hothers hac]
    decide +kernel
  obtain rfl : ⟨p.exportFields documents order⟩ = q := Except.ok.inj ((parse_exportText hread.readsBack).symm.trans hparse)
  exact ⟨h, hids, hread.readsBack, _, hparse, hq, horder, hagain (Json.Readable.readsBack (readable_toJson hread _ _))⟩

end RoundTrip

end Preset

end PromptMacros
