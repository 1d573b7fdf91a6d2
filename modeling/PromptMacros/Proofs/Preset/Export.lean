import Mathlib.Data.List.Induction
import Mathlib.Data.List.Nodup
import PromptMacros.Document.Index
import PromptMacros.Order
import PromptMacros.Preset.Export
import PromptMacros.Preset.Import

/-!
# What import finds in an export

An exported prompt describes its document to import (`documentOf?_promptFor`) and has the injection order of the prompt before
it. The order that counts in an export is the one written, whatever orders the preset had (`exists_chosen_setChosen`), and
what it lists are the documents, with the flags they have (`listings_exported`).
-/

namespace PromptMacros.Preset

variable {p : Preset} {documents : DocumentSet} {order : List String}

/-! ## Prompts -/

/-- The place among documents that no order lists: the injection order of the last prompt with the id, or else zero. -/
def injectionOf (p : Preset) (id : String) : Int :=
  ((p.prompt? id).map injectionOrder).getD 0

/-- The id of an exported prompt is that of its document. -/
theorem promptId?_promptFor (p : Preset) {d : Document} (hid : d.id ≠ "") : promptId? (p.promptFor d) = some d.id := by
  simp [promptId?, textOf?, promptFor, describe, Json.get?, Fields.get?_insert, Json.asString?, hid]

/-- Import reads an exported prompt as the document. -/
theorem documentOf?_promptFor (p : Preset) {d : Document} (hid : d.id ≠ "") : documentOf? (p.promptFor d) = some d := by
  rw [documentOf?, promptId?_promptFor p hid]
  simp [textOf?, boolOf?, promptFor, describe, Json.get?, Fields.get?_insert, Json.asString?, Json.asBool?]

/-- The injection order for an id is told by the fields of the last prompt with it. -/
theorem injectionOrder_prompt? (p : Preset) (id : String) :
    injectionOrder (.object (((p.prompt? id).bind Json.asObject?).getD [])) = p.injectionOf id := by
  unfold injectionOf
  cases p.prompt? id with
  | none => rfl
  | some prompt => cases prompt <;> rfl

/-- An exported prompt has the injection order of the last prompt with the id of its document. -/
theorem injectionOrder_promptFor (p : Preset) (d : Document) : injectionOrder (p.promptFor d) = p.injectionOf d.id := by
  have hkeep : (p.promptFor d).get? "injection_order" =
      (Json.object (((p.prompt? d.id).bind Json.asObject?).getD [])).get? "injection_order" := by
    simp [promptFor, describe, Json.get?, Fields.get?_insert]
  rw [← injectionOrder_prompt?, injectionOrder, hkeep]
  rfl

/-- A prompt without an id notes nothing. -/
theorem injectionOrders_concat_of_none {prompt : Json} (prompts : List Json) (hid : promptId? prompt = none) :
    injectionOrders (prompts ++ [prompt]) = injectionOrders prompts := by
  rw [injectionOrders, List.foldl_append, List.foldl_cons, List.foldl_nil, hid]
  rfl

/-- A prompt with an id notes its injection order for it. -/
theorem injectionOrders_concat_of_some {prompt : Json} {id : String} (prompts : List Json)
    (hid : promptId? prompt = some id) :
    injectionOrders (prompts ++ [prompt]) = (injectionOrders prompts).insert id (injectionOrder prompt) := by
  rw [injectionOrders, List.foldl_append, List.foldl_cons, List.foldl_nil, hid]
  rfl

/-- The injection order noted for an id is that of the last prompt with it. -/
theorem getElem?_injectionOrders (prompts : List Json) (id : String) :
    (injectionOrders prompts)[id]? = (prompts.reverse.find? fun prompt => promptId? prompt = some id).map injectionOrder := by
  induction prompts using List.reverseRecOn with
  | nil => rfl
  | append_singleton prompts prompt ih =>
    rw [List.reverse_append, List.reverse_singleton, List.singleton_append, List.find?_cons]
    cases hid : promptId? prompt with
    | none =>
      rw [injectionOrders_concat_of_none prompts hid]
      simpa using ih
    | some x =>
      rw [injectionOrders_concat_of_some prompts hid, Std.ExtTreeMap.getElem?_insert]
      simp only [Std.LawfulEqOrd.compare_eq_iff_eq]
      by_cases hx : x = id
      · simp [hx]
      · simpa [hx] using ih

/-! ## The order that counts -/

/-- Which order counts depends only on which orders are those of the default character. -/
theorem chosenIndex?_congr {entries entries' : List Json}
    (h : entries.map isDefaultOrder = entries'.map isDefaultOrder) : chosenIndex? entries = chosenIndex? entries' := by
  have hfind : ∀ entries : List Json, entries.findIdx? isDefaultOrder = (entries.map isDefaultOrder).findIdx? id := by
    intro entries
    rw [List.findIdx?_map]
    rfl
  have hempty : ∀ entries : List Json, entries.isEmpty = (entries.map isDefaultOrder).isEmpty := by
    intro entries
    rw [List.isEmpty_map]
  rw [chosenIndex?, chosenIndex?, hfind, hempty, h, ← hfind, ← hempty]

/-- A new list in an order does not make it the order of another character. -/
theorem isDefaultOrder_insert_order (fields : Fields) (value : Json) :
    isDefaultOrder (.object (fields.insert "order" value)) = isDefaultOrder (.object fields) := by
  have hkeep : (Json.object (fields.insert "order" value)).get? "character_id" = (Json.object fields).get? "character_id" := by
    simp [Json.get?, Fields.get?_insert]
  rw [isDefaultOrder, isDefaultOrder, hkeep]

/-- When no order counts that could take a list, there is none of the default character. -/
theorem findIdx?_eq_none_of_not_chosen {entries : List Json}
    (h : ∀ i entry, chosenIndex? entries = some i → entries[i]? = some entry → entry.asObject? = none) :
    entries.findIdx? isDefaultOrder = none := by
  cases hfind : entries.findIdx? isDefaultOrder with
  | none => rfl
  | some i =>
    obtain ⟨hi, hdefault, -⟩ := List.findIdx?_eq_some_iff_getElem.mp hfind
    have hobject := h i entries[i] (by rw [chosenIndex?, hfind]; rfl) (List.getElem?_eq_getElem hi)
    cases hentry : entries[i] with
    | object fields => rw [hentry] at hobject; cases hobject
    | _ => simp [hentry, isDefaultOrder, Json.get?] at hdefault

/-- The order that counts among the orders written is the one written. -/
theorem exists_chosen_setChosen (entries listings : List Json) :
    ∃ entry, ((chosenIndex? (setChosen entries listings)).bind fun i => (setChosen entries listings)[i]?) = some entry ∧
      entry.get? "order" = some (.list listings) := by
  unfold setChosen
  split
  · next i fields h =>
    obtain ⟨j, hj, h⟩ := Option.bind_eq_some_iff.mp h
    obtain ⟨fs, hfs, h⟩ := Option.map_eq_some_iff.mp h
    obtain ⟨rfl, rfl⟩ := Prod.mk.inj h
    obtain ⟨entry, hentry, hobject⟩ := Option.bind_eq_some_iff.mp hfs
    obtain ⟨hlt, rfl⟩ := List.getElem?_eq_some_iff.mp hentry
    have hsame : (entries.set j (.object (fs.insert "order" (.list listings)))).map isDefaultOrder =
        entries.map isDefaultOrder := by
      have hmap : j < (entries.map isDefaultOrder).length := by rwa [List.length_map]
      have hold : isDefaultOrder (.object fs) = (entries.map isDefaultOrder)[j] := by
        rw [List.getElem_map, Json.asObject?_eq_some_iff.mp hobject]
      rw [List.map_set, isDefaultOrder_insert_order, hold, List.set_getElem_self]
    refine ⟨.object (fs.insert "order" (.list listings)), ?_, ?_⟩
    · rw [chosenIndex?_congr hsame, hj, Option.bind_some, List.getElem?_set_self hlt]
    · simp [Json.get?, Fields.get?_insert]
  · next h =>
    have hnone : entries.findIdx? isDefaultOrder = none := by
      refine findIdx?_eq_none_of_not_chosen fun i entry hi hentry => ?_
      simpa [hi, hentry] using h
    have hchosen : chosenIndex? (entries ++ [defaultOrderEntry listings]) = some entries.length := by
      have hdefault : isDefaultOrder (defaultOrderEntry listings) = true := by
        simp [isDefaultOrder, defaultOrderEntry, Json.get?, Fields.get?, Json.asInteger?]
      simp [chosenIndex?, List.findIdx?_append, hnone, hdefault]
    refine ⟨defaultOrderEntry listings, ?_, ?_⟩
    · rw [hchosen, Option.bind_some, List.getElem?_concat_length]
    · simp [defaultOrderEntry, Json.get?, Fields.get?]

/-! ## Exports -/

/-- An export sets the prompts and the orders of the preset. -/
theorem exportFields_eq (p : Preset) (documents : DocumentSet) (order : List String) :
    p.exportFields documents order =
      (p.fields.insert "prompts" (.list (documents.toList.map p.promptFor))).insert "prompt_order"
        (.list (setChosen (p.orders?.getD []) ((order.filterMap documents.get?).map listing))) := by
  unfold exportFields
  cases p.orders? <;> rfl

/-- An export has one prompt for each document, in the order of the set. -/
theorem prompts_exported (p : Preset) (documents : DocumentSet) (order : List String) :
    prompts ⟨p.exportFields documents order⟩ = documents.toList.map p.promptFor := by
  simp [prompts, exportFields_eq, Fields.get?_insert, Json.asList?]

/-- The order that counts in an export lists the documents of the order written, with their flags. -/
theorem listed?_exported (p : Preset) (documents : DocumentSet) (order : List String) :
    listed? ⟨p.exportFields documents order⟩ = some ((order.filterMap documents.get?).map listing) := by
  have horders : orders? ⟨p.exportFields documents order⟩ =
      some (setChosen (p.orders?.getD []) ((order.filterMap documents.get?).map listing)) := by
    rw [orders?, exportFields_eq, Fields.get?_insert, if_pos rfl]
    rfl
  obtain ⟨entry, hentry, hlist⟩ :=
    exists_chosen_setChosen (p.orders?.getD []) ((order.filterMap documents.get?).map listing)
  rw [listed?, horders]
  simp only [Option.bind_eq_bind, Option.bind_some, hentry, hlist, Json.asList?]

/-- Import finds the documents that were exported. -/
theorem documentsOf_exported (p : Preset) (h : documents.Indexed) (hids : ∀ d ∈ documents.toList, d.id ≠ "") :
    documentsOf (documents.toList.map p.promptFor) = documents := by
  have hread : documents.toList.filterMap (documentOf? ∘ p.promptFor) = documents.toList.map id :=
    List.filterMap_eq_map_iff_forall_eq_some.mpr fun d hd => documentOf?_promptFor p (hids d hd)
  rw [documentsOf, List.filterMap_map, hread, List.map_id, h.ofList_toList]

/-- The injection order noted for an exported document is the one the preset had for its id. -/
theorem injectionOrders_exported (p : Preset) (h : documents.Indexed) (hids : ∀ d ∈ documents.toList, d.id ≠ "")
    {d : Document} (hd : d ∈ documents.toList) :
    (injectionOrders (documents.toList.map p.promptFor)).getD d.id 0 = p.injectionOf d.id := by
  rw [Std.ExtTreeMap.getD_eq_getD_getElem?, getElem?_injectionOrders, ← injectionOrder_promptFor]
  cases hfind : (documents.toList.map p.promptFor).reverse.find? fun prompt => promptId? prompt = some d.id with
  | none =>
    have hnone := List.find?_eq_none.mp hfind (p.promptFor d) (List.mem_reverse.mpr (List.mem_map_of_mem hd))
    exact absurd (decide_eq_true (promptId?_promptFor p (hids d hd))) hnone
  | some prompt =>
    obtain ⟨e, he, rfl⟩ := List.mem_map.mp (List.mem_reverse.mp (List.mem_of_find?_eq_some hfind))
    have hid := of_decide_eq_true (List.find?_some (p := fun prompt => promptId? prompt = some d.id) hfind)
    rw [promptId?_promptFor p (hids e he), Option.some.injEq] at hid
    rw [List.inj_on_of_nodup_map h.nodup_ids he hd hid]
    rfl

/-- The ids that lead to documents of a set are those that the set contains. -/
theorem map_id_filterMap_get? (h : documents.Indexed) (order : List String) :
    (order.filterMap documents.get?).map Document.id = order.filter documents.contains := by
  induction order with
  | nil => rfl
  | cons id order ih =>
    cases hget : documents.get? id with
    | none =>
      have hout : ¬documents.contains id = true := by
        rw [h.contains_iff]
        rintro ⟨d, hd⟩
        rw [h.get?_eq_some_iff.mpr hd] at hget
        cases hget
      rw [List.filterMap_cons_none hget, List.filter_cons_of_neg hout, ih]
    | some d =>
      have hd := h.get?_eq_some_iff.mp hget
      rw [List.filterMap_cons_some hget, List.filter_cons_of_pos (h.contains_iff.mpr ⟨d, hd⟩), List.map_cons, ih, hd.2]

/-- Import reads what is listed of a document in the set. -/
theorem listings_exported (h : documents.Indexed) (order : List String) :
    ((order.filterMap documents.get?).map listing).filterMap (listingOf? documents) =
      (order.filterMap documents.get?).map fun d => (d.id, d.enabled) := by
  rw [List.filterMap_map, List.filterMap_eq_map_iff_forall_eq_some]
  intro d hd
  obtain ⟨id, -, hget⟩ := List.mem_filterMap.mp hd
  have hin : documents.contains d.id = true := h.contains_iff.mpr ⟨d, (h.get?_eq_some_iff.mp hget).1, rfl⟩
  have hid : textOf? (listing d) "identifier" = some d.id := by
    simp [listing, textOf?, Json.get?, Fields.get?, Json.asString?]
  have henabled : boolOf? (listing d) "enabled" = some d.enabled := by
    simp [listing, boolOf?, Json.get?, Fields.get?, Json.asBool?]
  have hguard : guard (documents.contains d.id = true) = some () := if_pos hin
  rw [Function.comp_apply, listingOf?, hid, henabled, Option.bind_eq_bind, Option.bind_some, hguard]
  rfl

/-- Enabling and disabling documents keeps the index right. -/
theorem indexed_enableListed (h : documents.Indexed) (listings : List (String × Bool)) :
    (enableListed documents listings).Indexed := by
  unfold enableListed
  induction listings generalizing documents with
  | nil => exact h
  | cons listing listings ih => exact ih (h.modify _ _)

/-- Documents listed with the flags they have stay as they are. -/
theorem enableListed_eq_self (h : documents.Indexed) {listings : List (String × Bool)}
    (hflags : ∀ l ∈ listings, ∀ d, documents.get? l.1 = some d → d.enabled = l.2) :
    enableListed documents listings = documents := by
  induction listings with
  | nil => rfl
  | cons l listings ih =>
    obtain ⟨id, enabled⟩ := l
    obtain ⟨hl, hlistings⟩ := List.forall_mem_cons.mp hflags
    have hkeep : (documents.modify id fun d => { d with enabled := enabled }) = documents := by
      refine h.modify_eq_self fun d hd => ?_
      obtain rfl : d.enabled = enabled := hl d hd
      rfl
    change enableListed (documents.modify id fun d => { d with enabled := enabled }) listings = documents
    rw [hkeep, ih hlistings]

/-- Import finds in an export the documents, and orders them by what was exported. -/
theorem contents_exported (p : Preset) (h : documents.Indexed) (hids : ∀ d ∈ documents.toList, d.id ≠ "")
    (order : List String) :
    contents ⟨p.exportFields documents order⟩ = (documents,
      orderListed (fun id => (injectionOrders (documents.toList.map p.promptFor)).getD id 0) documents
        (Order.firsts (order.filter documents.contains))) := by
  have hflags : enableListed documents ((order.filterMap documents.get?).map fun d => (d.id, d.enabled)) = documents := by
    refine enableListed_eq_self h ?_
    intro l hl e he
    obtain ⟨d, hd, rfl⟩ := List.mem_map.mp hl
    obtain ⟨id, -, hget⟩ := List.mem_filterMap.mp hd
    rw [h.get?_eq_some_iff.mpr ⟨(h.get?_eq_some_iff.mp hget).1, rfl⟩] at he
    rw [Option.some.inj he]
  rw [contents, prompts_exported, documentsOf_exported p h hids, listed?_exported]
  dsimp only
  rw [listings_exported h, hflags, List.map_map]
  exact congrArg _ (congrArg _ (congrArg _ (map_id_filterMap_get? h order)))

end PromptMacros.Preset
