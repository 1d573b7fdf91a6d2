import PromptMacros.Proofs.Preset.Carried

/-!
# The documents of a preset

A preset has one document for each id that a prompt goes by, in the place of the first of these prompts and described by the last
(`get?_documentsOf`, `map_id_documentsOf`). Where an order lists documents, each of them is enabled or disabled by its last
listing (`flagged_iff`). The documents that import finds are the only ones like that (`describes_iff`).
-/

namespace PromptMacros.Preset

/-- Whether a prompt, or what an order lists, enables its document: it does unless it says otherwise. -/
def enables (value : Json) : Bool :=
  (boolOf? value "enabled").getD true

/-- What a document has of the prompt that describes it: the texts and flags that the prompt gives, and for those that it does not
give the usual ones. Whether the document is enabled is told apart. -/
structure DescribedBy (prompt : Json) (d : Document) : Prop where
  id : GoesBy prompt d.id
  name : d.name = (textOf? prompt "name").getD d.id
  content : d.content = (textOf? prompt "content").getD ""
  role : d.role = (textOf? prompt "role").getD "system"
  marker : d.marker = (boolOf? prompt "marker").getD false
  systemPrompt : d.systemPrompt = (boolOf? prompt "system_prompt").getD false

/-- Whether a document is enabled when an order lists this: as its last listing says, or else as its own prompt does. -/
inductive Flagged (listings : List Json) (id : String) (own : Bool) : Bool → Prop
  | listed {before after : List Json} {entry : Json} (h : listings = before ++ entry :: after)
      (hid : textOf? entry "identifier" = some id) (hafter : ∀ e ∈ after, textOf? e "identifier" ≠ some id) :
      Flagged listings id own (enables entry)
  | unlisted (h : ∀ e ∈ listings, textOf? e "identifier" ≠ some id) : Flagged listings id own own

/-- These are the documents of a preset when an order lists this. -/
structure Describes (p : Preset) (listings : List Json) (documents : DocumentSet) : Prop where
  indexed : documents.Indexed
  /-- There is a document for each id that a prompt goes by, in the place of the first one that does. -/
  ids : documents.toList.map Document.id = Order.firsts (p.prompts.filterMap promptId?)
  /-- Each document is described by the last prompt that goes by its id. -/
  described : ∀ d ∈ documents.toList, ∃ fields, p.LastPrompt d.id fields ∧ DescribedBy (.object fields) d ∧
    Flagged listings d.id (enables (.object fields)) d.enabled

variable {p : Preset} {documents : DocumentSet} {prompt entry : Json} {d : Document} {id : String}

/-! ## Prompts -/

/-- The document of a prompt is described by it and enabled as it says. -/
theorem documentOf?_eq_some_iff : documentOf? prompt = some d ↔ DescribedBy prompt d ∧ d.enabled = enables prompt := by
  unfold documentOf?
  rw [Option.bind_eq_bind, Option.bind_eq_some_iff]
  constructor
  · rintro ⟨id, hid, hd⟩
    obtain rfl := Option.some.inj hd
    exact ⟨⟨promptId?_eq_some_iff.mp hid, rfl, rfl, rfl, rfl, rfl⟩, rfl⟩
  · rintro ⟨⟨hid, hname, hcontent, hrole, hmarker, hsystem⟩, henabled⟩
    refine ⟨d.id, promptId?_eq_some_iff.mpr hid, congrArg some ?_⟩
    obtain ⟨id, name, content, enabled, role, marker, systemPrompt⟩ := d
    dsimp only at *
    rw [hname, hcontent, henabled, hrole, hmarker, hsystem]
    rfl

/-- The document of a prompt has the id of the prompt. -/
theorem map_id_documentOf? (prompt : Json) : (documentOf? prompt).map Document.id = promptId? prompt := by
  unfold documentOf?
  cases promptId? prompt <;> rfl

/-- Under an id there is the document of the last prompt that goes by it. -/
theorem get?_documentsOf (p : Preset) (id : String) : (documentsOf p.prompts).get? id = (p.prompt? id).bind documentOf? := by
  have hid : ∀ prompt, (documentOf? prompt).any (fun d => d.id = id) = decide (promptId? prompt = some id) := by
    intro prompt
    rw [← map_id_documentOf?]
    cases documentOf? prompt <;> simp
  rw [documentsOf, DocumentSet.get?_ofList, ← List.filterMap_reverse, List.find?_filterMap, prompt?]
  simp only [hid]

/-- The documents stand where the ids of prompts first come. -/
theorem map_id_documentsOf (prompts : List Json) :
    (documentsOf prompts).toList.map Document.id = Order.firsts (prompts.filterMap promptId?) := by
  rw [documentsOf, DocumentSet.map_id_toList_ofList, List.map_filterMap]
  simp only [map_id_documentOf?]

/-! ## What is listed -/

/-- What an order lists is read as the id of a document, if it is one, and whether the document is enabled. -/
theorem listingOf?_eq (documents : DocumentSet) (entry : Json) :
    listingOf? documents entry =
      ((textOf? entry "identifier").filter documents.contains).map fun id => (id, enables entry) := by
  unfold listingOf? enables
  cases htext : textOf? entry "identifier" with
  | none => rfl
  | some id =>
    rw [Option.bind_eq_bind, Option.bind_some, Option.filter_some]
    cases hin : documents.contains id <;> rfl

/-- The ids that an order lists, when they lead to documents. -/
theorem map_fst_filterMap_listingOf? (documents : DocumentSet) (listings : List Json) :
    (listings.filterMap (listingOf? documents)).map Prod.fst =
      (listings.filterMap fun entry => textOf? entry "identifier").filter documents.contains := by
  rw [List.map_filterMap, List.filter_filterMap]
  refine congrArg (List.filterMap · listings) (funext fun entry => ?_)
  rw [listingOf?_eq, Option.map_map]
  exact congrFun Option.map_id _

/-- A document is enabled as the last listing found for it says, or else as its prompt does. -/
theorem flagged_iff {listings : List Json} {own flag : Bool} :
    Flagged listings id own flag ↔
      flag = ((listings.reverse.find? fun entry => textOf? entry "identifier" = some id).map enables).getD own := by
  constructor
  · rintro (⟨hlistings, hid, hafter⟩ | hnone)
    · have hfind : (listings.reverse.find? fun entry => textOf? entry "identifier" = some id) = some _ :=
        find?_reverse_eq_some_iff.mpr ⟨decide_eq_true hid, _, _, hlistings, fun e he => decide_eq_false (hafter e he)⟩
      rw [hfind]
      rfl
    · have hfind : (listings.reverse.find? fun entry => textOf? entry "identifier" = some id) = none :=
        find?_reverse_eq_none_iff.mpr fun e he => decide_eq_false (hnone e he)
      rw [hfind]
      rfl
  · rintro rfl
    cases hfind : listings.reverse.find? fun entry => textOf? entry "identifier" = some id with
    | none => exact .unlisted fun e he => of_decide_eq_false (find?_reverse_eq_none_iff.mp hfind e he)
    | some entry =>
      obtain ⟨hid, before, after, hlistings, hafter⟩ := find?_reverse_eq_some_iff.mp hfind
      exact .listed hlistings (of_decide_eq_true hid) fun e he => of_decide_eq_false (hafter e he)

/-- One listing more enables or disables its document. -/
theorem enableListed_concat (documents : DocumentSet) (listings : List (String × Bool)) (l : String × Bool) :
    enableListed documents (listings ++ [l]) =
      (enableListed documents listings).modify l.1 fun d => { d with enabled := l.2 } := by
  rw [enableListed, List.foldl_append]
  rfl

/-- Each document listed is enabled as its last listing says, and nothing else changes. -/
theorem toList_enableListed (h : documents.Indexed) (listings : List (String × Bool)) :
    (enableListed documents listings).toList = documents.toList.map fun d =>
      { d with enabled := ((listings.reverse.find? fun l => l.1 = d.id).map Prod.snd).getD d.enabled } := by
  induction listings using List.reverseRecOn with
  | nil => exact (List.map_id _).symm
  | append_singleton listings l ih =>
    rw [enableListed_concat, (indexed_enableListed h listings).toList_modify, ih, List.map_map]
    refine List.map_congr_left fun d _ => ?_
    rw [Function.comp_apply, List.reverse_append, List.reverse_singleton, List.singleton_append, List.find?_cons]
    by_cases hid : d.id = l.1
    · simp [hid]
    · simp [hid, Ne.symm hid]

/-- The last listing read for a document of the set is the last that names it. -/
theorem map_snd_find?_listingOf? (hin : documents.contains id = true) (listings : List Json) :
    ((listings.filterMap (listingOf? documents)).reverse.find? fun l => l.1 = id).map Prod.snd =
      (listings.reverse.find? fun entry => textOf? entry "identifier" = some id).map enables := by
  have hany : ∀ entry, (listingOf? documents entry).any (fun l => l.1 = id) = decide (textOf? entry "identifier" = some id) := by
    intro entry
    rw [listingOf?_eq]
    cases htext : textOf? entry "identifier" with
    | none => rfl
    | some x =>
      rw [Option.filter_some]
      by_cases hx : x = id
      · simp [hx, hin]
      · by_cases hxin : documents.contains x = true <;> simp [hx, hxin]
  rw [← List.filterMap_reverse, List.find?_filterMap]
  simp only [hany]
  cases hfind : listings.reverse.find? fun entry => textOf? entry "identifier" = some id with
  | none => rfl
  | some entry =>
    have hid : textOf? entry "identifier" = some id :=
      of_decide_eq_true (List.find?_some (p := fun entry => decide (textOf? entry "identifier" = some id)) hfind)
    rw [Option.bind_some, listingOf?_eq, hid, Option.filter_some, if_pos hin]
    rfl

/-! ## Documents -/

/-- The documents of a preset, enabled and disabled as an order lists them. -/
def documentsListed (p : Preset) (listings : List Json) : DocumentSet :=
  enableListed (documentsOf p.prompts) (listings.filterMap (listingOf? (documentsOf p.prompts)))

/-- What an order lists changes flags only, so the ids stay. -/
theorem map_id_documentsListed (p : Preset) (listings : List Json) :
    (p.documentsListed listings).toList.map Document.id = (documentsOf p.prompts).toList.map Document.id := by
  have h : (documentsOf p.prompts).Indexed := DocumentSet.indexed_ofList _
  rw [documentsListed, toList_enableListed h, List.map_map]
  rfl

/-- Import finds the documents of the preset. -/
theorem describes_documentsListed (p : Preset) (listings : List Json) : p.Describes listings (p.documentsListed listings) := by
  have h : (documentsOf p.prompts).Indexed := DocumentSet.indexed_ofList _
  refine ⟨indexed_enableListed h _, ?_, fun d hd => ?_⟩
  · rw [map_id_documentsListed, map_id_documentsOf]
  · rw [documentsListed, toList_enableListed h] at hd
    obtain ⟨e, he, rfl⟩ := List.mem_map.mp hd
    dsimp only
    have hin : (documentsOf p.prompts).contains e.id = true := h.contains_iff.mpr ⟨e, he, rfl⟩
    have hget := h.get?_eq_some_iff.mpr ⟨he, rfl⟩
    rw [get?_documentsOf] at hget
    obtain ⟨prompt, hprompt, he⟩ := Option.bind_eq_some_iff.mp hget
    obtain ⟨⟨hid, hname, hcontent, hrole, hmarker, hsystem⟩, henabled⟩ := documentOf?_eq_some_iff.mp he
    obtain ⟨fields, rfl⟩ := exists_object_of_goesBy hid
    refine ⟨fields, lastPrompt_iff.mpr ?_, ⟨hid, hname, hcontent, hrole, hmarker, hsystem⟩, flagged_iff.mpr ?_⟩
    · rw [hprompt]
      rfl
    · rw [map_snd_find?_listingOf? hin, ← henabled]

/-- What describes a document leaves open only whether it is enabled. -/
theorem DescribedBy.eq {e : Document} (hd : DescribedBy prompt d) (he : DescribedBy prompt e) (hid : d.id = e.id)
    (henabled : d.enabled = e.enabled) : d = e := by
  obtain ⟨-, hname, hcontent, hrole, hmarker, hsystem⟩ := hd
  obtain ⟨-, hname', hcontent', hrole', hmarker', hsystem'⟩ := he
  rw [hid] at hname
  obtain ⟨id, name, content, enabled, role, marker, systemPrompt⟩ := d
  obtain ⟨id', name', content', enabled', role', marker', systemPrompt'⟩ := e
  dsimp only at *
  subst hid henabled hname hname' hcontent hcontent' hrole hrole' hmarker hmarker' hsystem hsystem'
  rfl

/-- The documents that import finds are the only ones that are those of the preset. -/
theorem describes_iff {listings : List Json} : p.Describes listings documents ↔ documents = p.documentsListed listings := by
  constructor
  · intro h
    have h' := describes_documentsListed p listings
    have hids : documents.toList.map Document.id = (p.documentsListed listings).toList.map Document.id := h.ids.trans h'.ids.symm
    refine h.indexed.eq_of_toList_eq h'.indexed (List.ext_getElem (by simpa using congrArg List.length hids) fun i hi hi' => ?_)
    have hid : documents.toList[i].id = (p.documentsListed listings).toList[i].id := by
      simpa [hi, hi'] using congrArg (fun ids => ids[i]?) hids
    obtain ⟨fields, hlast, hdescribed, hflag⟩ := h.described _ (List.getElem_mem hi)
    obtain ⟨fields', hlast', hdescribed', hflag'⟩ := h'.described _ (List.getElem_mem hi')
    rw [← hid] at hlast' hflag'
    obtain rfl := (lastPrompt_iff.mp hlast).trans (lastPrompt_iff.mp hlast').symm
    exact hdescribed.eq hdescribed' hid ((flagged_iff.mp hflag).trans (flagged_iff.mp hflag').symm)
  · rintro rfl
    exact describes_documentsListed p listings

end PromptMacros.Preset
