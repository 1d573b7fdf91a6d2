import PromptMacros.Proofs.Json.Fits
import PromptMacros.Proofs.Preset.DefaultOrder

/-!
# What import finds

A text that is read as an object is a preset, and it settles which documents import finds and in what order they run
(`exists_imports`). The order that counts may list documents: then every document runs, those listed first. Where nothing is
listed the order is that of the prompts (`Imports`). Injection orders come from whole numbers that were read, so they are
the ones that fit 64 bits with a sign (`injectedAt_injectionOrder`).
-/

namespace PromptMacros.Preset

/-- A prompt has this injection order: the whole number that it gives, if that fits 64 bits with a sign, or else zero. -/
inductive InjectedAt (prompt : Json) : Int → Prop
  | given {n : Int} (h : prompt.get? "injection_order" = some (.number (.integer n)))
      (hfits : -Int.pow 2 63 ≤ n ∧ n < Int.pow 2 63) : InjectedAt prompt n
  | zero (h : ∀ n : Int, -Int.pow 2 63 ≤ n ∧ n < Int.pow 2 63 →
      prompt.get? "injection_order" ≠ some (.number (.integer n))) : InjectedAt prompt 0

/-- The order that import goes by is an object with this list. -/
def ChosenLists (p : Preset) (listings : List Json) : Prop :=
  ∃ before entry after, p.fields.get? "prompt_order" = some (.list (before ++ entry :: after)) ∧
    ChosenAt before entry after ∧ entry.get? "order" = some (.list listings)

/-- Import finds these documents and runs them in this order. -/
inductive Imports (p : Preset) : DocumentSet → List String → Prop
  /-- Documents are listed: all of them run, those listed first. -/
  | listed {listings : List Json} {documents : DocumentSet} {order : List String} (h : p.ChosenLists listings)
      (hdocuments : p.Describes listings documents)
      (horder : p.ListedFirst documents (listings.filterMap fun entry => textOf? entry "identifier") order)
      (hall : order.Perm (documents.toList.map Document.id)) : Imports p documents order
  /-- Nothing is listed: the prompts run that are not disabled. -/
  | unlisted {documents : DocumentSet} {order : List String} (h : ∀ listings, ¬p.ChosenLists listings)
      (hdocuments : p.Describes [] documents) (horder : p.DefaultOrder order) : Imports p documents order

variable {p : Preset} {prompt : Json} {documents : DocumentSet} {listings : List Json} {order : List String} {id : String}

/-! ## Injection orders -/

/-- The injection order of a prompt that was read is the one it gives. -/
theorem injectedAt_injectionOrder (h : prompt.Fits) : InjectedAt prompt (injectionOrder prompt) := by
  unfold injectionOrder
  cases hgiven : (prompt.get? "injection_order").bind Json.asInteger? with
  | none =>
    refine .zero fun n _ hn => ?_
    rw [hn] at hgiven
    cases hgiven
  | some n =>
    have hn : prompt.get? "injection_order" = some (.number (.integer n)) := by
      obtain ⟨value, hvalue, hinteger⟩ := Option.bind_eq_some_iff.mp hgiven
      rw [hvalue, Json.asInteger?_eq_some_iff.mp hinteger]
    by_cases hlt : n < Int.pow 2 63
    · rw [Option.filter_some, if_pos (decide_eq_true hlt)]
      cases h.get? hn with
      | integer hfits => exact .given hn ⟨hfits.1, hlt⟩
    · rw [Option.filter_some, if_neg (by simpa using hlt)]
      refine .zero fun m hm hgiven => ?_
      obtain rfl : n = m := by simpa [hn] using hgiven
      exact hlt hm.2

/-- The prompts of a preset that was read fit. -/
theorem fits_of_mem_prompts (h : (Json.object p.fields).Fits) (hprompt : prompt ∈ p.prompts) : prompt.Fits := by
  unfold prompts at hprompt
  cases hlist : (p.fields.get? "prompts").bind Json.asList? with
  | none =>
    rw [hlist] at hprompt
    cases hprompt
  | some items =>
    rw [hlist] at hprompt
    obtain ⟨value, hvalue, hitems⟩ := Option.bind_eq_some_iff.mp hlist
    have hfield : (Json.object p.fields).get? "prompts" = some value := hvalue
    exact (h.get? hfield).item hitems hprompt

/-- The injection order that a preset has for an id is that of the last prompt with it. -/
theorem injectedAt_injectionOf (h : (Json.object p.fields).Fits) {last : Fields} (hlast : p.LastPrompt id last) :
    InjectedAt (.object last) (p.injectionOf id) := by
  have hfits : (Json.object last).Fits := by
    cases hlast with
    | found hprompts _ _ => exact fits_of_mem_prompts h (by simp [hprompts])
    | missing _ => exact .object nofun
  rw [← injectionOrder_prompt?, ← lastPrompt_iff.mp hlast]
  exact injectedAt_injectionOrder hfits

/-- The injection order noted for an id is the one that the preset has for it. -/
theorem getD_injectionOrders (p : Preset) (id : String) : (injectionOrders p.prompts).getD id 0 = p.injectionOf id := by
  rw [Std.ExtTreeMap.getD_eq_getD_getElem?, getElem?_injectionOrders]
  rfl

/-! ## Documents and their order -/

/-- What is listed is the list of the order that import goes by. -/
theorem chosenLists_iff : p.ChosenLists listings ↔ p.listed? = some listings := by
  unfold listed? orders?
  simp only [Option.bind_eq_bind, Option.bind_eq_some_iff, Json.asList?_eq_some_iff]
  constructor
  · rintro ⟨before, entry, after, hfield, hchosen, horder⟩
    exact ⟨_, ⟨_, hfield, rfl⟩, entry, ⟨before.length, chosenIndex?_eq_some_iff.mpr hchosen, by simp⟩, _, horder, rfl⟩
  · rintro ⟨entries, ⟨_, hfield, rfl⟩, entry, ⟨i, hchosen, hentry⟩, _, horder, rfl⟩
    obtain ⟨before, after, rfl, rfl⟩ := exists_split_of_getElem? hentry
    exact ⟨before, entry, after, hfield, chosenIndex?_eq_some_iff.mp hchosen, horder⟩

/-- Enabling and disabling documents leaves the ids that the set contains. -/
theorem contains_documentsListed (p : Preset) (listings : List Json) :
    (p.documentsListed listings).contains = (documentsOf p.prompts).contains := by
  have h : (documentsOf p.prompts).Indexed := DocumentSet.indexed_ofList _
  have h' : (p.documentsListed listings).Indexed := indexed_enableListed h _
  funext id
  rw [Bool.eq_iff_iff, h'.contains_iff, h.contains_iff]
  simp only [← List.mem_map, ← map_id_documentsListed p listings]

/-- Import runs the documents of a preset in an order that starts with those listed. -/
theorem listedFirst_contents (h : p.listed? = some listings) :
    p.contents.1 = p.documentsListed listings ∧
      p.ListedFirst (p.documentsListed listings) (listings.filterMap fun entry => textOf? entry "identifier") p.contents.2 := by
  rw [contents, h]
  refine ⟨rfl, ?_⟩
  dsimp only
  rw [map_fst_filterMap_listingOf?, ← contains_documentsListed p listings]
  have hindexed := (describes_documentsListed p listings).indexed
  exact listedFirst_orderListed hindexed (fun d _ => p.getD_injectionOrders d.id) _

/-- The prompts and the order that counts settle what import finds. -/
theorem imports_iff : p.Imports documents order ↔ p.contents = (documents, order) := by
  constructor
  · rintro (⟨hlists, hdocuments, horder, -⟩ | ⟨hnone, hdocuments, horder⟩)
    · obtain ⟨hfound, hfirst⟩ := listedFirst_contents (chosenLists_iff.mp hlists)
      obtain rfl := describes_iff.mp hdocuments
      exact Prod.ext hfound (hfirst.eq hdocuments.indexed horder)
    · have hlisted : p.listed? = none := Option.eq_none_iff_forall_ne_some.mpr fun l hl => hnone l (chosenLists_iff.mpr hl)
      rw [describes_iff.mp hdocuments, defaultOrder_iff.mp horder, contents, hlisted]
      rfl
  · intro h
    cases hlisted : p.listed? with
    | none =>
      rw [contents, hlisted] at h
      obtain ⟨rfl, rfl⟩ := Prod.mk.inj h
      refine .unlisted (fun l hl => ?_) (describes_iff.mpr rfl) p.defaultOrder_defaultOrder
      rw [chosenLists_iff.mp hl] at hlisted
      cases hlisted
    | some listings =>
      obtain ⟨hfound, hfirst⟩ := listedFirst_contents hlisted
      rw [h] at hfound hfirst
      subst hfound
      have hdocuments := describes_documentsListed p listings
      exact .listed (chosenLists_iff.mpr hlisted) hdocuments hfirst (hfirst.perm hdocuments.indexed)

/-! ## The whole import -/

/-- A text that is read as an object is a preset. The ids and injection orders of its prompts are the ones they give, and import
finds the documents of the preset and their order, and nothing else. -/
theorem exists_imports {text : String} {fields : Fields} (h : Json.read? text = some (.object fields)) :
    ∃ p, parse text = .ok p ∧ p.fields = fields ∧
      (∀ prompt ∈ p.prompts,
        (∀ id, promptId? prompt = some id ↔ GoesBy prompt id) ∧ InjectedAt prompt (injectionOrder prompt)) ∧
      (∀ id last, p.LastPrompt id last → InjectedAt (.object last) (p.injectionOf id)) ∧
      ∀ documents order, p.Imports documents order ↔ p.contents = (documents, order) := by
  have hfits : (Json.object fields).Fits := Json.fits_of_read? h
  refine ⟨⟨fields⟩, ?_, rfl, fun prompt hprompt => ⟨fun id => promptId?_eq_some_iff, ?_⟩, fun id last hlast => ?_,
    fun documents order => imports_iff⟩
  · rw [parse, h]
    rfl
  · exact injectedAt_injectionOrder (fits_of_mem_prompts hfits hprompt)
  · exact injectedAt_injectionOf hfits hlast

/-- Two of five prompts describe one document, and one describes none. The order of the default character stands behind another.
It lists a document twice, at last with a flag that is none, and one that is not there. -/
theorem exists_imports_repeated :
    let listings : List Json := [
      .object [("enabled", .bool false), ("identifier", .string "b")],
      .object [("identifier", .string "ghost")],
      .object [("enabled", .null), ("identifier", .string "b")]]
    let fields : Fields := [
      ("prompt_order", .list [
        .object [("order", .null)],
        .object [("character_id", .number (.integer 100001)), ("order", .list listings)]]),
      ("prompts", .list [
        .object [("identifier", .string "c"), ("injection_order", .number (.integer 1))],
        .null,
        .object [("content", .string "2"), ("identifier", .string "b")],
        .object [("content", .string "3"), ("enabled", .bool false), ("identifier", .string ""),
          ("injection_order", .number (.integer 4)), ("name", .string "c")],
        .object [("content", .string "4"), ("identifier", .string "a"), ("injection_order", .number (.integer 4)),
          ("system_prompt", .bool true)]])]
    let documents := DocumentSet.ofList [{ Document.ofContent "c" "3" with enabled := false }, .ofContent "b" "2",
      { Document.ofContent "a" "4" with systemPrompt := true }]
    Json.read? (Json.object fields).pretty = some (.object fields) ∧
      ∃ p, parse (Json.object fields).pretty = .ok p ∧ p.fields = fields ∧ p.Imports documents ["b", "a", "c"] ∧
        p.contents = (documents, ["b", "a", "c"]) := by
  intro listings fields documents
  have hread : Json.Readable Json.maxDepth (.object fields) := by
    have hword : ∀ n ∈ [(1 : Int), 4, 100001], (n < 0 → n.natAbs ≤ Nat.pow 2 63) ∧ n.natAbs ≤ Numeral.maxWord := by decide
    have hnumber : ∀ room, ∀ n ∈ [(1 : Int), 4, 100001], Json.Readable room (.number (.integer n)) := by
      intro room n hn
      exact .number room (Json.numberReads_integer (hword n hn).1 (hword n hn).2)
    refine .pair (by decide +kernel) (.list ?_) (.list ?_)
    · have hlistings : Json.Readable 124 (.list listings) := by
        refine .list (List.forall_mem_cons.mpr ⟨.pair (by decide +kernel) (.bool _ _) (.string _ _), ?_⟩)
        refine List.forall_mem_cons.mpr ⟨.object (by decide +kernel) (List.forall_mem_singleton.mpr (.string _ _)), ?_⟩
        exact List.forall_mem_singleton.mpr (.pair (by decide +kernel) (.null _) (.string _ _))
      refine List.forall_mem_cons.mpr ⟨.object (by decide +kernel) (List.forall_mem_singleton.mpr (.null _)), ?_⟩
      exact List.forall_mem_singleton.mpr (.pair (by decide +kernel) (hnumber _ 100001 (by simp)) hlistings)
    · refine List.forall_mem_cons.mpr ⟨.pair (by decide +kernel) (.string _ _) (hnumber _ 1 (by simp)), ?_⟩
      refine List.forall_mem_cons.mpr ⟨.null _, ?_⟩
      refine List.forall_mem_cons.mpr ⟨.pair (by decide +kernel) (.string _ _) (.string _ _), ?_⟩
      refine List.forall_mem_cons.mpr ⟨.object (by decide +kernel) ?_, List.forall_mem_singleton.mpr ?_⟩
      · simp [Json.Readable.string, Json.Readable.bool, hnumber]
      · refine .object (by decide +kernel) ?_
        simp [Json.Readable.string, Json.Readable.bool, hnumber]
  obtain ⟨p, hparse, hfields, -, -, himports⟩ := exists_imports hread.readsBack
  obtain rfl : p = ⟨fields⟩ := congrArg Preset.mk hfields
  have hlisted : listed? ⟨fields⟩ = some listings := by
    refine chosenLists_iff.mp ⟨[.object [("order", .null)]], _, [], rfl, .default rfl fun e he => ?_, rfl⟩
    obtain rfl := List.mem_singleton.mp he
    nofun
  have hindexed : documents.Indexed := DocumentSet.indexed_ofList _
  have hdocuments : documentsListed ⟨fields⟩ listings = documents :=
    (describes_documentsListed _ _).indexed.eq_of_toList_eq hindexed (by decide +kernel)
  obtain ⟨hfound, others, horder, hperm, hothers⟩ := listedFirst_contents hlisted
  rw [hdocuments] at hfound horder hperm hothers
  let c : Document := { Document.ofContent "c" "3" with enabled := false }
  let a : Document := { Document.ofContent "a" "4" with systemPrompt := true }
  have hleft : documents.toList.filter (fun d => d.id ∉ listings.filterMap fun entry => textOf? entry "identifier") = [c, a] := by
    decide +kernel
  have hca : [c, a].Perm [a, c] := .swap a c []
  have hac : [a, c].Pairwise (Precedes ⟨fields⟩ documents) :=
    List.pairwise_pair.mpr (Or.inr ⟨by decide +kernel, Or.inl ⟨rfl, rfl⟩⟩)
  rw [hleft] at hperm
  rw [eq_of_pairwise_precedes hindexed (hperm.trans hca) hothers hac] at horder
  have hcontents : contents ⟨fields⟩ = (documents, ["b", "a", "c"]) := Prod.ext hfound (horder.trans (by decide +kernel))
  exact ⟨hread.readsBack, _, hparse, rfl, (himports _ _).mpr hcontents, hcontents⟩

end PromptMacros.Preset
