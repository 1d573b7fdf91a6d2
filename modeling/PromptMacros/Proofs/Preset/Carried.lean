import Mathlib.Data.List.Forall2
import PromptMacros.Proofs.Json.RoundTrip
import PromptMacros.Proofs.Preset.Export

/-!
# What an export carries along

An export sets two fields of the preset, the prompts and the orders, and every other field stays (`carried_toJson`). It does the
same one level down: the prompt of a document is the last one that goes by its id with the fields of the document set, and of the
orders only the one that import goes by gets another list. `Fields.Overwrites` is the one way in which objects change.
-/

namespace PromptMacros

/-! ## Setting fields -/

namespace Fields

/-- After setting these fields each of them has its value, and the others are the ones that were there, in their order. -/
structure Overwrites (set before after : Fields) : Prop where
  get?_eq : ∀ field ∈ set, after.get? field.1 = some field.2
  others_eq : (after.filter fun field => field.1 ∉ set.map Prod.fst) = before.filter fun field => field.1 ∉ set.map Prod.fst
  /-- No name is repeated when none was. -/
  sorted : before.Sorted → after.Sorted

/-- Setting a field leaves the fields of other names. -/
theorem filter_insert {p : String × Json → Bool} {key : String} (hp : ∀ value, p (key, value) = false) (value : Json)
    (fields : Fields) : (fields.insert key value).filter p = fields.filter p := by
  induction fields with
  | nil => simp [Fields.insert, hp]
  | cons field fields ih =>
    obtain ⟨k, v⟩ := field
    rw [Fields.insert]
    split
    · rw [List.filter_cons_of_neg (by simp [hp])]
    · next heq =>
      obtain rfl := Std.LawfulEqOrd.eq_of_compare heq
      rw [List.filter_cons_of_neg (by simp [hp]), List.filter_cons_of_neg (by simp [hp])]
    · rw [List.filter_cons, List.filter_cons, ih]

theorem Overwrites.refl (fields : Fields) : Overwrites [] fields fields :=
  ⟨by simp, rfl, id⟩

/-- Setting one field more. -/
theorem Overwrites.insert {set before after : Fields} {key : String} (h : Overwrites set before after)
    (hkey : key ∉ set.map Prod.fst) (value : Json) :
    Overwrites (set ++ [(key, value)]) before (after.insert key value) := by
  refine ⟨?_, ?_, fun hsorted => sorted_insert key value (h.sorted hsorted)⟩
  · intro field hfield
    rw [get?_insert]
    rcases List.mem_append.mp hfield with hold | hnew
    · have hne : key ≠ field.1 := fun heq => hkey (heq ▸ List.mem_map_of_mem hold)
      rw [if_neg hne, h.get?_eq field hold]
    · rw [List.mem_singleton.mp hnew, if_pos rfl]
  · rw [filter_insert (by simp)]
    have hsplit : ∀ fields : Fields, (fields.filter fun field => field.1 ∉ (set ++ [(key, value)]).map Prod.fst) =
        (fields.filter fun field => field.1 ∉ set.map Prod.fst).filter fun field => field.1 ≠ key := by
      intro fields
      rw [List.filter_filter]
      refine List.filter_congr fun field _ => Bool.eq_iff_iff.mpr ?_
      simp only [List.map_append, List.mem_append, decide_eq_true_eq, Bool.and_eq_true, not_or]
      simp [and_comm]
    rw [hsplit, hsplit, h.others_eq]

end Fields

/-! ## Helpers: members found in a list -/

section Found

variable {α : Type} {l : List α} {p : α → Bool} {a : α}

/-- Searching from the end finds the last member with a property. -/
theorem find?_reverse_eq_some_iff :
    l.reverse.find? p = some a ↔ p a = true ∧ ∃ before after, l = before ++ a :: after ∧ ∀ b ∈ after, p b = false := by
  rw [List.find?_eq_some_iff_append]
  refine and_congr_right fun _ => ⟨?_, ?_⟩
  · rintro ⟨after, before, hsplit, hafter⟩
    refine ⟨before.reverse, after.reverse, ?_, fun b hb => ?_⟩
    · rw [← List.reverse_reverse l, hsplit]
      simp
    · simpa using hafter b (List.mem_reverse.mp hb)
  · rintro ⟨before, after, rfl, hafter⟩
    exact ⟨after.reverse, before.reverse, by simp, fun b hb => by simp [hafter b (List.mem_reverse.mp hb)]⟩

/-- Searching from the end finds nothing when no member has the property. -/
theorem find?_reverse_eq_none_iff : l.reverse.find? p = none ↔ ∀ b ∈ l, p b = false := by
  simp only [List.find?_eq_none, List.mem_reverse, Bool.not_eq_true]

/-- A member stands between those before it and those behind it. -/
theorem exists_split_of_getElem? {i : Nat} (h : l[i]? = some a) :
    ∃ before after, l = before ++ a :: after ∧ before.length = i := by
  obtain ⟨hlt, rfl⟩ := List.getElem?_eq_some_iff.mp h
  refine ⟨l.take i, l.drop (i + 1), ?_, by simp; omega⟩
  rw [List.getElem_cons_drop, List.take_append_drop]

end Found

namespace Preset

/-! ## Prompts -/

/-- A prompt goes by an id that is not empty: its identifier, or its name when it has no identifier or an empty one. -/
def GoesBy (prompt : Json) (id : String) : Prop :=
  id ≠ "" ∧ (textOf? prompt "identifier" = some id ∨
    (∀ s, textOf? prompt "identifier" = some s → s = "") ∧ textOf? prompt "name" = some id)

/-- The fields of the last prompt that goes by an id, and no fields when no prompt does. -/
inductive LastPrompt (p : Preset) (id : String) : Fields → Prop
  | found {before after : List Json} {fields : Fields} (h : p.prompts = before ++ .object fields :: after)
      (hid : GoesBy (.object fields) id) (hafter : ∀ prompt ∈ after, ¬GoesBy prompt id) : LastPrompt p id fields
  | missing (h : ∀ prompt ∈ p.prompts, ¬GoesBy prompt id) : LastPrompt p id []

/-- The fields of a prompt that tell what its document is. -/
def description (d : Document) : Fields :=
  [("identifier", .string d.id), ("name", .string d.name), ("content", .string d.content), ("role", .string d.role),
    ("enabled", .bool d.enabled), ("system_prompt", .bool d.systemPrompt), ("marker", .bool d.marker)]

/-- The prompt of a document in an export. -/
def CarriesPrompt (p : Preset) (d : Document) (prompt : Json) : Prop :=
  ∃ old new, p.LastPrompt d.id old ∧ prompt = .object new ∧ Fields.Overwrites (description d) old new

/-- The id of a prompt is what it goes by. -/
theorem promptId?_eq_some_iff {prompt : Json} {id : String} : promptId? prompt = some id ↔ GoesBy prompt id := by
  have hread : ∀ key, (textOf? prompt key).filter (· ≠ "") = some id ↔ id ≠ "" ∧ textOf? prompt key = some id := by
    intro key
    rw [Option.filter_eq_some_iff, decide_eq_true_iff, and_comm]
  have hempty : (textOf? prompt "identifier").filter (· ≠ "") = none ↔
      ∀ s, textOf? prompt "identifier" = some s → s = "" := by
    simp only [Option.filter_eq_none_iff, decide_eq_true_iff, not_not]
  have hfirst : promptId? prompt =
      ((textOf? prompt "identifier").filter (· ≠ "")).or ((textOf? prompt "name").filter (· ≠ "")) := by
    cases hidentifier : (textOf? prompt "identifier").filter (· ≠ "") with
    | none =>
      cases hname : (textOf? prompt "name").filter (· ≠ "") <;>
        simp only [promptId?, List.findSome?, hidentifier, hname, Option.or]
    | some s => simp only [promptId?, List.findSome?, hidentifier, Option.or]
  rw [hfirst, Option.or_eq_some_iff, hread, hread, hempty, GoesBy]
  tauto

/-- Only an object goes by an id. -/
theorem exists_object_of_goesBy {prompt : Json} {id : String} (h : GoesBy prompt id) : ∃ fields, prompt = .object fields := by
  cases prompt with
  | object fields => exact ⟨fields, rfl⟩
  | _ =>
    obtain ⟨-, h | ⟨-, h⟩⟩ := h <;> cases h

/-- The last prompt with an id is the one found for it. -/
theorem lastPrompt_iff {p : Preset} {id : String} {fields : Fields} :
    p.LastPrompt id fields ↔ fields = ((p.prompt? id).bind Json.asObject?).getD [] := by
  have hgoes : ∀ prompt, decide (promptId? prompt = some id) = false ↔ ¬GoesBy prompt id := by
    intro prompt
    rw [decide_eq_false_iff_not, promptId?_eq_some_iff]
  unfold prompt?
  constructor
  · rintro (⟨hprompts, hid, hafter⟩ | hnone)
    · have hfind : (p.prompts.reverse.find? fun prompt => promptId? prompt = some id) = some (.object fields) :=
        find?_reverse_eq_some_iff.mpr ⟨decide_eq_true (promptId?_eq_some_iff.mpr hid), _, _, hprompts,
          fun prompt hprompt => (hgoes prompt).mpr (hafter prompt hprompt)⟩
      rw [hfind]
      rfl
    · have hfind : (p.prompts.reverse.find? fun prompt => promptId? prompt = some id) = none :=
        find?_reverse_eq_none_iff.mpr fun prompt hprompt => (hgoes prompt).mpr (hnone prompt hprompt)
      rw [hfind]
      rfl
  · rintro rfl
    cases hfind : p.prompts.reverse.find? fun prompt => promptId? prompt = some id with
    | none => exact .missing fun prompt hprompt => (hgoes prompt).mp (find?_reverse_eq_none_iff.mp hfind prompt hprompt)
    | some prompt =>
      obtain ⟨hid, before, after, hprompts, hafter⟩ := find?_reverse_eq_some_iff.mp hfind
      have hid : GoesBy prompt id := promptId?_eq_some_iff.mp (of_decide_eq_true hid)
      obtain ⟨fields, rfl⟩ := exists_object_of_goesBy hid
      exact .found hprompts hid fun other hother => (hgoes other).mp (hafter other hother)

/-- Describing a document in a prompt sets the fields that tell what it is. -/
theorem overwrites_describe (prompt : Fields) (d : Document) : Fields.Overwrites (description d) prompt (describe prompt d) :=
  (((((((Fields.Overwrites.refl prompt).insert (by simp) _).insert (by simp) _).insert (by simp) _).insert (by simp) _).insert
    (by simp) _).insert (by simp) _).insert (by simp) _

/-- An exported prompt carries along what its document does not tell. -/
theorem carriesPrompt_promptFor (p : Preset) (d : Document) : p.CarriesPrompt d (p.promptFor d) :=
  ⟨_, _, lastPrompt_iff.mpr rfl, rfl, overwrites_describe _ d⟩

/-! ## Orders -/

/-- An order is that of the default character. -/
def OfDefaultCharacter (entry : Json) : Prop :=
  entry.get? "character_id" = some (.number (.integer 100001))

/-- Of these orders the one that import goes by stands here: the first of the default character, or the first of all when none
is. -/
inductive ChosenAt (before : List Json) (entry : Json) (after : List Json) : Prop
  | default (h : OfDefaultCharacter entry) (hbefore : ∀ e ∈ before, ¬OfDefaultCharacter e)
  | first (hbefore : before = []) (h : ∀ e ∈ entry :: after, ¬OfDefaultCharacter e)

/-- Orders in which something is listed: by the one that import goes by when that is an object, and else by a new order of the
default character at the end. -/
inductive Lists (listings : List Json) : List Json → List Json → Prop
  | replaced {before after : List Json} {old new : Fields} (hchosen : ChosenAt before (.object old) after)
      (h : Fields.Overwrites [("order", .list listings)] old new) :
      Lists listings (before ++ .object old :: after) (before ++ .object new :: after)
  | appended {entries : List Json}
      (h : ∀ before fields after, entries = before ++ .object fields :: after → ¬ChosenAt before (.object fields) after) :
      Lists listings entries
        (entries ++ [.object [("character_id", .number (.integer 100001)), ("order", .list listings)]])

theorem isDefaultOrder_iff {entry : Json} : isDefaultOrder entry = true ↔ OfDefaultCharacter entry := by
  rw [isDefaultOrder, decide_eq_true_iff, OfDefaultCharacter, Option.bind_eq_some_iff]
  simp only [Json.asInteger?_eq_some_iff, exists_eq_right, defaultCharacter]

/-- The first order of the default character stands here. -/
theorem findIdx?_isDefaultOrder_eq_some_iff {before after : List Json} {entry : Json} :
    (before ++ entry :: after).findIdx? isDefaultOrder = some before.length ↔
      OfDefaultCharacter entry ∧ ∀ e ∈ before, ¬OfDefaultCharacter e := by
  simp only [← isDefaultOrder_iff]
  rw [List.findIdx?_eq_some_iff_getElem]
  constructor
  · rintro ⟨_, hentry, hbefore⟩
    refine ⟨by simpa using hentry, fun e he => ?_⟩
    obtain ⟨j, hj, rfl⟩ := List.getElem_of_mem he
    simpa [List.getElem_append_left hj] using hbefore j hj
  · rintro ⟨hentry, hbefore⟩
    refine ⟨by simp, by simpa using hentry, fun j hj => ?_⟩
    rw [List.getElem_append_left hj]
    exact hbefore _ (List.getElem_mem hj)

/-- The order that counts is the one that import goes by. -/
theorem chosenIndex?_eq_some_iff {before after : List Json} {entry : Json} :
    chosenIndex? (before ++ entry :: after) = some before.length ↔ ChosenAt before entry after := by
  have hnone : (before ++ entry :: after).findIdx? isDefaultOrder = none ↔
      ∀ e ∈ before ++ entry :: after, ¬OfDefaultCharacter e := by
    simp only [List.findIdx?_eq_none_iff, ← isDefaultOrder_iff, Bool.not_eq_true]
  have hfirst : (if (before ++ entry :: after).isEmpty then none else some 0) = some before.length ↔ before = [] := by
    rw [if_neg (by simp), Option.some.injEq, eq_comm, List.length_eq_zero_iff]
  rw [chosenIndex?, Option.or_eq_some_iff, findIdx?_isDefaultOrder_eq_some_iff, hnone, hfirst]
  constructor
  · rintro (⟨h, hbefore⟩ | ⟨h, rfl⟩)
    · exact .default h hbefore
    · exact .first rfl h
  · rintro (⟨h, hbefore⟩ | ⟨rfl, h⟩)
    · exact .inl ⟨h, hbefore⟩
    · exact .inr ⟨h, rfl⟩

/-- In the orders of an export the listings stand where import looks for them. -/
theorem lists_setChosen (entries listings : List Json) : Lists listings entries (setChosen entries listings) := by
  unfold setChosen
  split
  · next i fields h =>
    obtain ⟨j, hchosen, h⟩ := Option.bind_eq_some_iff.mp h
    obtain ⟨fs, hentry, h⟩ := Option.map_eq_some_iff.mp h
    obtain ⟨rfl, rfl⟩ := Prod.mk.inj h
    obtain ⟨entry, hentry, hobject⟩ := Option.bind_eq_some_iff.mp hentry
    obtain rfl := Json.asObject?_eq_some_iff.mp hobject
    obtain ⟨before, after, rfl, rfl⟩ := exists_split_of_getElem? hentry
    rw [List.set_append_right _ _ (Nat.le_refl _), Nat.sub_self, List.set_cons_zero]
    exact .replaced (chosenIndex?_eq_some_iff.mp hchosen) ((Fields.Overwrites.refl fs).insert (by simp) _)
  · next h =>
    refine .appended fun before fields after hentries hchosen => ?_
    subst hentries
    rw [chosenIndex?_eq_some_iff.mpr hchosen] at h
    simp [Json.asObject?] at h

/-! ## The whole export -/

/-- An export changes the prompts and the orders, and in these only what it tells: every other field of the preset is carried
along, every prompt has the other fields of the last one with its id, and of the orders only the one that import goes by lists
something else. -/
theorem carried_toJson (p : Preset) (documents : DocumentSet) (order : List String) :
    ∃ fields prompts orders, p.toJson documents order = .object fields ∧
      Fields.Overwrites [("prompts", .list prompts), ("prompt_order", .list orders)] p.fields fields ∧
      List.Forall₂ p.CarriesPrompt documents.toList prompts ∧
      Lists ((order.filterMap documents.get?).map listing) (p.orders?.getD []) orders := by
  refine ⟨_, documents.toList.map p.promptFor, _, rfl, ?_, ?_, lists_setChosen _ _⟩
  · rw [exportFields_eq]
    exact ((Fields.Overwrites.refl p.fields).insert (by simp) _).insert (by simp) _
  · rw [List.forall₂_map_right_iff, List.forall₂_same]
    exact fun d _ => p.carriesPrompt_promptFor d

end Preset

end PromptMacros
