import PromptMacros.Proofs.Analysis.Listing
import PromptMacros.Proofs.Analysis.Written

/-!
# Neighbours that may change places

A document spares another when it is disabled, or sets no variable that the other sets or reads; what it writes is then nothing to
the variables that the other names (`Provider.Spares.written_eq_none`). Two neighbours of an order that spare each other write the
same in either order (`written_exchanged`) and see the same, and so do all others; only the lists of the documents that use a
variable may come in another order (`analyze_exchanged`). The two must not be one document that is found with two flags, since of
those a list has the one that was noted first (`not_sameEntries_misfiled`).
-/

namespace PromptMacros

/-! ## Documents that spare others -/

/-- Unless it is disabled, the document `a` sets no variable that the document `b` sets or reads. -/
def Provider.Spares (provider : Provider) (a b : String) : Prop :=
  (provider a).map Document.enabled = some true → ∀ m ∈ provider.macrosOf a, ∀ n ∈ provider.macrosOf b,
    ∀ name ∈ n.varName?, m.uses .definition name = false

instance (provider : Provider) (a b : String) : Decidable (provider.Spares a b) :=
  inferInstanceAs (Decidable (_ → _))

section Spares

variable {provider : Provider} {a b : String} {name : String}

/-- A document writes nothing to the variables that a document it spares sets or reads. -/
theorem Provider.Spares.written_eq_none (h : provider.Spares a b) {n : Macro} (hn : n ∈ provider.macrosOf b)
    (hname : n.varName? = some name) : written provider (provider.macrosOf a) name = none :=
  written_macrosOf_eq_none fun hen m hm => h hen m hm n hn name hname

/-- A document writes nothing to what the macros of a document it spares read, named or not. -/
theorem Provider.Spares.written_eq_none_of_read (h : provider.Spares a b) {n : Macro} (hn : n ∈ provider.macrosOf b)
    (hkind : n.kind = .getVar name) : written provider (provider.macrosOf a) name = none := by
  by_cases hname : name = ""
  · subst hname
    refine written_eq_none_iff.mpr fun m hm value => ?_
    have hflow : m ∈ [a].flatMap provider.macrosOf := by simpa using hm
    exact Macro.not_writes_empty hflow
  · refine h.written_eq_none hn ?_
    rw [Macro.varName?, hkind, Kind.varName?, if_neg hname]

/-- A document that spares another may run before it or not: what the other reads is the same. -/
theorem Provider.Spares.written_concat (h : provider.Spares a b) {n : Macro} (hn : n ∈ provider.macrosOf b)
    (hkind : n.kind = .getVar name) (before : List String) :
    written provider ((before ++ [a]).flatMap provider.macrosOf) name =
      written provider (before.flatMap provider.macrosOf) name := by
  rw [List.flatMap_append, List.flatMap_singleton, written_append, h.written_eq_none_of_read hn hkind, Option.none_or]

/-- A document does not write the variables that one it spares writes, so it does not matter which of the two runs first. -/
theorem written_exchanged (hba : provider.Spares b a) (before : List String) (name : String) :
    written provider ((before ++ [b, a]).flatMap provider.macrosOf) name =
      written provider ((before ++ [a, b]).flatMap provider.macrosOf) name := by
  have hnone : written provider (provider.macrosOf a) name = none ∨ written provider (provider.macrosOf b) name = none := by
    by_cases ha : ∃ m ∈ provider.macrosOf a, ∃ v, m.Writes provider name v
    · obtain ⟨m, hm, v, hw⟩ := ha
      exact Or.inr (hba.written_eq_none hm (Macro.exists_uses_iff.mp ⟨_, hw.uses⟩))
    · exact Or.inl (written_eq_none_iff.mpr fun m hm v hw => ha ⟨m, hm, v, hw⟩)
  simp only [List.flatMap_append, List.flatMap_cons, List.flatMap_nil, List.append_nil, written_append]
  rcases hnone with h | h <;> rw [h] <;> simp

end Spares

/-! ## Reports -/

/-- Two records have the same documents with the same flags, perhaps in another order. -/
structure Variable.SameEntries (v w : Variable) : Prop where
  definedIn : w.definedIn.Perm v.definedIn
  referencedIn : w.referencedIn.Perm v.referencedIn

/-- Two reports have the same entries for each variable, perhaps in another order. -/
def Report.SameEntries (r r' : Report) : Prop :=
  ∀ name, Option.Rel Variable.SameEntries (r.variableNamed? name) (r'.variableNamed? name)

section Reports

variable {provider : Provider} {before after : List String} {a b : String}

/-- An order with two neighbours exchanged has the same ids. -/
theorem perm_exchanged (before after : List String) (a b : String) :
    (before ++ [b, a] ++ after).Perm (before ++ [a, b] ++ after) :=
  ((List.Perm.swap a b []).append_left before).append_right after

/-- With two neighbours exchanged a report has the same names. -/
theorem sameNames_analyze_exchanged (provider : Provider) (before after : List String) (a b : String) :
    (analyze provider (before ++ [a, b] ++ after)).SameNames (analyze provider (before ++ [b, a] ++ after)) := by
  refine sameNames_analyze fun use name => ?_
  rw [listed_analyze_eq_nil_iff, listed_analyze_eq_nil_iff]
  exact forall_congr' fun id => imp_congr_left (perm_exchanged before after a b).mem_iff

/-- Every document sees the same with two neighbours exchanged that spare each other. -/
theorem snapshots_analyze_exchanged (h : (before ++ [a, b] ++ after).Nodup) (hab : provider.Spares a b)
    (hba : provider.Spares b a) :
    (analyze provider (before ++ [b, a] ++ after)).snapshots = (analyze provider (before ++ [a, b] ++ after)).snapshots := by
  have h' : (before ++ [b, a] ++ after).Nodup := (perm_exchanged before after a b).nodup_iff.mpr h
  -- What all others see is told by what the two write together; for the two it matters that they spare each other.
  refine Std.ExtTreeMap.ext_getElem? fun id => ?_
  by_cases ha : id.document = a
  · have hsplit : before ++ [a, b] ++ after = before ++ a :: (b :: after) := by simp
    have hsplit' : before ++ [b, a] ++ after = (before ++ [b]) ++ a :: after := by simp
    rw [hsplit] at h ⊢
    rw [hsplit'] at h' ⊢
    exact getElem?_snapshots_analyze_congr h h' (fun m hm name hkind => hba.written_concat hm hkind before) ha
  by_cases hb : id.document = b
  · have hsplit : before ++ [a, b] ++ after = (before ++ [a]) ++ b :: after := by simp
    have hsplit' : before ++ [b, a] ++ after = before ++ b :: (a :: after) := by simp
    rw [hsplit] at h ⊢
    rw [hsplit'] at h' ⊢
    exact getElem?_snapshots_analyze_congr h h' (fun m hm name hkind => (hab.written_concat hm hkind before).symm) hb
  · exact getElem?_snapshots_analyze_around h h' (written_exchanged hba before) (by simp [ha, hb]) (by simp [ha, hb])

/-- Two neighbours exchanged are listed in other places at most, if they are not one document with two flags. -/
theorem listed_analyze_exchanged (hown : ∀ d e, provider a = some d → provider b = some e → d.id = e.id → d.enabled = e.enabled)
    (use : Use) (name : String) :
    ((analyze provider (before ++ [b, a] ++ after)).listed use name).Perm
      ((analyze provider (before ++ [a, b] ++ after)).listed use name) := by
  have hsame : ∀ o p, provider.user? use name a = some o → provider.user? use name b = some p →
      o.document = p.document → o = p := by
    intro o p ho hp hdoc
    unfold Provider.user? at ho hp
    split at ho
    · split at hp
      · obtain ⟨d, hd, rfl⟩ := Option.map_eq_some_iff.mp ho
        obtain ⟨e, he, rfl⟩ := Option.map_eq_some_iff.mp hp
        have hdoc : d.id = e.id := hdoc
        rw [Document.occurrence, Document.occurrence, hdoc, hown d e hd he hdoc]
      · cases hp
    · cases ho
  simp only [listed_analyze, List.filterMap_append, Occurrence.noteAll_append]
  refine Occurrence.noteAll_perm ?_ _
  cases ho : provider.user? use name a with
  | none => cases hp : provider.user? use name b <;> simp [ho, hp]
  | some o =>
    cases hp : provider.user? use name b with
    | none => simp [ho, hp]
    | some p =>
      rw [List.filterMap_cons_some hp, List.filterMap_cons_some ho, List.filterMap_cons_some ho, List.filterMap_cons_some hp]
      exact Occurrence.noteIn_noteIn_perm (hsame o p ho hp) _

/-- Two neighbours exchanged that spare each other change nothing but the places of entries in records. -/
theorem sameButRecords_analyze_exchanged (h : (before ++ [a, b] ++ after).Nodup) (hab : provider.Spares a b)
    (hba : provider.Spares b a) :
    (analyze provider (before ++ [a, b] ++ after)).SameButRecords (analyze provider (before ++ [b, a] ++ after)) := by
  refine ⟨sameNames_analyze_exchanged provider before after a b, ?_, snapshots_analyze_exchanged h hab hba,
    finalState_analyze_behind (written_exchanged hba before) after⟩
  refine Std.ExtTreeMap.ext_getElem? fun id => ?_
  rw [getElem?_macros_analyze_eq, getElem?_macros_analyze_eq, if_congr (perm_exchanged before after a b).mem_iff rfl rfl]

/-- Two neighbours exchanged have the same entries, if they are not one document with two flags. -/
theorem sameEntries_analyze_exchanged
    (hown : ∀ d e, provider a = some d → provider b = some e → d.id = e.id → d.enabled = e.enabled) :
    (analyze provider (before ++ [a, b] ++ after)).SameEntries (analyze provider (before ++ [b, a] ++ after)) := by
  intro name
  rcases (sameNames_analyze_exchanged provider before after a b).variableNamed?_cases name with ⟨hr, hr'⟩ | ⟨hr, hr'⟩
  · rw [hr, hr']
    exact .none
  · rw [hr, hr']
    exact .some ⟨listed_analyze_exchanged hown .definition name, listed_analyze_exchanged hown .reference name⟩

/-- A store that keeps documents under their own ids has no document with two flags. -/
theorem Provider.Keyed.enabled_eq (hp : provider.Keyed) (d e : Document) (hd : provider a = some d) (he : provider b = some e)
    (hde : d.id = e.id) : d.enabled = e.enabled := by
  obtain rfl : a = b := by rw [← hp a d hd, hde, hp b e he]
  rw [Option.some.inj (hd.symm.trans he)]

/-- Let two neighbours of an order without repeats spare each other. With the two exchanged the report has the same macros, snapshots,
values at the end, and names, and calls the same names unresolved and unreferenced. The record of each variable has the same
entries too, perhaps in another order, unless the two neighbours are found as one document with two flags, which a store that keeps
documents under their own ids never does. -/
theorem analyze_exchanged (h : (before ++ [a, b] ++ after).Nodup) (hab : provider.Spares a b) (hba : provider.Spares b a) :
    (analyze provider (before ++ [a, b] ++ after)).SameButRecords (analyze provider (before ++ [b, a] ++ after)) ∧
    ((∀ d e, provider a = some d → provider b = some e → d.id = e.id → d.enabled = e.enabled) →
      (analyze provider (before ++ [a, b] ++ after)).SameEntries (analyze provider (before ++ [b, a] ++ after))) ∧
    (provider.Keyed →
      (analyze provider (before ++ [a, b] ++ after)).SameEntries (analyze provider (before ++ [b, a] ++ after))) :=
  ⟨sameButRecords_analyze_exchanged h hab hba, sameEntries_analyze_exchanged,
    fun hp => sameEntries_analyze_exchanged hp.enabled_eq⟩

/-- A document that sets what both read runs before them; the one is disabled and sets what the other reads, and the other sets
what only a document behind them reads. -/
theorem analyze_exchanged_disabled :
    let provider := Provider.ofList [
      .ofContent "a" "\x7b\x7bgetvar::x\x7d\x7d\x7b\x7bsetvar::y::1\x7d\x7d",
      { Document.ofContent "b" "\x7b\x7bsetvar::x::2\x7d\x7d\x7b\x7bgetvar::x\x7d\x7d" with enabled := false },
      .ofContent "c" "\x7b\x7bsetvar::x::3\x7d\x7d",
      .ofContent "d" "\x7b\x7bgetvar::y\x7d\x7d\x7b\x7bgetvar::z\x7d\x7d"]
    (["c"] ++ ["a", "b"] ++ ["ghost", "d"]).Nodup ∧ provider.Spares "a" "b" ∧ provider.Spares "b" "a" ∧ provider.Keyed ∧
      (analyze provider (["c"] ++ ["a", "b"] ++ ["ghost", "d"])).SameButRecords
        (analyze provider (["c"] ++ ["b", "a"] ++ ["ghost", "d"])) ∧
      (analyze provider (["c"] ++ ["a", "b"] ++ ["ghost", "d"])).SameEntries
        (analyze provider (["c"] ++ ["b", "a"] ++ ["ghost", "d"])) ∧
      (analyze provider (["c"] ++ ["a", "b"] ++ ["ghost", "d"])).variableNamed? "x" =
        some ⟨[⟨"c", true⟩, ⟨"b", false⟩], [⟨"a", true⟩, ⟨"b", false⟩]⟩ ∧
      (analyze provider (["c"] ++ ["b", "a"] ++ ["ghost", "d"])).variableNamed? "x" =
        some ⟨[⟨"c", true⟩, ⟨"b", false⟩], [⟨"b", false⟩, ⟨"a", true⟩]⟩ := by
  intro provider
  have h : (["c"] ++ ["a", "b"] ++ ["ghost", "d"]).Nodup := by decide
  have hab : provider.Spares "a" "b" := by decide +kernel
  have hba : provider.Spares "b" "a" := by decide +kernel
  have hkeyed : provider.Keyed := Provider.keyed_ofList _
  obtain ⟨hsame, -, hrecords⟩ := analyze_exchanged h hab hba
  exact ⟨h, hab, hba, hkeyed, hsame, hrecords hkeyed, by decide +kernel, by decide +kernel⟩

/-- The entries do not stay where the two neighbours are found as one document with two flags: of a document that a map keeps
under two keys, once enabled and once disabled, a record notes the flag that comes first. -/
theorem not_sameEntries_misfiled :
    let x := Document.ofContent "x" "\x7b\x7bgetvar::v\x7d\x7d"
    let provider := Provider.ofMap
      (((∅ : Std.ExtTreeMap String Document).insert "a" x).insert "b" { x with enabled := false })
    ["a", "b"].Nodup ∧ provider.Spares "a" "b" ∧ provider.Spares "b" "a" ∧
      ¬(analyze provider ["a", "b"]).SameEntries (analyze provider ["b", "a"]) ∧
      (analyze provider ["a", "b"]).variableNamed? "v" = some ⟨[], [⟨"x", true⟩]⟩ ∧
      (analyze provider ["b", "a"]).variableNamed? "v" = some ⟨[], [⟨"x", false⟩]⟩ := by
  intro x provider
  have hab : (analyze provider ["a", "b"]).variableNamed? "v" = some ⟨[], [⟨"x", true⟩]⟩ := by decide +kernel
  have hba : (analyze provider ["b", "a"]).variableNamed? "v" = some ⟨[], [⟨"x", false⟩]⟩ := by decide +kernel
  refine ⟨by decide, by decide +kernel, by decide +kernel, fun hsame => ?_, hab, hba⟩
  have hrel := hsame "v"
  rw [hab, hba, Option.rel_some_some] at hrel
  exact absurd (List.perm_singleton.mp hrel.referencedIn) (by decide)

end Reports

end PromptMacros
