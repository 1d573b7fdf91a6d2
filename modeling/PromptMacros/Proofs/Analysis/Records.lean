import Mathlib.Data.List.Induction
import PromptMacros.Document.Index
import PromptMacros.Order
import PromptMacros.Proofs.Analysis.Usage

/-!
# What a report records of variables

For each variable a report lists the documents that set it and those that read it. A step notes the document of its macro, and
the macros of one document note it once (`Simulation.listed_macrosOf`); so at the end the documents that the order lists stand
in each list where they come first in the order, if a macro of theirs uses the variable (`listed_simulate`). The names of a
report, and those that it calls unresolved or unreferenced, are read off these lists (`records_analyze`).
-/

namespace PromptMacros

/-- A way to use a variable: to set it or to read it. -/
inductive Use
  | definition
  | reference
  deriving DecidableEq, Repr

/-- The documents noted for a variable that use it so. -/
def Variable.listed (v : Variable) : Use → List Occurrence
  | .definition => v.definedIn
  | .reference => v.referencedIn

/-- Whether the macro uses the variable so. -/
def Macro.uses (use : Use) (name : String) (m : Macro) : Bool :=
  (match use with
    | .definition => m.kind.isSetVar
    | .reference => m.kind.isGetVar) && m.varName? = some name

/-- A macro that names a variable sets it or reads it. -/
theorem Macro.exists_uses_iff {m : Macro} {name : String} : (∃ use, m.uses use name = true) ↔ m.varName? = some name := by
  constructor
  · rintro ⟨use, h⟩
    exact of_decide_eq_true (Bool.and_eq_true_iff.mp h).2
  · intro h
    have hname := h
    unfold varName? at hname
    cases hkind : m.kind with
    | setVar x value => exact ⟨.definition, by simp [uses, Kind.isSetVar, hkind, h]⟩
    | getVar x => exact ⟨.reference, by simp [uses, Kind.isGetVar, hkind, h]⟩
    | comment => rw [hkind] at hname; cases hname
    | other tag params => rw [hkind] at hname; cases hname

/-- The document as it is noted. -/
def Document.occurrence (d : Document) : Occurrence :=
  ⟨d.id, d.enabled⟩

namespace Provider

/-- Every document is found under its own id. -/
def Keyed (provider : Provider) : Prop :=
  ∀ id d, provider id = some d → d.id = id

/-- The documents of an order with a macro of which the predicate holds, each where the order first lists it. -/
def documentsWith (provider : Provider) (order : List String) (p : Macro → Bool) : List Document :=
  ((Order.firsts order).filterMap provider).filter fun d => (Macro.ofContent d.id d.content).any p

/-- The documents of a list are found under their own ids. -/
theorem keyed_ofList (docs : List Document) : (ofList docs).Keyed := by
  intro id d h
  exact of_decide_eq_true (List.find?_some (p := fun d : Document => decide (d.id = id)) h)

/-- The documents of a set are found under their own ids. -/
theorem keyed_of_indexed {documents : DocumentSet} (h : documents.Indexed) : documents.provider.Keyed :=
  fun _ _ hd => (h.get?_eq_some_iff.mp hd).2

variable {provider : Provider}

theorem mem_documentsWith_iff {order : List String} {p : Macro → Bool} {d : Document} :
    d ∈ provider.documentsWith order p ↔
      ∃ id ∈ order, provider id = some d ∧ ∃ m ∈ Macro.ofContent d.id d.content, p m = true := by
  simp only [documentsWith, List.mem_filter, List.mem_filterMap, Order.mem_firsts, List.any_eq_true]
  constructor
  · rintro ⟨⟨id, hid, hd⟩, hm⟩
    exact ⟨id, hid, hd, hm⟩
  · rintro ⟨id, hid, hd, hm⟩
    exact ⟨⟨id, hid, hd⟩, hm⟩

/-- The documents of an order are noted once each. -/
theorem nodup_occurrences_documentsWith (hp : provider.Keyed) (order : List String) (p : Macro → Bool) :
    (((provider.documentsWith order p).map Document.occurrence).map Occurrence.document).Nodup := by
  rw [List.map_map]
  have hids : ((Order.firsts order).filterMap provider).map Document.id =
      (Order.firsts order).filter fun id => (provider id).isSome := by
    induction Order.firsts order with
    | nil => rfl
    | cons id ids ih =>
      cases hd : provider id with
      | none => simp [hd, ih]
      | some d => simp [hd, ih, hp id d hd]
  have hsub : ((provider.documentsWith order p).map Document.id).Sublist (Order.firsts order) := by
    refine (List.filter_sublist.map _).trans ?_
    rw [hids]
    exact List.filter_sublist
  exact hsub.nodup (Order.nodup_firsts order)

end Provider

/-! ## Noting the documents of macros -/

/-- Noting a document again changes nothing. -/
theorem Occurrence.noteIn_noteIn (o : Occurrence) (list : List Occurrence) : o.noteIn (o.noteIn list) = o.noteIn list := by
  by_cases h : ∃ p ∈ list, p.document = o.document
  · obtain ⟨p, hp, ho⟩ := h
    rw [noteIn_of_mem hp ho, noteIn_of_mem hp ho]
  · have hne : ∀ p ∈ list, p.document ≠ o.document := fun p hp ho => h ⟨p, hp, ho⟩
    rw [noteIn_of_forall_ne hne]
    exact noteIn_of_mem (p := o) (by simp) rfl

namespace Simulation

variable {provider : Provider} {use : Use} {name : String}

/-- The documents noted so far that use a variable so. -/
def listed (s : Simulation) (use : Use) (name : String) : List Occurrence :=
  (s.usage.getD name {}).listed use

/-- A change of where a variable is used concerns that variable only. -/
theorem listed_note (s : Simulation) (x : String) (f : Variable → Variable) :
    (s.note x f).listed use name = if x = name then (f (s.usage.getD x {})).listed use else s.listed use name := by
  unfold listed note
  dsimp only
  rw [Std.ExtTreeMap.getD_insert]
  simp only [Std.LawfulEqOrd.compare_eq_iff_eq]
  split <;> rfl

/-- A macro notes its document with the variable that it names, and with no other. -/
theorem listed_step {m : Macro} {d : Document} (hd : provider m.id.document = some d) (s : Simulation) :
    (step provider s m).listed use name =
      if m.uses use name then d.occurrence.noteIn (s.listed use name) else s.listed use name := by
  unfold step Macro.uses Macro.varName?
  rw [hd]
  dsimp only
  unfold run
  cases hkind : m.kind with
  | setVar x v =>
    cases x with
    | none => simp [Kind.varName?]
    | some x =>
      have hset : (s.set d x v).listed use name = (s.note x fun v => v.define d.occurrence).listed use name := by
        unfold set
        dsimp only
        split <;> rfl
      dsimp only
      rw [hset, listed_note]
      by_cases hx : x = name
      · subst hx
        cases use <;> simp [Kind.isSetVar, Kind.isGetVar, Kind.varName?, Variable.listed, Variable.define, listed]
      · simp [Kind.varName?, hx]
  | getVar x =>
    have hget : (s.get d m.id x).listed use name =
        (if x = "" then s else s.note x fun v => v.reference d.occurrence).listed use name := rfl
    dsimp only
    rw [hget]
    by_cases hx : x = ""
    · simp [Kind.varName?, hx]
    · rw [if_neg hx, listed_note]
      by_cases hxn : x = name
      · subst hxn
        cases use <;> simp [Kind.isSetVar, Kind.isGetVar, Kind.varName?, hx, Variable.listed, Variable.reference, listed]
      · simp [Kind.varName?, hx, hxn]
  | comment => simp [Kind.varName?]
  | other tag params => simp [Kind.varName?]

/-- The macros of one document note it with the variable at most once. -/
theorem listed_simulateFrom {macros : List Macro} {d : Document} (hd : ∀ m ∈ macros, provider m.id.document = some d)
    (s : Simulation) :
    (simulateFrom provider s macros).listed use name =
      if macros.any (Macro.uses use name) then d.occurrence.noteIn (s.listed use name) else s.listed use name := by
  induction macros generalizing s with
  | nil => rfl
  | cons m macros ih =>
    obtain ⟨hm, hmacros⟩ := List.forall_mem_cons.mp hd
    change (simulateFrom provider (step provider s m) macros).listed use name = _
    rw [ih hmacros, listed_step hm, List.any_cons]
    cases m.uses use name <;> cases macros.any (Macro.uses use name) <;> simp [Occurrence.noteIn_noteIn]

end Simulation

/-! ## Noting the documents of an order -/

section Order

variable {provider : Provider} {use : Use} {name : String}

/-- A document behind an order is listed last, unless the order lists it already. -/
theorem Provider.documentsWith_concat {order : List String} {id : String} {d : Document} {p : Macro → Bool}
    (hd : provider id = some d) (hm : (Macro.ofContent d.id d.content).any p = true) :
    provider.documentsWith (order ++ [id]) p =
      if id ∈ order then provider.documentsWith order p else provider.documentsWith order p ++ [d] := by
  unfold documentsWith
  rw [Order.firsts_concat]
  split
  · rfl
  · rw [List.filterMap_append, List.filter_append]
    simp [hd, hm]

/-- A document without such a macro behind an order changes nothing. -/
theorem Provider.documentsWith_concat_of_not {order : List String} {id : String} {p : Macro → Bool}
    (hm : ∀ d, provider id = some d → (Macro.ofContent d.id d.content).any p = false) :
    provider.documentsWith (order ++ [id]) p = provider.documentsWith order p := by
  unfold documentsWith
  rw [Order.firsts_concat]
  split
  · rfl
  · rw [List.filterMap_append, List.filter_append]
    cases hd : provider id with
    | none => simp [hd]
    | some d => simp [hd, hm d hd]

/-- At the end, the documents noted are those of the order that use the variable so, each where it first comes. -/
theorem listed_simulate (hp : provider.Keyed) (order : List String) :
    (simulate provider (order.flatMap provider.macrosOf)).listed use name =
      (provider.documentsWith order (Macro.uses use name)).map Document.occurrence := by
  induction order using List.reverseRecOn with
  | nil => cases use <;> simp [simulate, simulateFrom, Simulation.listed, Variable.listed, Provider.documentsWith, Order.firsts]
  | append_singleton order id ih =>
    rw [simulate, List.flatMap_append, simulateFrom_append, List.flatMap_singleton]
    change (simulateFrom provider (simulate provider _) _).listed use name = _
    cases hd : provider id with
    | none =>
      have hmacros : provider.macrosOf id = [] := by rw [Provider.macrosOf, hd]
      rw [hmacros, Provider.documentsWith_concat_of_not (by simp [hd]), ← ih]
      rfl
    | some d =>
      obtain rfl := hp id d hd
      have hmacros : provider.macrosOf d.id = Macro.ofContent d.id d.content := by rw [Provider.macrosOf, hd]
      have hown : ∀ m ∈ Macro.ofContent d.id d.content, provider m.id.document = some d := by
        intro m hm
        rw [Macro.document_of_mem_ofContent hm, hd]
      rw [hmacros, Simulation.listed_simulateFrom hown, ih]
      cases hany : (Macro.ofContent d.id d.content).any (Macro.uses use name) with
      | false =>
        rw [if_neg Bool.false_ne_true, Provider.documentsWith_concat_of_not]
        intro e he
        rw [hd] at he
        rw [← Option.some.inj he, hany]
      | true =>
        rw [if_pos rfl, Provider.documentsWith_concat hd hany]
        split
        · next hmem =>
          -- The document was noted when the order listed it before.
          have hdoc : d ∈ provider.documentsWith order (Macro.uses use name) :=
            Provider.mem_documentsWith_iff.mpr ⟨d.id, hmem, hd, List.any_eq_true.mp hany⟩
          exact Occurrence.noteIn_of_mem (List.mem_map_of_mem hdoc) rfl
        · next hmem =>
          rw [List.map_append, List.map_singleton]
          refine Occurrence.noteIn_of_forall_ne ?_
          intro o ho he
          obtain ⟨e, hdoc, rfl⟩ := List.mem_map.mp ho
          obtain ⟨id, hid, hprov, -⟩ := Provider.mem_documentsWith_iff.mp hdoc
          have heid : id = d.id := (hp id e hprov).symm.trans he
          exact hmem (heid ▸ hid)

end Order

/-! ## Reports -/

/-- The report records what the documents of the order do with their variables. -/
structure Report.Records (provider : Provider) (order : List String) (r : Report) : Prop where
  /-- The names, in increasing order, are those that the contents of the documents use. -/
  names : r.variableNames.Pairwise (· < ·) ∧ ∀ name, name ∈ r.variableNames ↔
    ∃ id ∈ order, ∃ d, provider id = some d ∧ name ∈ PromptMacros.variableNames d.content
  /-- Each name stands for the documents with a macro that sets the variable and those with one that reads it. -/
  records : ∀ name ∈ r.variableNames, r.variableNamed? name = some {
    definedIn := (provider.documentsWith order fun m => m.kind.isSetVar && m.varName? = some name).map Document.occurrence
    referencedIn := (provider.documentsWith order fun m => m.kind.isGetVar && m.varName? = some name).map Document.occurrence }
  /-- No document stands twice for one name. -/
  once : ∀ name v, r.variableNamed? name = some v →
    (v.definedIn.map Occurrence.document).Nodup ∧ (v.referencedIn.map Occurrence.document).Nodup
  /-- The unresolved names, in increasing order, are those that no document sets, enabled or not. -/
  unresolved : r.unresolved.Pairwise (· < ·) ∧ ∀ name, name ∈ r.unresolved ↔
    ∃ v, r.variableNamed? name = some v ∧ v.definedIn = []
  isUnresolved : ∀ name, r.isUnresolved name = true ↔ name ∈ r.unresolved
  /-- The unreferenced names, in increasing order, are those that no document reads, enabled or not. -/
  unreferenced : r.unreferenced.Pairwise (· < ·) ∧ ∀ name, name ∈ r.unreferenced ↔
    ∃ v, r.variableNamed? name = some v ∧ v.referencedIn = []
  counts : r.counts = ⟨r.unresolved.length, r.unreferenced.length⟩

section Report

variable {provider : Provider} {order : List String} {name : String}

/-- What a report says of a name that it knows are the documents noted at the end. -/
theorem variableNamed?_analyze (hp : provider.Keyed) (h : (analyze provider order).knows name = true) :
    (analyze provider order).variableNamed? name = some {
      definedIn := (provider.documentsWith order (Macro.uses .definition name)).map Document.occurrence
      referencedIn := (provider.documentsWith order (Macro.uses .reference name)).map Document.occurrence } := by
  have husage : (analyze provider order).usage = (simulate provider (order.flatMap provider.macrosOf)).usage := by
    rw [analyze_eq]
    rfl
  rw [Report.knows, Std.ExtTreeMap.contains_eq_isSome_getElem?, Option.isSome_iff_exists] at h
  obtain ⟨v, hv⟩ := h
  have hlisted : ∀ use, v.listed use = (provider.documentsWith order (Macro.uses use name)).map Document.occurrence := by
    intro use
    rw [← listed_simulate hp, Simulation.listed, ← husage, Std.ExtTreeMap.getD_eq_getD_getElem?, hv]
    rfl
  rw [Report.variableNamed?, hv, ← hlisted, ← hlisted]
  rfl

/-- A report knows the names of which it says something. -/
theorem knows_of_variableNamed? {r : Report} {v : Variable} (h : r.variableNamed? name = some v) : r.knows name = true := by
  rw [Report.knows, Std.ExtTreeMap.contains_eq_isSome_getElem?, ← Report.variableNamed?, h]
  rfl

/-- A variable that a report knows is used by a document. -/
theorem exists_use_of_variableNamed? (hp : provider.Keyed) {v : Variable}
    (h : (analyze provider order).variableNamed? name = some v) : v.definedIn ≠ [] ∨ v.referencedIn ≠ [] := by
  have hknown := knows_of_variableNamed? h
  obtain ⟨id, hid, m, hm, hname⟩ := knows_analyze_iff.mp hknown
  obtain ⟨d, hd⟩ := Option.isSome_iff_exists.mp (Provider.isSome_of_mem_macrosOf hm)
  obtain rfl := hp id d hd
  have hmacros : m ∈ Macro.ofContent d.id d.content := by rwa [Provider.macrosOf, hd] at hm
  have hdoc : ∀ use, m.uses use name = true → d.occurrence ∈
      (provider.documentsWith order (Macro.uses use name)).map Document.occurrence := by
    intro use huse
    exact List.mem_map_of_mem (Provider.mem_documentsWith_iff.mpr ⟨d.id, hid, hd, m, hmacros, huse⟩)
  rw [variableNamed?_analyze hp hknown] at h
  obtain rfl := Option.some.inj h
  obtain ⟨use, huse⟩ := Macro.exists_uses_iff.mpr hname
  cases use with
  | definition => exact Or.inl (List.ne_nil_of_mem (hdoc .definition huse))
  | reference => exact Or.inr (List.ne_nil_of_mem (hdoc .reference huse))

/-- The report of an order records what the documents of the order do with their variables. -/
theorem records_analyze (hp : provider.Keyed) (order : List String) : (analyze provider order).Records provider order := by
  refine ⟨⟨?_, fun name => ?_⟩, fun name hname => ?_, fun name v hv => ?_, ⟨pairwise_namesWhere _ _, fun name => ?_⟩,
    fun name => List.contains_iff_mem, ⟨pairwise_namesWhere _ _, fun name => ?_⟩, Report.counts_eq _⟩
  · refine Std.ExtTreeMap.ordered_keys.imp ?_
    intro a b h
    exact compareOfLessAndEq_eq_lt.mp h
  · rw [mem_variableNames_iff_knows, knows_analyze_iff]
    refine exists_congr fun id => and_congr_right fun _ => ?_
    unfold Provider.macrosOf
    cases provider id with
    | none => simp
    | some d => simp [Macro.mem_variableNames_iff_exists id]
  · exact variableNamed?_analyze hp ((mem_variableNames_iff_knows _).mp hname)
  · have hknown := knows_of_variableNamed? hv
    rw [variableNamed?_analyze hp hknown] at hv
    obtain rfl := Option.some.inj hv
    exact ⟨Provider.nodup_occurrences_documentsWith hp _ _, Provider.nodup_occurrences_documentsWith hp _ _⟩
  · refine mem_namesWhere_iff.trans (exists_congr fun v => and_congr_right fun hv => ?_)
    have huse := exists_use_of_variableNamed? hp hv
    cases hdef : v.definedIn <;> simp_all [Variable.isUnresolved]
  · refine mem_namesWhere_iff.trans (exists_congr fun v => and_congr_right fun hv => ?_)
    have huse := exists_use_of_variableNamed? hp hv
    cases href : v.referencedIn <;> simp_all [Variable.isUnreferenced]

/-- A document runs twice, one is switched off, one is missing, and one comment and one macro without a name are passed by. -/
theorem records_analyze_mixed :
    let provider := Provider.ofList [
      .ofContent "a" "\x7b\x7bgetvar::x\x7d\x7d\x7b\x7bsetvar::z::1\x7d\x7d\x7b\x7bgetvar::\x7d\x7d",
      { Document.ofContent "b" "\x7b\x7b// no\x7d\x7d\x7b\x7bgetvar::x\x7d\x7d\x7b\x7bsetvar::y::2\x7d\x7d" with
        enabled := false }]
    provider.Keyed ∧ (analyze provider ["b", "ghost", "a", "b"]).Records provider ["b", "ghost", "a", "b"] ∧
      (analyze provider ["b", "ghost", "a", "b"]).unresolved = ["x"] ∧
      (analyze provider ["b", "ghost", "a", "b"]).variableNamed? "x" = some ⟨[], [⟨"b", false⟩, ⟨"a", true⟩]⟩ := by
  intro provider
  exact ⟨Provider.keyed_ofList _, records_analyze (Provider.keyed_ofList _) _, by decide +kernel, by decide +kernel⟩

end Report

end PromptMacros
