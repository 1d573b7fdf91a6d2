import Mathlib.Data.List.Nodup
import PromptMacros.Document.Index
import PromptMacros.Proofs.Analysis.Flow

/-!
# Documents that vanish

A flow may be parsed from one store and run over what is left of it (`RemainsOf`): a set from which documents were removed, or a
map or a list of which some were kept (`remainsOf_remove`, `remainsOf_filter`, `remainsOf_sublist`). The macros of a document that
is gone do nothing, each on its own and so all of them (`simulateFrom_macrosOf_of_missing`), and the other documents have the macros
that were parsed. Over what is left an order of documents therefore runs as if it had been parsed there
(`simulateFrom_flatMap_remaining`), which makes the walk the analysis of those documents of the order that were parsed
(`simulate_remaining`).
-/

namespace PromptMacros

namespace Provider

variable {p q r : Provider}

/-! ## What is left of a store -/

/-- The first store is what is left of the second: under each id it finds the document that the second finds, or none. -/
def RemainsOf (q p : Provider) : Prop :=
  ∀ id, q id = none ∨ q id = p id

/-- What is left of what is left. -/
theorem RemainsOf.trans (h : q.RemainsOf p) (h' : r.RemainsOf q) : r.RemainsOf p := by
  intro id
  rcases h' id with hr | hr
  · exact .inl hr
  · rw [hr]
    exact h id

/-- A set from which a document was removed. -/
theorem remainsOf_remove {documents : DocumentSet} (h : documents.Indexed) (id : String) :
    (documents.remove id).2.provider.RemainsOf documents.provider := by
  intro other
  change (documents.remove id).2.get? other = none ∨ (documents.remove id).2.get? other = documents.get? other
  rw [h.get?_remove]
  split
  · exact .inl rfl
  · exact .inr rfl

/-- A map of which some documents were kept. -/
theorem remainsOf_filter (docs : Std.ExtTreeMap String Document) (keep : String → Document → Bool) :
    (ofMap (docs.filter keep)).RemainsOf (ofMap docs) := by
  intro id
  change (docs.filter keep)[id]? = none ∨ (docs.filter keep)[id]? = docs[id]?
  rw [Std.ExtTreeMap.getElem?_filter']
  cases docs[id]? with
  | none => exact .inl rfl
  | some d =>
    rw [Option.filter_some]
    split
    · exact .inr rfl
    · exact .inl rfl

/-- A list of which some documents were kept. No id may be repeated: with the first of two documents of one id gone the second is
found in its place. -/
theorem remainsOf_sublist {kept docs : List Document} (hnodup : (docs.map Document.id).Nodup) (h : kept.Sublist docs) :
    (ofList kept).RemainsOf (ofList docs) := by
  intro id
  cases hd : ofList kept id with
  | none => exact .inl rfl
  | some d =>
    have hid := List.find?_some hd
    have hmem : d ∈ docs := h.subset (List.mem_of_find?_eq_some hd)
    cases he : ofList docs id with
    | none => exact absurd hid (List.find?_eq_none.mp he d hmem)
    | some e =>
      have hide := List.find?_some he
      have hsame : d.id = e.id := (of_decide_eq_true hid).trans (of_decide_eq_true hide).symm
      exact .inr (congrArg some (List.inj_on_of_nodup_map hnodup hmem (List.mem_of_find?_eq_some he) hsame))

end Provider

/-! ## Running what was parsed -/

variable {p q : Provider}

/-- A macro whose document is gone does nothing. -/
theorem Simulation.step_of_missing {m : Macro} (h : q m.id.document = none) (s : Simulation) :
    Simulation.step q s m = s := by
  rw [Simulation.step, h]

/-- The macros of a document that is gone do nothing. -/
theorem simulateFrom_macrosOf_of_missing {id : String} (h : q id = none) (s : Simulation) :
    simulateFrom q s (p.macrosOf id) = s :=
  simulateFrom_eq_self_of_step fun _ hm =>
    Simulation.step_of_missing ((congrArg q (Provider.document_of_mem_macrosOf hm)).trans h) s

/-- Running the macros that a document had is running those that it has, if any is left. -/
theorem simulateFrom_macrosOf_remaining (h : q.RemainsOf p) (id : String) (s : Simulation) :
    simulateFrom q s (p.macrosOf id) = simulateFrom q s (q.macrosOf id) := by
  rcases h id with hq | hq
  · rw [simulateFrom_macrosOf_of_missing hq, simulateFrom_macrosOf_of_missing hq]
  · rw [Provider.macrosOf_eq_getD, Provider.macrosOf_eq_getD, hq]

/-- Running the macros that the documents of an order had is running those that they have. -/
theorem simulateFrom_flatMap_remaining (h : q.RemainsOf p) (order : List String) (s : Simulation) :
    simulateFrom q s (order.flatMap p.macrosOf) = simulateFrom q s (order.flatMap q.macrosOf) := by
  induction order generalizing s with
  | nil => rfl
  | cons id order ih =>
    rw [List.flatMap_cons, List.flatMap_cons, simulateFrom_append, simulateFrom_append, simulateFrom_macrosOf_remaining h, ih]

/-- Let the documents of one list be parsed from a store, and the flow of an order run over what is left of it. The snapshots, the
values at the end and the records of the variables are those of the analysis of what is left, over the ids of the order that were
listed for parsing. -/
theorem simulate_remaining (h : q.RemainsOf p) (listed order : List String) :
    let s := simulate q (flow order (ParsedMacros.ofOrder p listed))
    let r := analyze q (order.filter (· ∈ listed))
    s.snapshots = r.snapshots ∧ s.state = r.finalState ∧ s.usage = r.usage := by
  intro s r
  have hs : s = simulate q ((order.filter (· ∈ listed)).flatMap q.macrosOf) := by
    change simulate q (flow order (ParsedMacros.ofOrder p listed)) = _
    rw [flow_ofOrder_listed]
    exact simulateFrom_flatMap_remaining h _ {}
  have hr : r = Report.ofSimulation (ParsedMacros.ofOrder q (order.filter (· ∈ listed))) s := by
    rw [hs]
    exact analyze_eq q _
  rw [hr]
  exact ⟨rfl, rfl, rfl⟩

/-- A document that sets a variable and one that reads another are removed from their set after parsing. The order names them, runs
a document twice that is left, and names one that was not parsed and an id unknown to the set. -/
theorem simulate_remaining_removed :
    let documents := DocumentSet.ofList [
      .ofContent "a" "\x7b\x7bsetvar::x::1\x7d\x7d\x7b\x7bgetvar::y\x7d\x7d",
      .ofContent "b" "\x7b\x7bgetvar::x\x7d\x7d\x7b\x7bsetvar::y::2\x7d\x7d",
      .ofContent "c" "\x7b\x7bsetvar::x::3\x7d\x7d",
      .ofContent "d" "\x7b\x7bgetvar::z\x7d\x7d"]
    let left := ((documents.remove "a").2.remove "d").2
    let listed := ["b", "ghost", "a", "d", "b"]
    let order := ["a", "b", "ghost", "c", "d", "b"]
    let s := simulate left.provider (flow order (ParsedMacros.ofOrder documents.provider listed))
    let r := analyze left.provider ["a", "b", "ghost", "d", "b"]
    left.provider.RemainsOf documents.provider ∧
      s.snapshots = r.snapshots ∧ s.state = r.finalState ∧ s.usage = r.usage ∧
      s.usage.toList = [("x", ⟨[], [⟨"b", true⟩]⟩), ("y", ⟨[⟨"b", true⟩], []⟩)] := by
  intro documents left listed order s r
  have hindexed : documents.Indexed := DocumentSet.indexed_ofList _
  have h : left.provider.RemainsOf documents.provider :=
    (Provider.remainsOf_remove hindexed "a").trans (Provider.remainsOf_remove (hindexed.remove "a") "d")
  have hkept : order.filter (· ∈ listed) = ["a", "b", "ghost", "d", "b"] := by decide
  obtain ⟨hsnapshots, hstate, husage⟩ := simulate_remaining h listed order
  rw [hkept] at hsnapshots hstate husage
  exact ⟨h, hsnapshots, hstate, husage, by decide +kernel⟩

end PromptMacros
