import PromptMacros.Proofs.Analysis.Listing
import PromptMacros.Proofs.Analysis.Written

/-!
# Switching documents on and off

What the flags of documents may change in a report. Two stores with the same texts have the same macros, note the same documents in
the same places, and take snapshots at the same macros, whatever the flags (`analyze_switched`). A value is another only if some
document that is switched sets the variable: a macro that sets no variable `name`, or whose document keeps its flag, writes to
`name` in one store what it writes in the other (`Provider.SameTexts.writes_iff`).
-/

namespace PromptMacros

/-! ## Stores with the same texts -/

/-- What a document is without its flag, as far as an analysis looks at it. -/
def Document.inscription (d : Document) : String × String :=
  (d.id, d.content)

namespace Provider

/-- Under each of these ids both providers find documents with one id and one content, or none. Their flags may differ. -/
def SameTexts (ids : List String) (p q : Provider) : Prop :=
  ∀ id ∈ ids, (p id).map Document.inscription = (q id).map Document.inscription

instance (ids : List String) (p q : Provider) : Decidable (p.SameTexts ids q) :=
  inferInstanceAs (Decidable (∀ id ∈ ids, _))

/-- The document with this id is enabled in one of the providers and disabled in the other. -/
def Switched (p q : Provider) (id : String) : Prop :=
  (p id).map Document.enabled ≠ (q id).map Document.enabled

instance (p q : Provider) (id : String) : Decidable (Switched p q id) :=
  inferInstanceAs (Decidable (_ ≠ _))

variable {ids : List String} {p q : Provider} {name : String}

/-- Documents with the same texts have the same contents. -/
theorem SameTexts.sameContents (h : p.SameTexts ids q) : p.SameContents ids q := by
  intro id hid
  have hmap := congrArg (Option.map Prod.snd) (h id hid)
  rwa [Option.map_map, Option.map_map] at hmap

/-- Documents with the same texts are noted in the same places. -/
theorem SameTexts.map_document_users (h : p.SameTexts ids q) (use : Use) (name : String) :
    (ids.filterMap (p.user? use name)).map Occurrence.document =
      (ids.filterMap (q.user? use name)).map Occurrence.document := by
  rw [List.map_filterMap, List.map_filterMap]
  refine List.filterMap_congr fun id hid => ?_
  have hown := congrArg (Option.map Prod.fst) (h id hid)
  rw [Option.map_map, Option.map_map] at hown
  unfold user?
  rw [h.sameContents.macrosOf_eq hid]
  split
  · rw [Option.map_map, Option.map_map]
    exact hown
  · rfl

/-- A macro writes the same to a variable in both stores, unless it sets the variable in a document that is switched. -/
theorem SameTexts.writes_iff {m : Macro} (h : Switched p q m.id.document → m.uses .definition name = false)
    (value : Option String) : m.Writes q name value ↔ m.Writes p name value := by
  refine and_congr_right fun hkind => ?_
  have huse : m.uses .definition name = true := by simp [Macro.uses, Macro.varName?, Kind.isSetVar, Kind.varName?, hkind]
  have hflag : (p m.id.document).map Document.enabled = (q m.id.document).map Document.enabled := by
    by_contra hne
    rw [h hne] at huse
    cases huse
  have hwrites : ∀ r : Provider, (∃ d, r m.id.document = some d ∧ d.enabled = true) ↔
      (r m.id.document).map Document.enabled = some true := fun r => Option.map_eq_some_iff.symm
  rw [hwrites, hwrites, hflag]

end Provider

/-! ## Reports -/

/-- The documents that set a variable and those that read it, without their flags. -/
def Variable.documents (v : Variable) : List String × List String :=
  (v.definedIn.map Occurrence.document, v.referencedIn.map Occurrence.document)

/-- Two reports differ at most in the flags of the documents that they note and in values. -/
structure Report.SameButFlags (r r' : Report) : Prop extends r.SameNames r' where
  macros : r'.macros = r.macros
  /-- The same documents are noted for each variable, in the same places. -/
  records : ∀ name, (r'.variableNamed? name).map Variable.documents = (r.variableNamed? name).map Variable.documents
  counts : r'.counts = r.counts
  /-- Snapshots are taken at the same macros. -/
  read : ∀ id, r'.hasSnapshot id = r.hasSnapshot id

section Reports

variable {order : List String} {p q : Provider}

/-- Reports on stores with the same texts list the same documents for each variable. -/
theorem map_document_listed_analyze (h : p.SameTexts order q) (use : Use) (name : String) :
    ((analyze q order).listed use name).map Occurrence.document =
      ((analyze p order).listed use name).map Occurrence.document := by
  rw [listed_analyze, listed_analyze]
  exact Occurrence.map_document_noteAll (h.map_document_users use name).symm rfl

/-- Reports on stores with the same texts differ at most in flags and values. -/
theorem sameButFlags_analyze (h : p.SameTexts order q) : (analyze p order).SameButFlags (analyze q order) := by
  have hlisted := map_document_listed_analyze h
  have hnil : ∀ use name, (analyze q order).listed use name = [] ↔ (analyze p order).listed use name = [] := by
    intro use name
    rw [← List.map_eq_nil_iff (f := Occurrence.document), hlisted, List.map_eq_nil_iff]
  have hnames := sameNames_analyze hnil
  refine ⟨hnames, ?_, fun name => ?_, ?_, fun id => ?_⟩
  · rw [analyze_eq, analyze_eq]
    exact h.sameContents.ofOrder_eq.symm
  · rcases hnames.variableNamed?_cases name with ⟨hr, hr'⟩ | ⟨hr, hr'⟩
    · rw [hr, hr']
    · rw [hr, hr']
      exact congrArg some (Prod.ext (hlisted .definition name) (hlisted .reference name))
  · rw [Report.counts_eq, Report.counts_eq, hnames.unresolved, hnames.unreferenced]
  · rw [Bool.eq_iff_iff, hasSnapshot_analyze_iff, hasSnapshot_analyze_iff]
    refine and_congr_right fun hid => ?_
    rw [h.sameContents.macrosOf_eq hid]

/-- A member of a list stands somewhere in it for the last time. -/
theorem exists_last_of_mem {α : Type} {a : α} {l : List α} (h : a ∈ l) :
    ∃ before after, l = before ++ a :: after ∧ a ∉ after := by
  obtain ⟨xs, ys, hl, ha⟩ := List.eq_append_cons_of_mem (List.mem_reverse.mpr h)
  refine ⟨ys.reverse, xs.reverse, ?_, fun hx => ha (List.mem_reverse.mp hx)⟩
  rw [← List.reverse_reverse l, hl]
  simp

/-- A variable that no switched document sets has the same values in both reports: where it is read, and at the end. -/
theorem values_analyze_switched (h : p.SameTexts order q) {name : String}
    (hname : ∀ id ∈ order, p.Switched q id → ∀ m ∈ p.macrosOf id, m.uses .definition name = false) :
    (∀ m ∈ order.flatMap p.macrosOf, m.kind = .getVar name →
      (analyze q order).snapshots[m.id]? = (analyze p order).snapshots[m.id]?) ∧
    (analyze q order).finalState[name]? = (analyze p order).finalState[name]? := by
  have hwritten : ∀ macros, (∀ m ∈ macros, m ∈ order.flatMap p.macrosOf) →
      written q macros name = written p macros name := by
    intro macros hmacros
    refine written_congr fun m hm => Provider.SameTexts.writes_iff fun hswitched => ?_
    obtain ⟨id, hid, hm⟩ := List.mem_flatMap.mp (hmacros m hm)
    rw [Provider.document_of_mem_macrosOf hm] at hswitched
    exact hname id hid hswitched m hm
  have hflow := h.sameContents.flatMap_macrosOf_eq
  refine ⟨fun m hm hkind => ?_, ?_⟩
  · -- The order may list a document twice, and the snapshot is that of the last time the macro runs.
    obtain ⟨before, after, hsplit, hlast⟩ := exists_last_of_mem hm
    have hafter : ∀ x ∈ after, x.id ≠ m.id := by
      intro x hx hid
      have hxm : x ∈ order.flatMap p.macrosOf := by simp [hsplit, hx]
      exact hlast (Provider.eq_of_id_eq hxm hm hid ▸ hx)
    have hthere : ∀ r : Provider, m ∈ order.flatMap r.macrosOf → (r m.id.document).isSome := by
      intro r hr
      obtain ⟨id, -, hr⟩ := List.mem_flatMap.mp hr
      rw [Provider.document_of_mem_macrosOf hr]
      exact Provider.isSome_of_mem_macrosOf hr
    rw [analyze_eq, analyze_eq, ← hflow, hsplit]
    refine (getElem?_snapshots_simulate (hthere q (hflow ▸ hm)) hkind hafter).trans
      (Eq.trans ?_ (getElem?_snapshots_simulate (hthere p hm) hkind hafter).symm)
    change some (written q before name).join = some (written p before name).join
    rw [hwritten before fun x hx => by simp [hsplit, hx]]
  · rw [getElem?_finalState_analyze, getElem?_finalState_analyze, ← hflow]
    exact hwritten _ fun m hm => hm

/-- Two stores with the same texts, some of whose documents are enabled in one and disabled in the other, have reports that differ
at most in flags and values; and a variable that none of these documents sets has the same values, wherever it is read and at the
end. -/
theorem analyze_switched (h : p.SameTexts order q) :
    (analyze p order).SameButFlags (analyze q order) ∧
      ∀ name, (∀ id ∈ order, p.Switched q id → ∀ m ∈ p.macrosOf id, m.uses .definition name = false) →
        (∀ m ∈ order.flatMap p.macrosOf, m.kind = .getVar name →
          (analyze q order).snapshots[m.id]? = (analyze p order).snapshots[m.id]?) ∧
        (analyze q order).finalState[name]? = (analyze p order).finalState[name]? :=
  ⟨sameButFlags_analyze h, fun _ hname => values_analyze_switched h hname⟩

/-- Two documents are switched, one of them twice in the order, and a third sets the variable that is read between them: it keeps
its values, while the other variable loses them. -/
theorem analyze_switched_between :
    let a := Document.ofContent "a" "\x7b\x7bsetvar::x::1\x7d\x7d\x7b\x7bgetvar::y\x7d\x7d"
    let b := Document.ofContent "b" "\x7b\x7bgetvar::x\x7d\x7d\x7b\x7bsetvar::y::2\x7d\x7d"
    let c := Document.ofContent "c" "\x7b\x7bgetvar::y\x7d\x7d"
    let p := Provider.ofList [a, b, { c with enabled := false }]
    let q := Provider.ofList [c, { a with enabled := false }, b]
    let order := ["a", "c", "ghost", "b", "a"]
    p.SameTexts order q ∧ p.Switched q "a" ∧ p.Switched q "c" ∧
      (analyze p order).SameButFlags (analyze q order) ∧
      (analyze q order).snapshots[MacroId.mk "a" 16]? = (analyze p order).snapshots[MacroId.mk "a" 16]? ∧
      (analyze q order).finalState["y"]? = (analyze p order).finalState["y"]? ∧
      (analyze p order).finalState["x"]? = some (some "1") ∧ (analyze q order).finalState["x"]? = none := by
  intro a b c p q order
  have h : p.SameTexts order q := by decide +kernel
  have hy : ∀ id ∈ order, p.Switched q id → ∀ m ∈ p.macrosOf id, m.uses .definition "y" = false := by decide +kernel
  have hread : ∀ m ∈ order.flatMap p.macrosOf, m.kind = .getVar "y" →
      (analyze q order).snapshots[m.id]? = (analyze p order).snapshots[m.id]? := ((analyze_switched h).2 "y" hy).1
  refine ⟨h, by decide +kernel, by decide +kernel, (analyze_switched h).1, ?_, ((analyze_switched h).2 "y" hy).2,
    by decide +kernel, by decide +kernel⟩
  exact hread (Macro.ofToken "a" (Token.ofBody 16 "getvar::y".toList)) (by decide +kernel) (by decide +kernel)

end Reports

end PromptMacros
