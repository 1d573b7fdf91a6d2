import PromptMacros.Proofs.Analysis.LastWrite
import PromptMacros.Proofs.Analysis.Listing

/-!
# What an analysis does not look at

Two analyses of documents that run alike, whatever else the two stores hold. Of a document that runs only the flag and the
content count: a macro keeps two simulations with the same values so when both find its document with one flag
(`Simulation.SameValues.step`). What a macro sees is settled by the documents up to its own, so an order may go on in two ways
behind documents that run alike and what is said of them stays. With nothing behind them the reports differ at most in the ids
that they note, and these are the same where documents are kept under their own ids (`analyze_causal`); where they are not, the
reports may differ (`analyze_ne_misfiled`).
-/

namespace PromptMacros

/-! ## Values -/

namespace Simulation

/-- Two simulations have the same values and snapshots. They may have noted different documents for the variables. -/
structure SameValues (s t : Simulation) : Prop where
  snapshots : s.snapshots = t.snapshots
  state : s.state = t.state

variable {s t : Simulation} {p q : Provider}

theorem SameValues.refl (s : Simulation) : SameValues s s :=
  ⟨rfl, rfl⟩

/-- Setting a variable in documents with one flag. -/
theorem SameValues.set (h : SameValues s t) {d e : Document} (hen : d.enabled = e.enabled) (name : String)
    (value : Option String) : SameValues (s.set d name value) (t.set e name value) := by
  unfold Simulation.set
  dsimp only
  rw [hen]
  split
  · exact ⟨h.snapshots, congrArg (·.insert name value) h.state⟩
  · exact ⟨h.snapshots, h.state⟩

/-- Reading a variable, in documents of any kind. -/
theorem SameValues.get (h : SameValues s t) (d e : Document) (id : MacroId) (name : String) :
    SameValues (s.get d id name) (t.get e id name) := by
  have hvalue : s.value? name = t.value? name := by
    unfold value?
    rw [h.state]
  have hnoted : ∀ (u : Simulation) (f : Variable → Variable), (if name = "" then u else u.note name f).state = u.state := by
    intro u f
    split <;> rfl
  unfold Simulation.get
  dsimp only
  refine ⟨?_, ?_⟩
  · dsimp only
    rw [h.snapshots, hvalue]
  · dsimp only
    rw [hnoted, hnoted, h.state]

/-- A macro runs on two simulations in documents with one flag. -/
theorem SameValues.run (h : SameValues s t) {d e : Document} (hen : d.enabled = e.enabled) (m : Macro) :
    SameValues (s.run d m) (t.run e m) := by
  unfold Simulation.run
  split
  · exact h.set hen _ _
  · exact h.get _ _ _ _
  all_goals exact h

/-- A step keeps two simulations alike when its document is in neither store, or in both with one flag. -/
theorem SameValues.step (h : SameValues s t) {m : Macro}
    (hm : (p m.id.document).map Document.enabled = (q m.id.document).map Document.enabled) :
    SameValues (Simulation.step p s m) (Simulation.step q t m) := by
  unfold Simulation.step
  rcases hp : p m.id.document with _ | d
  · rw [hp] at hm
    rw [Option.map_eq_none_iff.mp hm.symm]
    exact h
  · rw [hp] at hm
    obtain ⟨e, he, hen⟩ := Option.map_eq_some_iff.mp hm.symm
    rw [he]
    exact h.run hen.symm m

/-- A flow keeps two simulations alike when each of its steps does. -/
theorem SameValues.simulateFrom (h : SameValues s t) {macros : List Macro}
    (hm : ∀ m ∈ macros, (p m.id.document).map Document.enabled = (q m.id.document).map Document.enabled) :
    SameValues (PromptMacros.simulateFrom p s macros) (PromptMacros.simulateFrom q t macros) := by
  induction macros generalizing s t with
  | nil => exact h
  | cons m macros ih =>
    obtain ⟨hstep, hrest⟩ := List.forall_mem_cons.mp hm
    exact ih (h.step hstep) hrest

end Simulation

namespace Provider

variable {ids : List String} {p q : Provider}

/-! ## Documents that run alike -/

/-- Documents that run alike have one flag. -/
theorem RunsAlike.map_enabled (h : p.RunsAlike ids q) {id : String} (hid : id ∈ ids) :
    (p id).map Document.enabled = (q id).map Document.enabled := by
  have hmap := congrArg (Option.map Prod.fst) (h id hid)
  rwa [Option.map_map, Option.map_map] at hmap

/-- Running documents that run alike gives the same values and snapshots. -/
theorem RunsAlike.sameValues (h : p.RunsAlike ids q) :
    Simulation.SameValues (simulate p (ids.flatMap p.macrosOf)) (simulate q (ids.flatMap q.macrosOf)) := by
  rw [h.sameContents.flatMap_macrosOf_eq]
  refine (Simulation.SameValues.refl {}).simulateFrom ?_
  intro m hm
  obtain ⟨id, hid, hm⟩ := List.mem_flatMap.mp hm
  rw [document_of_mem_macrosOf hm]
  exact h.map_enabled hid

/-- Stores agree on documents that run alike and have the same ids. -/
theorem RunsAlike.agreeOn (h : p.RunsAlike ids q) (hids : ∀ id ∈ ids, (p id).map Document.id = (q id).map Document.id) :
    AgreeOn ids p q := by
  intro id hid
  have hscript := h id hid
  have hown := hids id hid
  rcases hd : p id with _ | d
  · rw [hd] at hscript
    rw [Option.map_eq_none_iff.mp hscript.symm]
  · rw [hd] at hscript hown
    obtain ⟨e, he, hde⟩ := Option.map_eq_some_iff.mp hscript.symm
    obtain ⟨hen, hcontent⟩ := Prod.ext_iff.mp hde
    rw [he] at hown
    rw [he]
    exact congrArg some (Document.essence_eq_iff.mpr ⟨Option.some.inj hown, hen.symm, hcontent.symm⟩)

/-- Documents that run alike have the same ids where stores keep documents under their own ids. -/
theorem RunsAlike.map_id (h : p.RunsAlike ids q) (hp : p.Keyed) (hq : q.Keyed) {id : String} (hid : id ∈ ids) :
    (p id).map Document.id = (q id).map Document.id := by
  have hscript := h id hid
  rcases hd : p id with _ | d
  · rw [hd] at hscript
    rw [Option.map_eq_none_iff.mp hscript.symm]
  · rw [hd] at hscript
    obtain ⟨e, he, -⟩ := Option.map_eq_some_iff.mp hscript.symm
    rw [he, Option.map_some, Option.map_some, hp id d hd, hq id e he]

end Provider

/-! ## Reports -/

variable {ids : List String} {p q : Provider}

/-- A report has the macros of a document that the order lists. -/
theorem getElem?_macros_analyze {order : List String} {id : String} (hid : id ∈ order) :
    (analyze p order).macros[id]? = (p id).map fun d => Macro.ofContent id d.content := by
  rw [getElem?_macros_analyze_eq, if_pos hid]

/-- Reports on documents that run alike are the same but for the documents that their records have. -/
theorem Provider.RunsAlike.sameButRecords (h : p.RunsAlike ids q) : (analyze p ids).SameButRecords (analyze q ids) := by
  have hlisted : ∀ use name, (analyze q ids).listed use name = [] ↔ (analyze p ids).listed use name = [] := by
    intro use name
    rw [listed_analyze_eq_nil_iff, listed_analyze_eq_nil_iff]
    refine forall₂_congr fun id hid => ?_
    rw [h.sameContents.macrosOf_eq hid]
  refine ⟨sameNames_analyze hlisted, ?_, ?_, ?_⟩
  · rw [analyze_eq, analyze_eq]
    exact h.sameContents.ofOrder_eq.symm
  · rw [analyze_eq, analyze_eq]
    exact h.sameValues.snapshots.symm
  · rw [analyze_eq, analyze_eq]
    exact h.sameValues.state.symm

/-- Let two stores find documents that run alike under these ids. Whatever else they hold, and in whatever two ways the order goes
on behind the ids, the reports have the same macros and snapshots for these documents. When nothing follows they differ at most in
the documents that they note for variables; and not at all if the documents found have the same ids, as they have in stores that
keep documents under their own. -/
theorem analyze_causal (h : p.RunsAlike ids q) :
    (∀ others others' : List String, (ids ++ others).Nodup → (ids ++ others').Nodup →
      (∀ id ∈ ids, (analyze p (ids ++ others)).macros[id]? = (analyze q (ids ++ others')).macros[id]?) ∧
      ∀ id : MacroId, id.document ∈ ids →
        (analyze p (ids ++ others)).snapshots[id]? = (analyze q (ids ++ others')).snapshots[id]?) ∧
    (analyze p ids).SameButRecords (analyze q ids) ∧
    ((∀ id ∈ ids, (p id).map Document.id = (q id).map Document.id) → analyze p ids = analyze q ids) ∧
    (p.Keyed → q.Keyed → analyze p ids = analyze q ids) := by
  have hsame : (∀ id ∈ ids, (p id).map Document.id = (q id).map Document.id) → analyze p ids = analyze q ids :=
    fun hids => analyze_congr (h.agreeOn hids)
  refine ⟨fun others others' hothers hothers' => ⟨fun id hid => ?_, fun id hid => ?_⟩, h.sameButRecords, hsame, fun hp hq => ?_⟩
  · rw [getElem?_macros_analyze (List.mem_append_left others hid), getElem?_macros_analyze (List.mem_append_left others' hid)]
    exact h.map_ofContent hid
  · rw [getElem?_snapshots_analyze_append hothers hid, getElem?_snapshots_analyze_append hothers' hid,
      h.sameButRecords.snapshots]
  · exact hsame fun id hid => h.map_id hp hq hid

/-- A set and a list with documents of other names and roles, one of them disabled and one id unknown to both; behind them
the orders go on with documents that set what was read, and one of these stores has a document more. -/
theorem analyze_causal_apart :
    let a := Document.ofContent "a" "\x7b\x7bgetvar::x\x7d\x7d\x7b\x7bsetvar::x::1\x7d\x7d"
    let b := { Document.ofContent "b" "\x7b\x7bsetvar::x::2\x7d\x7d" with enabled := false }
    let c := Document.ofContent "c" "\x7b\x7bgetvar::x\x7d\x7d"
    let documents := DocumentSet.ofList [a, .ofContent "d" "\x7b\x7bsetvar::x::3\x7d\x7d", b, c]
    let docs := [{ c with name := "C", marker := true }, { a with role := "user" }, { b with systemPrompt := true }, b,
      .ofContent "e" "\x7b\x7bsetvar::x::4\x7d\x7d"]
    let ids := ["b", "ghost", "a", "c"]
    documents.provider.RunsAlike ids (.ofList docs) ∧ documents.provider.Keyed ∧ (Provider.ofList docs).Keyed ∧
      (ids ++ ["d"]).Nodup ∧ (ids ++ ["e"]).Nodup ∧
      (∀ id : MacroId, id.document ∈ ids → (analyze documents.provider (ids ++ ["d"])).snapshots[id]? =
        (analyze (.ofList docs) (ids ++ ["e"])).snapshots[id]?) ∧
      analyze documents.provider ids = analyze (.ofList docs) ids := by
  intro a b c documents docs ids
  have h : documents.provider.RunsAlike ids (.ofList docs) := by decide +kernel
  have hset : documents.provider.Keyed := Provider.keyed_of_indexed (DocumentSet.indexed_ofList _)
  have hlist : (Provider.ofList docs).Keyed := Provider.keyed_ofList docs
  have hd : (ids ++ ["d"]).Nodup := by decide
  have he : (ids ++ ["e"]).Nodup := by decide
  obtain ⟨hbehind, -, -, hsame⟩ := analyze_causal h
  exact ⟨h, hset, hlist, hd, he, (hbehind _ _ hd he).2, hsame hset hlist⟩

/-- Documents that run alike do not have the same report where a store keeps a document under another id than its own: two maps
find documents with one content and one flag under one key, and each report notes the id that its document has. -/
theorem analyze_ne_misfiled :
    let x := Document.ofContent "x" "\x7b\x7bsetvar::v::1\x7d\x7d"
    let y := Document.ofContent "y" "\x7b\x7bsetvar::v::1\x7d\x7d"
    let p := Provider.ofMap ((∅ : Std.ExtTreeMap String Document).insert "k" x)
    let q := Provider.ofMap ((∅ : Std.ExtTreeMap String Document).insert "k" y)
    ["k"].Nodup ∧ p.RunsAlike ["k"] q ∧ analyze p ["k"] ≠ analyze q ["k"] ∧
      (analyze p ["k"]).variableNamed? "v" = some ⟨[⟨"x", true⟩], []⟩ ∧
      (analyze q ["k"]).variableNamed? "v" = some ⟨[⟨"y", true⟩], []⟩ := by
  intro x y p q
  have hp : (analyze p ["k"]).variableNamed? "v" = some ⟨[⟨"x", true⟩], []⟩ := by decide +kernel
  have hq : (analyze q ["k"]).variableNamed? "v" = some ⟨[⟨"y", true⟩], []⟩ := by decide +kernel
  refine ⟨by decide, by decide +kernel, fun hsame => ?_, hp, hq⟩
  rw [hsame, hq] at hp
  exact absurd hp (by decide)

end PromptMacros
