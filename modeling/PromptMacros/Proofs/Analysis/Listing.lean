import PromptMacros.Proofs.Analysis.Records

/-!
# The documents listed for a variable

What a report lists for a variable is read off the order: the documents with a macro that uses the variable are noted one after
another (`listed_analyze`), whatever store they come from. So a list is empty exactly when no macro of the order uses the variable
so (`listed_analyze_eq_nil_iff`). Which names a report has, and which it calls unresolved or unreferenced, depends on no more than
which lists are empty (`sameNames_analyze`).
-/

namespace PromptMacros

/-! ## Noting documents in turn -/

namespace Occurrence

/-- Notes documents at the end of a list, one after another. -/
def noteAll (noted list : List Occurrence) : List Occurrence :=
  noted.foldl (fun list o => o.noteIn list) list

theorem noteAll_append (xs ys list : List Occurrence) : noteAll (xs ++ ys) list = noteAll ys (noteAll xs list) :=
  List.foldl_append

/-- Which documents a list has decides what noting one more does to them. -/
theorem map_document_noteIn (o : Occurrence) (list : List Occurrence) :
    (o.noteIn list).map document =
      if o.document ∈ list.map document then list.map document else list.map document ++ [o.document] := by
  split
  · next h =>
    obtain ⟨p, hp, hdoc⟩ := List.mem_map.mp h
    rw [noteIn_of_mem hp hdoc]
  · next h =>
    rw [noteIn_of_forall_ne fun p hp hdoc => h (List.mem_map.mpr ⟨p, hp, hdoc⟩), List.map_append, List.map_singleton]

/-- Lists of the same documents, noted behind lists of the same documents, give lists of the same documents. -/
theorem map_document_noteAll {xs ys list list' : List Occurrence} (h : xs.map document = ys.map document)
    (hlist : list.map document = list'.map document) :
    (noteAll xs list).map document = (noteAll ys list').map document := by
  induction xs generalizing ys list list' with
  | nil =>
    obtain rfl := List.map_eq_nil_iff.mp h.symm
    exact hlist
  | cons x xs ih =>
    obtain ⟨y, ys, rfl, hy, hys⟩ := List.map_eq_cons_iff.mp h.symm
    change (noteAll xs (x.noteIn list)).map document = (noteAll ys (y.noteIn list')).map document
    refine ih hys.symm ?_
    rw [map_document_noteIn, map_document_noteIn, hlist, hy]

/-- A list in which something was noted is not empty. -/
theorem noteAll_eq_nil_iff {xs list : List Occurrence} : noteAll xs list = [] ↔ xs = [] ∧ list = [] := by
  induction xs generalizing list with
  | nil => simp [noteAll]
  | cons x xs ih =>
    have hx : x.noteIn list ≠ [] := by
      unfold noteIn
      split
      · next h => rintro rfl; simp at h
      · simp
    exact ih.trans (by simp [hx])

/-- Documents that differ from one another and from those of a list are noted at its end as they come. -/
theorem noteAll_eq_append {xs list : List Occurrence} (h : ((list ++ xs).map document).Nodup) :
    noteAll xs list = list ++ xs := by
  induction xs generalizing list with
  | nil => simp [noteAll]
  | cons x xs ih =>
    have hx : ∀ p ∈ list, p.document ≠ x.document := by
      rw [List.map_append, List.map_cons] at h
      intro p hp
      exact (List.nodup_append.mp h).2.2 _ (List.mem_map_of_mem hp) _ List.mem_cons_self
    change noteAll xs (x.noteIn list) = _
    rw [noteIn_of_forall_ne hx, ih (by simpa using h), List.append_assoc, List.singleton_append]

/-- Noting a document does not depend on how a list is ordered. -/
theorem noteIn_perm {list list' : List Occurrence} (h : list.Perm list') (o : Occurrence) :
    (o.noteIn list).Perm (o.noteIn list') := by
  unfold noteIn
  rw [h.any_eq]
  split
  · exact h
  · exact h.append_right [o]

theorem noteAll_perm {list list' : List Occurrence} (h : list.Perm list') (xs : List Occurrence) :
    (noteAll xs list).Perm (noteAll xs list') := by
  induction xs generalizing list list' with
  | nil => exact h
  | cons x xs ih => exact ih (noteIn_perm h x)

/-- It does not matter which of two documents is noted first, but for their places; one document is to have one flag. -/
theorem noteIn_noteIn_perm {o p : Occurrence} (h : o.document = p.document → o = p) (list : List Occurrence) :
    (o.noteIn (p.noteIn list)).Perm (p.noteIn (o.noteIn list)) := by
  by_cases hop : o.document = p.document
  · rw [h hop]
  · have hpo : ¬p.document = o.document := fun he => hop he.symm
    unfold noteIn
    by_cases ho : list.any fun x => x.document = o.document
    · by_cases hp : list.any fun x => x.document = p.document
      · rw [if_pos hp, if_pos ho, if_pos hp]
      · rw [if_neg hp, if_pos ho, if_neg hp, List.any_append, ho, Bool.true_or, if_pos rfl]
    · by_cases hp : list.any fun x => x.document = p.document
      · rw [if_pos hp, if_neg ho, List.any_append, hp, Bool.true_or, if_pos rfl]
      · rw [if_neg hp, if_neg ho, if_neg (by simpa [hpo] using ho), if_neg (by simpa [hop] using hp),
          List.append_assoc, List.append_assoc]
        exact (List.Perm.swap o p []).append_left list

end Occurrence

/-! ## Noting the documents of an order -/

/-- The document with this id as it is noted, if a macro of it uses the variable so. -/
def Provider.user? (provider : Provider) (use : Use) (name id : String) : Option Occurrence :=
  if (provider.macrosOf id).any (Macro.uses use name) then (provider id).map Document.occurrence else none

/-- The documents that a report lists for a variable. -/
def Report.listed (r : Report) (use : Use) (name : String) : List Occurrence :=
  (r.usage.getD name {}).listed use

variable {provider : Provider} {order : List String} {use : Use} {name : String}

/-- A document is noted exactly when a macro of it uses the variable so. -/
theorem Provider.user?_eq_none_iff {id : String} :
    provider.user? use name id = none ↔ ∀ m ∈ provider.macrosOf id, m.uses use name = false := by
  unfold user?
  split
  · next h =>
    obtain ⟨m, hm, huse⟩ := List.any_eq_true.mp h
    have hsome := isSome_of_mem_macrosOf hm
    constructor
    · intro hnone
      rw [Option.map_eq_none_iff.mp hnone] at hsome
      cases hsome
    · intro hall
      rw [hall m hm] at huse
      cases huse
  · next h => simpa using h

/-- A document is noted under its id, where documents are kept under their own ids. -/
theorem Provider.document_of_user? (hp : provider.Keyed) {id : String} {o : Occurrence}
    (h : provider.user? use name id = some o) : o.document = id := by
  unfold user? at h
  split at h
  · obtain ⟨d, hd, rfl⟩ := Option.map_eq_some_iff.mp h
    exact hp id d hd
  · cases h

/-- Running the documents of an order notes those with a macro that uses the variable so, one after another. -/
theorem Simulation.listed_simulateFrom_flatMap (s : Simulation) (order : List String) :
    (simulateFrom provider s (order.flatMap provider.macrosOf)).listed use name =
      Occurrence.noteAll (order.filterMap (provider.user? use name)) (s.listed use name) := by
  induction order generalizing s with
  | nil => rfl
  | cons id order ih =>
    rw [List.flatMap_cons, simulateFrom_append, ih, List.filterMap_cons]
    unfold Provider.user?
    cases hd : provider id with
    | none =>
      have hmacros : provider.macrosOf id = [] := by rw [Provider.macrosOf, hd]
      rw [hmacros]
      rfl
    | some d =>
      have hown : ∀ m ∈ provider.macrosOf id, provider m.id.document = some d := by
        intro m hm
        rw [Provider.document_of_mem_macrosOf hm, hd]
      rw [Simulation.listed_simulateFrom hown]
      cases (provider.macrosOf id).any (Macro.uses use name) <;> rfl

/-- A report lists the documents of the order that use the variable so, each where it is first noted. -/
theorem listed_analyze (provider : Provider) (order : List String) (use : Use) (name : String) :
    (analyze provider order).listed use name = Occurrence.noteAll (order.filterMap (provider.user? use name)) [] := by
  have hlisted : (simulate provider (order.flatMap provider.macrosOf)).listed use name =
      Occurrence.noteAll (order.filterMap (provider.user? use name)) (Simulation.listed {} use name) :=
    Simulation.listed_simulateFrom_flatMap {} order
  have hempty : Simulation.listed {} use name = [] := by
    unfold Simulation.listed
    rw [Std.ExtTreeMap.getD_empty]
    cases use <;> rfl
  rw [hempty] at hlisted
  rw [analyze_eq]
  exact hlisted

/-- A report lists no document for a variable exactly when no macro of the order uses it so. -/
theorem listed_analyze_eq_nil_iff :
    (analyze provider order).listed use name = [] ↔ ∀ id ∈ order, ∀ m ∈ provider.macrosOf id, m.uses use name = false := by
  rw [listed_analyze, Occurrence.noteAll_eq_nil_iff, and_iff_left rfl, List.filterMap_eq_nil_iff]
  exact forall₂_congr fun id _ => Provider.user?_eq_none_iff

/-- In a store that keeps documents under their own ids, each document of an order without repeats is noted as it comes. -/
theorem listed_analyze_of_nodup (hp : provider.Keyed) (h : order.Nodup) (use : Use) (name : String) :
    (analyze provider order).listed use name = order.filterMap (provider.user? use name) := by
  rw [listed_analyze, Occurrence.noteAll_eq_append, List.nil_append]
  rw [List.nil_append, List.map_filterMap]
  refine List.Pairwise.filterMap _ ?_ h
  intro id id' hne document hid document' hid'
  obtain ⟨o, ho, rfl⟩ := Option.map_eq_some_iff.mp hid
  obtain ⟨o', ho', rfl⟩ := Option.map_eq_some_iff.mp hid'
  rwa [Provider.document_of_user? hp ho, Provider.document_of_user? hp ho']

/-! ## What is said of a variable -/

/-- What a report says of a variable that it knows are the documents that it lists. -/
theorem Report.variableNamed?_eq (r : Report) (name : String) :
    r.variableNamed? name =
      if r.knows name then some ⟨r.listed .definition name, r.listed .reference name⟩ else none := by
  unfold variableNamed? knows listed
  rw [Std.ExtTreeMap.contains_eq_isSome_getElem?, Std.ExtTreeMap.getD_eq_getD_getElem?]
  cases r.usage[name]? <;> rfl

/-- A variable of which documents are listed is known. -/
theorem Report.knows_of_listed_ne_nil {r : Report} (h : r.listed use name ≠ []) : r.knows name = true := by
  unfold listed at h
  unfold knows
  rw [Std.ExtTreeMap.contains_eq_isSome_getElem?]
  rw [Std.ExtTreeMap.getD_eq_getD_getElem?] at h
  cases hv : r.usage[name]? with
  | some v => rfl
  | none =>
    rw [hv] at h
    cases use <;> exact absurd rfl h

/-- A variable is used by a macro of the order exactly when documents are listed for it. -/
theorem knows_analyze_iff_listed :
    (analyze provider order).knows name = true ↔ ∃ use, (analyze provider order).listed use name ≠ [] := by
  constructor
  · intro h
    obtain ⟨id, hid, m, hm, hname⟩ := knows_analyze_iff.mp h
    obtain ⟨use, huse⟩ := Macro.exists_uses_iff.mpr hname
    refine ⟨use, fun hnil => ?_⟩
    rw [listed_analyze_eq_nil_iff.mp hnil id hid m hm] at huse
    cases huse
  · rintro ⟨use, h⟩
    exact Report.knows_of_listed_ne_nil h

/-- The names of which something holds, told from the documents listed. -/
theorem Report.mem_namesWhere_usage_iff {r : Report} {p : Variable → Bool} (hp : p {} = false) :
    name ∈ namesWhere r.usage p ↔ p ⟨r.listed .definition name, r.listed .reference name⟩ = true := by
  have hv := r.variableNamed?_eq name
  rw [mem_namesWhere_iff]
  constructor
  · rintro ⟨v, hname, h⟩
    rw [variableNamed?, hname, if_pos (knows_of_variableNamed? hname)] at hv
    rwa [← Option.some.inj hv]
  · intro h
    have hknown : r.knows name = true := by
      by_contra hunknown
      have hnil : ∀ use, r.listed use name = [] := fun use => by
        by_contra hne
        exact hunknown (knows_of_listed_ne_nil hne)
      rw [hnil, hnil, hp] at h
      cases h
    rw [if_pos hknown] at hv
    exact ⟨_, hv, h⟩

/-- The unresolved names are those for which documents that read are listed, and none that set. -/
theorem mem_unresolved_analyze_iff :
    name ∈ (analyze provider order).unresolved ↔
      (analyze provider order).listed .definition name = [] ∧ (analyze provider order).listed .reference name ≠ [] := by
  refine (Report.mem_namesWhere_usage_iff (r := analyze provider order) rfl).trans ?_
  simp [Variable.isUnresolved]

/-- The unreferenced names are those for which documents that set are listed, and none that read. -/
theorem Report.mem_unreferenced_iff {r : Report} :
    name ∈ r.unreferenced ↔ r.listed .definition name ≠ [] ∧ r.listed .reference name = [] := by
  refine (mem_namesWhere_usage_iff rfl).trans ?_
  simp [Variable.isUnreferenced]

/-- Two reports have the same names, and call the same ones unresolved and unreferenced. -/
structure Report.SameNames (r r' : Report) : Prop where
  names : r'.variableNames = r.variableNames
  unresolved : r'.unresolved = r.unresolved
  unreferenced : r'.unreferenced = r.unreferenced

/-- Two reports are the same but for the documents that the records of their variables have. -/
structure Report.SameButRecords (r r' : Report) : Prop extends r.SameNames r' where
  macros : r'.macros = r.macros
  snapshots : r'.snapshots = r.snapshots
  finalState : r'.finalState = r.finalState

/-- Reports with the same names have a record for the same variables, each of the documents that it lists. -/
theorem Report.SameNames.variableNamed?_cases {r r' : Report} (h : r.SameNames r') (name : String) :
    r.variableNamed? name = none ∧ r'.variableNamed? name = none ∨
      r.variableNamed? name = some ⟨r.listed .definition name, r.listed .reference name⟩ ∧
        r'.variableNamed? name = some ⟨r'.listed .definition name, r'.listed .reference name⟩ := by
  rw [variableNamed?_eq, variableNamed?_eq, knows_eq_of_variableNames_eq h.names]
  split
  · exact Or.inr ⟨rfl, rfl⟩
  · exact Or.inl ⟨rfl, rfl⟩

/-- Two analyses that list documents for the same variables have the same names. -/
theorem sameNames_analyze {p q : Provider} {order order' : List String}
    (h : ∀ use name, (analyze q order').listed use name = [] ↔ (analyze p order).listed use name = []) :
    (analyze p order).SameNames (analyze q order') := by
  refine ⟨eq_of_pairwise_lt (Report.pairwise_variableNames _) (Report.pairwise_variableNames _) fun name => ?_,
    eq_of_pairwise_lt (pairwise_namesWhere _ _) (pairwise_namesWhere _ _) fun name => ?_,
    eq_of_pairwise_lt (pairwise_namesWhere _ _) (pairwise_namesWhere _ _) fun name => ?_⟩
  · rw [mem_variableNames_iff_knows, mem_variableNames_iff_knows, knows_analyze_iff_listed, knows_analyze_iff_listed]
    exact exists_congr fun use => not_congr (h use name)
  · exact mem_unresolved_analyze_iff.trans
      ((and_congr (h .definition name) (not_congr (h .reference name))).trans mem_unresolved_analyze_iff.symm)
  · exact Report.mem_unreferenced_iff.trans
      ((and_congr (not_congr (h .definition name)) (h .reference name)).trans Report.mem_unreferenced_iff.symm)

end PromptMacros
