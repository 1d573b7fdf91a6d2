import PromptMacros.Proofs.Analysis.Listing
import PromptMacros.Proofs.Analysis.Written

/-!
# A copy behind its original

A copy has the macros of its original under an id of its own, so it writes what the original just wrote (`written_copy`), and
nothing else in the analysis of an order changes when it stands right behind the original (`withCopy_analyze`): the copy is noted
behind the original, and its macros see what those of the original see unless the original has written the variable in between.
-/

namespace PromptMacros

/-- The macro in another document, at the same position. -/
def Macro.inDocument (document : String) (m : Macro) : Macro :=
  { m with id := ⟨document, m.id.offset⟩ }

/-- An identity is told by its document and its position. -/
theorem MacroId.eq_mk_iff {id : MacroId} {document : String} {offset : Nat} :
    id = ⟨document, offset⟩ ↔ id.document = document ∧ id.offset = offset := by
  cases id
  exact MacroId.mk.injEq .. ▸ Iff.rfl

/-- Two documents of one content have the same macros, each in its document. -/
theorem Macro.ofContent_eq_map_inDocument (document other content : String) :
    ofContent document content = (ofContent other content).map (inDocument document) := by
  rw [ofContent, ofContent, List.map_map]
  rfl

/-- The provider has the document `d` and a copy `c` of it, with its content and its flag. -/
structure Provider.HasCopy (provider : Provider) (d c : Document) : Prop where
  original : provider d.id = some d
  copy : provider c.id = some c
  content : c.content = d.content
  enabled : c.enabled = d.enabled

/-- The documents of a list, and behind the entry of a document one of its copy with the flag of the document. -/
def Occurrence.withCopy (d : Document) (copy : String) (list : List Occurrence) : List Occurrence :=
  list.flatMap fun o => if o.document = d.id then [o, ⟨copy, d.enabled⟩] else [o]

/-- The record of a variable with a copy noted wherever the document is. -/
def Variable.withCopy (d : Document) (copy : String) (v : Variable) : Variable where
  definedIn := Occurrence.withCopy d copy v.definedIn
  referencedIn := Occurrence.withCopy d copy v.referencedIn

/-- `r'` is what `r` becomes when a copy of the document runs right behind the document. -/
structure Report.WithCopy (d : Document) (copy : String) (r r' : Report) : Prop extends r.SameNames r' where
  finalState : r'.finalState = r.finalState
  /-- The macros of all other documents see what they saw. -/
  snapshots : ∀ id : MacroId, id.document ≠ copy → r'.snapshots[id]? = r.snapshots[id]?
  /-- Where the document is noted, its copy is noted right behind it. -/
  records : ∀ name, r'.variableNamed? name = (r.variableNamed? name).map (Variable.withCopy d copy)
  /-- The copy has the macros of the document. -/
  macros : r'.macros = r.macros.insert copy ((r.macrosOf d.id).map (Macro.inDocument copy))
  /-- Snapshots of the copy are taken at the places where those of the document are. -/
  read : ∀ offset, r'.hasSnapshot ⟨copy, offset⟩ = r.hasSnapshot ⟨d.id, offset⟩
  /-- A macro of the copy sees what that of the document sees, unless the document is enabled and sets the variable. -/
  seen : ∀ m ∈ r.macrosOf d.id, ∀ name, m.kind = .getVar name →
    (d.enabled = true → ∀ n ∈ r.macrosOf d.id, n.uses .definition name = false) →
    r'.snapshots[MacroId.mk copy m.id.offset]? = r.snapshots[m.id]?

/-! ## Helpers: the lists -/

/-- Where a document is not in a list, its copy is not put in. -/
theorem Occurrence.withCopy_of_forall_ne {d : Document} {copy : String} {list : List Occurrence}
    (h : ∀ o ∈ list, o.document ≠ d.id) : withCopy d copy list = list := by
  induction list with
  | nil => rfl
  | cons o list ih =>
    obtain ⟨ho, hlist⟩ := List.forall_mem_cons.mp h
    rw [withCopy, List.flatMap_cons, if_neg ho]
    exact congrArg (o :: ·) (ih hlist)

theorem Occurrence.withCopy_append (d : Document) (copy : String) (xs ys : List Occurrence) :
    withCopy d copy (xs ++ ys) = withCopy d copy xs ++ withCopy d copy ys :=
  List.flatMap_append

/-- A list with copies in it is empty only when the list is. -/
theorem Occurrence.withCopy_eq_nil_iff {d : Document} {copy : String} {list : List Occurrence} :
    withCopy d copy list = [] ↔ list = [] := by
  cases list with
  | nil => simp [withCopy]
  | cons o list =>
    by_cases ho : o.document = d.id <;> simp [withCopy, ho]

section Copy

variable {provider : Provider} {before after : List String} {d c : Document} {use : Use} {name : String}

/-- The copy has the macros of its original. -/
theorem macrosOf_copy (hcopy : provider.HasCopy d c) :
    provider.macrosOf c.id = (provider.macrosOf d.id).map (Macro.inDocument c.id) := by
  unfold Provider.macrosOf
  rw [hcopy.original, hcopy.copy]
  dsimp only
  rw [hcopy.content]
  exact Macro.ofContent_eq_map_inDocument c.id d.id d.content

/-- The macros of a copy with the flag of its original write what those of the original write. -/
theorem written_inDocument (hcopy : provider.HasCopy d c)
    {macros : List Macro} (hmacros : ∀ m ∈ macros, m.id.document = d.id) :
    written provider (macros.map (Macro.inDocument c.id)) name = written provider macros name := by
  refine written_map_of_kind_eq (fun _ _ => rfl) fun m hm => ?_
  change (provider c.id).map Document.enabled = _
  rw [hmacros m hm, hcopy.original, hcopy.copy, Option.map_some, Option.map_some, hcopy.enabled]

/-- Running the copy right behind its original writes what the original wrote. -/
theorem written_copy (hcopy : provider.HasCopy d c) (before : List String) (name : String) :
    written provider ((before ++ [d.id, c.id]).flatMap provider.macrosOf) name =
      written provider ((before ++ [d.id]).flatMap provider.macrosOf) name := by
  have hown : ∀ m ∈ provider.macrosOf d.id, m.id.document = d.id := fun m hm => Provider.document_of_mem_macrosOf hm
  simp only [List.flatMap_append, List.flatMap_cons, List.flatMap_nil, List.append_nil, written_append,
    macrosOf_copy hcopy, written_inDocument hcopy hown]
  cases written provider (provider.macrosOf d.id) name <;> simp

/-- The order without the copy is the order with it, less one id. -/
theorem sublist_copy (before after : List String) (d c : Document) :
    (before ++ [d.id] ++ after).Sublist (before ++ [d.id, c.id] ++ after) :=
  .append (.append (.refl before) (.cons_cons d.id (List.nil_sublist _))) (.refl after)

/-- All other documents see the same with a copy behind its original. -/
theorem getElem?_snapshots_analyze_copy (hcopy : provider.HasCopy d c) (h : (before ++ [d.id, c.id] ++ after).Nodup)
    (h' : (before ++ [d.id] ++ after).Nodup) {id : MacroId} (hid : id.document ≠ c.id) :
    (analyze provider (before ++ [d.id, c.id] ++ after)).snapshots[id]? =
      (analyze provider (before ++ [d.id] ++ after)).snapshots[id]? := by
  have hsplit : ∀ copies, before ++ d.id :: copies ++ after = (before ++ [d.id]) ++ copies ++ after := fun copies => by simp
  have hw : ∀ name, written provider (((before ++ [d.id]) ++ [c.id]).flatMap provider.macrosOf) name =
      written provider (((before ++ [d.id]) ++ []).flatMap provider.macrosOf) name := by
    intro name
    rw [List.append_nil, List.append_assoc]
    exact written_copy hcopy before name
  rw [hsplit [c.id]] at h ⊢
  rw [hsplit []] at h' ⊢
  exact getElem?_snapshots_analyze_around h' h hw List.not_mem_nil (by simpa using hid)

/-- A macro of the copy sees what that of the original sees, if the original writes nothing to the variable. -/
theorem getElem?_snapshots_analyze_inDocument (hcopy : provider.HasCopy d c) (h : (before ++ [d.id, c.id] ++ after).Nodup)
    (h' : (before ++ [d.id] ++ after).Nodup) {m : Macro} (hm : m ∈ provider.macrosOf d.id) (hkind : m.kind = .getVar name)
    (hw : written provider (provider.macrosOf d.id) name = none) :
    (analyze provider (before ++ [d.id, c.id] ++ after)).snapshots[MacroId.mk c.id m.id.offset]? =
      (analyze provider (before ++ [d.id] ++ after)).snapshots[m.id]? := by
  obtain ⟨xs, ys, hsplit⟩ := List.append_of_mem hm
  have hmacros : provider.macrosOf c.id = xs.map (Macro.inDocument c.id) ++ m.inDocument c.id :: ys.map (Macro.inDocument c.id) := by
    rw [macrosOf_copy hcopy, hsplit, List.map_append, List.map_cons]
  have hown : ∀ x ∈ xs, x.id.document = d.id := by
    intro x hx
    have hmem : x ∈ provider.macrosOf d.id := by simp [hsplit, hx]
    exact Provider.document_of_mem_macrosOf hmem
  have horder : before ++ [d.id, c.id] ++ after = (before ++ [d.id]) ++ c.id :: after := by simp
  have horder' : before ++ [d.id] ++ after = before ++ d.id :: after := by simp
  rw [horder] at h ⊢
  rw [horder'] at h' ⊢
  refine (getElem?_snapshots_analyze h hmacros hkind).trans ?_
  rw [getElem?_snapshots_analyze h' hsplit hkind, written_append, written_append, written_inDocument hcopy hown,
    List.flatMap_append, List.flatMap_singleton, written_append, hw, Option.none_or]

/-- A copy is noted exactly when its original is, with the flag of the original. -/
theorem user?_copy (hcopy : provider.HasCopy d c) :
    provider.user? use name c.id = (provider.user? use name d.id).map fun _ => ⟨c.id, d.enabled⟩ := by
  have hany : (provider.macrosOf c.id).any (Macro.uses use name) = (provider.macrosOf d.id).any (Macro.uses use name) := by
    rw [macrosOf_copy hcopy, List.any_map]
    rfl
  unfold Provider.user?
  rw [hany, hcopy.original, hcopy.copy]
  split
  · rw [Option.map_some, Option.map_some, Option.map_some, Document.occurrence, hcopy.enabled]
  · rfl

/-- A copy is listed right behind its original. -/
theorem listed_analyze_copy (hp : provider.Keyed) (hcopy : provider.HasCopy d c) (h : (before ++ [d.id, c.id] ++ after).Nodup)
    (h' : (before ++ [d.id] ++ after).Nodup) (use : Use) (name : String) :
    (analyze provider (before ++ [d.id, c.id] ++ after)).listed use name =
      Occurrence.withCopy d c.id ((analyze provider (before ++ [d.id] ++ after)).listed use name) := by
  -- The document is noted under its id only, so where the order does not list it nothing is copied.
  have hother : ∀ ids : List String, d.id ∉ ids → Occurrence.withCopy d c.id (ids.filterMap (provider.user? use name)) =
      ids.filterMap (provider.user? use name) := by
    intro ids hids
    refine Occurrence.withCopy_of_forall_ne fun o ho hdoc => hids ?_
    obtain ⟨id, hid, ho⟩ := List.mem_filterMap.mp ho
    rwa [← hdoc, Provider.document_of_user? hp ho]
  have hmid : [d.id, c.id].filterMap (provider.user? use name) =
      Occurrence.withCopy d c.id ([d.id].filterMap (provider.user? use name)) := by
    have huser : provider.user? use name c.id = (provider.user? use name d.id).map fun _ => ⟨c.id, d.enabled⟩ :=
      user?_copy hcopy
    cases hu : provider.user? use name d.id with
    | none => simp [huser, hu, Occurrence.withCopy]
    | some o => simp [huser, hu, Occurrence.withCopy, Provider.document_of_user? hp hu]
  obtain ⟨hfront, -, hafter⟩ := List.nodup_append.mp h'
  have hbefore : d.id ∉ before := fun hx => (List.nodup_append.mp hfront).2.2 _ hx _ (by simp) rfl
  have hbehind : d.id ∉ after := fun hx => hafter _ (by simp) _ hx rfl
  rw [listed_analyze_of_nodup hp h, listed_analyze_of_nodup hp h', List.filterMap_append, List.filterMap_append,
    List.filterMap_append, List.filterMap_append, Occurrence.withCopy_append, Occurrence.withCopy_append,
    hother before hbefore, hother after hbehind, hmid]

/-- The copy has the macros of its original in the report. -/
theorem macros_analyze_copy (hcopy : provider.HasCopy d c) :
    (analyze provider (before ++ [d.id, c.id] ++ after)).macros =
      (analyze provider (before ++ [d.id] ++ after)).macros.insert c.id
        ((provider.macrosOf d.id).map (Macro.inDocument c.id)) := by
  have horder : before ++ [d.id, c.id] ++ after = (before ++ [d.id]) ++ c.id :: after := by simp
  have hmacros : provider.macrosOf c.id = Macro.ofContent c.id c.content := by rw [Provider.macrosOf, hcopy.copy]
  rw [horder, ← macrosOf_copy hcopy, hmacros]
  exact ParsedMacros.ofOrder_append_cons hcopy.copy (before ++ [d.id]) after

/-- Snapshots of the copy are taken where those of its original are. -/
theorem hasSnapshot_analyze_copy (hcopy : provider.HasCopy d c) (offset : Nat) :
    (analyze provider (before ++ [d.id, c.id] ++ after)).hasSnapshot ⟨c.id, offset⟩ =
      (analyze provider (before ++ [d.id] ++ after)).hasSnapshot ⟨d.id, offset⟩ := by
  have hplace : ∀ m ∈ provider.macrosOf d.id, (m.inDocument c.id).id = ⟨c.id, offset⟩ ↔ m.id = ⟨d.id, offset⟩ := by
    intro m hm
    rw [MacroId.eq_mk_iff, MacroId.eq_mk_iff, Provider.document_of_mem_macrosOf hm]
    simp [Macro.inDocument]
  rw [Bool.eq_iff_iff, hasSnapshot_analyze_iff, hasSnapshot_analyze_iff, macrosOf_copy hcopy]
  refine and_congr (by simp) ?_
  simp only [List.mem_map, exists_exists_and_eq_and]
  exact exists_congr fun m => and_congr_right fun hm => and_congr_right fun _ => hplace m hm

/-- A copy right behind its original is analyzed as a copy, and nothing else in the report changes. -/
theorem withCopy_analyze (hp : provider.Keyed) (hcopy : provider.HasCopy d c) (h : (before ++ [d.id, c.id] ++ after).Nodup) :
    (analyze provider (before ++ [d.id] ++ after)).WithCopy d c.id
      (analyze provider (before ++ [d.id, c.id] ++ after)) := by
  have h' := (sublist_copy before after d c).nodup h
  have hlisted : ∀ use name, (analyze provider (before ++ [d.id, c.id] ++ after)).listed use name =
      Occurrence.withCopy d c.id ((analyze provider (before ++ [d.id] ++ after)).listed use name) :=
    listed_analyze_copy hp hcopy h h'
  have hnil : ∀ use name, (analyze provider (before ++ [d.id, c.id] ++ after)).listed use name = [] ↔
      (analyze provider (before ++ [d.id] ++ after)).listed use name = [] := by
    intro use name
    rw [hlisted, Occurrence.withCopy_eq_nil_iff]
  have hmacros : (analyze provider (before ++ [d.id] ++ after)).macrosOf d.id = provider.macrosOf d.id := by
    rw [macrosOf_analyze, if_pos (by simp)]
  have hnames := sameNames_analyze hnil
  refine ⟨hnames, finalState_analyze_behind (written_copy hcopy before) after,
    fun id hid => getElem?_snapshots_analyze_copy hcopy h h' hid, fun name => ?_, ?_, hasSnapshot_analyze_copy hcopy,
    fun m hm name hkind hset => ?_⟩
  · rcases hnames.variableNamed?_cases name with ⟨hr, hr'⟩ | ⟨hr, hr'⟩
    · rw [hr, hr', Option.map_none]
    · rw [hr, hr', hlisted, hlisted]
      rfl
  · rw [hmacros]
    exact macros_analyze_copy hcopy
  · rw [hmacros] at hm hset
    refine getElem?_snapshots_analyze_inDocument hcopy h h' hm hkind (written_macrosOf_eq_none fun hen => hset ?_)
    rw [hcopy.original] at hen
    exact Option.some.inj hen

end Copy

end PromptMacros
