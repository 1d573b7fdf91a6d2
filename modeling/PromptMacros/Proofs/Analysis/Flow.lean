import PromptMacros.Analysis.Report
import PromptMacros.Proofs.Macro.Layout

/-!
# What an analysis looks at

The flow of an order is the macros of its documents, one document after another (`flow_ofOrder`). A report depends on the
ids, flags and contents of the documents that the order lists and on nothing else (`analyze_congr`): not on their names or
roles, and not on documents outside the order. An identity stands for one macro (`Provider.eq_of_id_eq`). A document whose macros
neither set nor read anything adds its macros to the report and nothing else, wherever it runs (`analyze_append_cons_of_idle`).
-/

namespace PromptMacros

/-- What an analysis looks at in a document. -/
def Document.essence (d : Document) : String × Bool × String :=
  (d.id, d.enabled, d.content)

/-- The macros of the document with this id; none when there is no such document. -/
def Provider.macrosOf (provider : Provider) (id : String) : List Macro :=
  match provider id with
  | none => []
  | some d => Macro.ofContent id d.content

theorem Provider.macrosOf_eq_getD (provider : Provider) (id : String) :
    provider.macrosOf id = ((provider id).map fun d => Macro.ofContent id d.content).getD [] := by
  unfold Provider.macrosOf
  cases provider id <;> rfl

/-- The macros of a document carry its id. -/
theorem Provider.document_of_mem_macrosOf {provider : Provider} {id : String} {m : Macro}
    (h : m ∈ provider.macrosOf id) : m.id.document = id := by
  unfold Provider.macrosOf at h
  split at h
  · cases h
  · exact Macro.document_of_mem_ofContent h

/-- Only a document that is there has macros. -/
theorem Provider.isSome_of_mem_macrosOf {provider : Provider} {id : String} {m : Macro}
    (h : m ∈ provider.macrosOf id) : (provider id).isSome := by
  unfold Provider.macrosOf at h
  split at h
  · cases h
  · next hp => rw [hp]; rfl

/-- The kind of a macro is what a body says. -/
theorem Provider.kind_of_mem_macrosOf {provider : Provider} {id : String} {m : Macro}
    (h : m ∈ provider.macrosOf id) : ∃ body, m.kind = Kind.classify body := by
  unfold Provider.macrosOf at h
  split at h
  · cases h
  · obtain ⟨t, -, rfl⟩ := List.mem_map.mp h
    exact ⟨t.inner, rfl⟩

/-- Two providers have documents with one essence under each of these ids. -/
def Provider.AgreeOn (ids : List String) (p q : Provider) : Prop :=
  ∀ id ∈ ids, (p id).map Document.essence = (q id).map Document.essence

/-- What running the macros of a document depends on: its flag and its content. -/
def Document.script (d : Document) : Bool × String :=
  (d.enabled, d.content)

/-- Under each of these ids both providers find documents with one content, or none. -/
def Provider.SameContents (ids : List String) (p q : Provider) : Prop :=
  ∀ id ∈ ids, (p id).map Document.content = (q id).map Document.content

/-- Under each of these ids both providers find documents with one flag and one content, or none. -/
def Provider.RunsAlike (ids : List String) (p q : Provider) : Prop :=
  ∀ id ∈ ids, (p id).map Document.script = (q id).map Document.script

instance (ids : List String) (p q : Provider) : Decidable (p.AgreeOn ids q) :=
  inferInstanceAs (Decidable (∀ id ∈ ids, _))

instance (ids : List String) (p q : Provider) : Decidable (p.RunsAlike ids q) :=
  inferInstanceAs (Decidable (∀ id ∈ ids, _))

/-- Documents with one essence have one id, one flag and one content. -/
theorem Document.essence_eq_iff {d e : Document} :
    d.essence = e.essence ↔ d.id = e.id ∧ d.enabled = e.enabled ∧ d.content = e.content := by
  simp [essence]

/-! ## Parsed macros -/

/-- The parsed macros of an order are those of the documents that the order lists. -/
theorem ParsedMacros.getElem?_ofOrder (provider : Provider) (order : List String) (id : String) :
    (ParsedMacros.ofOrder provider order)[id]? =
      if id ∈ order then (provider id).map fun d => Macro.ofContent id d.content else none := by
  -- A document listed again is parsed again to the same macros, so what was there before is found only when the rest of
  -- the order does not list the id.
  suffices h : ∀ parsed : ParsedMacros,
      (order.foldl (fun parsed id =>
        match provider id with
        | none => parsed
        | some d => parsed.insert id (Macro.ofContent id d.content)) parsed)[id]? =
      (if id ∈ order then (provider id).map fun d => Macro.ofContent id d.content else none).or parsed[id]? by
    refine (h ∅).trans ?_
    simp
  induction order with
  | nil => intro parsed; rfl
  | cons x order ih =>
    intro parsed
    rw [List.foldl_cons, ih]
    by_cases hx : id = x
    · subst hx
      cases hp : provider id with
      | none => simp
      | some d => by_cases ho : id ∈ order <;> simp [ho]
    · have hne : ¬compare x id = .eq := by
        rw [Std.LawfulEqOrd.compare_eq_iff_eq]
        exact fun h => hx h.symm
      have hstep : (match provider x with
          | none => parsed
          | some d => parsed.insert x (Macro.ofContent x d.content))[id]? = parsed[id]? := by
        split
        · rfl
        · rw [Std.ExtTreeMap.getElem?_insert, if_neg hne]
      rw [hstep]
      simp [hx]

/-- A document that the order lists has its macros among the parsed ones. -/
theorem ParsedMacros.getD_ofOrder {provider : Provider} {order : List String} {id : String} (h : id ∈ order) :
    (ParsedMacros.ofOrder provider order).getD id [] = provider.macrosOf id := by
  rw [Std.ExtTreeMap.getD_eq_getD_getElem?, getElem?_ofOrder, if_pos h, Provider.macrosOf_eq_getD]

/-- The flow of an order over parsed macros is the macros of those of its documents that were parsed, one document after another. -/
theorem flow_ofOrder_listed (provider : Provider) (listed order : List String) :
    flow order (ParsedMacros.ofOrder provider listed) = (order.filter (· ∈ listed)).flatMap provider.macrosOf := by
  induction order with
  | nil => rfl
  | cons id order ih =>
    change (ParsedMacros.ofOrder provider listed).getD id [] ++ flow order _ = _
    rw [ih, List.filter_cons]
    by_cases hid : id ∈ listed
    · rw [if_pos (decide_eq_true hid), List.flatMap_cons, ParsedMacros.getD_ofOrder hid]
    · rw [if_neg (by simpa using hid), Std.ExtTreeMap.getD_eq_getD_getElem?, ParsedMacros.getElem?_ofOrder, if_neg hid]
      rfl

/-- The flow of an order is the macros of its documents, one document after another. -/
theorem flow_ofOrder (provider : Provider) (order : List String) :
    flow order (ParsedMacros.ofOrder provider order) = order.flatMap provider.macrosOf := by
  rw [flow_ofOrder_listed, List.filter_eq_self.mpr fun _ => decide_eq_true]

/-- An analysis runs the macros of the documents, one document after another. -/
theorem analyze_eq (provider : Provider) (order : List String) :
    analyze provider order =
      Report.ofSimulation (ParsedMacros.ofOrder provider order) (simulate provider (order.flatMap provider.macrosOf)) := by
  rw [← flow_ofOrder]
  rfl

/-- A report has the macros of the documents that the order lists, and no others. -/
theorem getElem?_macros_analyze_eq (provider : Provider) (order : List String) (id : String) :
    (analyze provider order).macros[id]? =
      if id ∈ order then (provider id).map fun d => Macro.ofContent id d.content else none :=
  ParsedMacros.getElem?_ofOrder provider order id

/-- A document put into an order adds its macros to the parsed ones, and nothing else. -/
theorem ParsedMacros.ofOrder_append_cons {provider : Provider} {id : String} {d : Document} (hd : provider id = some d)
    (before after : List String) :
    ofOrder provider (before ++ id :: after) = (ofOrder provider (before ++ after)).insert id (Macro.ofContent id d.content) := by
  refine Std.ExtTreeMap.ext_getElem? fun other => ?_
  rw [Std.ExtTreeMap.getElem?_insert, getElem?_ofOrder, getElem?_ofOrder]
  simp only [Std.LawfulEqOrd.compare_eq_iff_eq]
  by_cases hother : id = other
  · subst hother
    rw [if_pos rfl, if_pos (by simp), hd, Option.map_some]
  · have hmem : other ∈ before ++ id :: after ↔ other ∈ before ++ after := by simp [Ne.symm hother]
    rw [if_neg hother, if_congr hmem rfl rfl]

/-- A report has the macros of the documents that the order lists. -/
theorem macrosOf_analyze (provider : Provider) (order : List String) (id : String) :
    (analyze provider order).macrosOf id = if id ∈ order then provider.macrosOf id else [] := by
  change (ParsedMacros.ofOrder provider order).getD id [] = _
  split
  · next h => exact ParsedMacros.getD_ofOrder h
  · next h => rw [Std.ExtTreeMap.getD_eq_getD_getElem?, ParsedMacros.getElem?_ofOrder, if_neg h]; rfl

theorem macrosOf_analyze_of_mem {provider : Provider} {order : List String} {id : String} (hid : id ∈ order) :
    (analyze provider order).macrosOf id = provider.macrosOf id :=
  (macrosOf_analyze provider order id).trans (if_pos hid)

/-! ## Identities -/

section Identities

variable {provider : Provider}

/-- Later macros of a document stand at later positions. -/
theorem Provider.pairwise_offset_macrosOf (provider : Provider) (id : String) :
    (provider.macrosOf id).Pairwise fun a b => a.id.offset < b.id.offset := by
  unfold Provider.macrosOf
  split
  · exact .nil
  · exact Macro.pairwise_offset_ofContent ..

/-- A macro is found by its identity in one place of one document only. -/
theorem Provider.place_unique {a b : String} {j k : Nat} {m n : Macro} (hm : (provider.macrosOf a)[j]? = some m)
    (hn : (provider.macrosOf b)[k]? = some n) (h : m.id = n.id) : a = b ∧ j = k := by
  obtain rfl : a = b := by
    rw [← document_of_mem_macrosOf (List.mem_of_getElem? hm), ← document_of_mem_macrosOf (List.mem_of_getElem? hn), h]
  obtain ⟨hj, rfl⟩ := List.getElem?_eq_some_iff.mp hm
  obtain ⟨hk, rfl⟩ := List.getElem?_eq_some_iff.mp hn
  have hlt := List.pairwise_iff_getElem.mp (Provider.pairwise_offset_macrosOf provider a)
  refine ⟨rfl, ?_⟩
  rcases Nat.lt_trichotomy j k with hjk | hjk | hjk
  · have := hlt j k hj hk hjk
    rw [h] at this
    omega
  · exact hjk
  · have := hlt k j hk hj hjk
    rw [h] at this
    omega

/-- Two macros of one identity are the same macro. -/
theorem Provider.eq_of_id_eq {order : List String} {m n : Macro} (hm : m ∈ order.flatMap provider.macrosOf)
    (hn : n ∈ order.flatMap provider.macrosOf) (h : m.id = n.id) : m = n := by
  obtain ⟨a, -, hm⟩ := List.mem_flatMap.mp hm
  obtain ⟨b, -, hn⟩ := List.mem_flatMap.mp hn
  obtain ⟨j, hj⟩ := List.getElem?_of_mem hm
  obtain ⟨k, hk⟩ := List.getElem?_of_mem hn
  obtain ⟨rfl, rfl⟩ := Provider.place_unique hj hk h
  rw [hj] at hk
  exact Option.some.inj hk

end Identities

/-! ## Providers that agree -/

section Agree

variable {p q : Provider} {order : List String}

namespace Provider

/-- Documents with one content are parsed to the same macros. -/
theorem SameContents.map_ofContent (h : SameContents order p q) {id : String} (hid : id ∈ order) :
    (p id).map (fun d => Macro.ofContent id d.content) = (q id).map fun d => Macro.ofContent id d.content := by
  have hmap := congrArg (Option.map (Macro.ofContent id)) (h id hid)
  rwa [Option.map_map, Option.map_map] at hmap

/-- Documents with one content have the same macros. -/
theorem SameContents.macrosOf_eq (h : SameContents order p q) {id : String} (hid : id ∈ order) :
    p.macrosOf id = q.macrosOf id := by
  rw [macrosOf_eq_getD, macrosOf_eq_getD, h.map_ofContent hid]

/-- Orders of documents with the same contents have the same flow. -/
theorem SameContents.flatMap_macrosOf_eq (h : SameContents order p q) :
    order.flatMap p.macrosOf = order.flatMap q.macrosOf := by
  rw [List.flatMap_def, List.flatMap_def]
  exact congrArg List.flatten (List.map_congr_left fun id hid => h.macrosOf_eq hid)

/-- Providers of the same contents parse an order to the same macros. -/
theorem SameContents.ofOrder_eq (h : SameContents order p q) :
    ParsedMacros.ofOrder p order = ParsedMacros.ofOrder q order := by
  refine Std.ExtTreeMap.ext_getElem? ?_
  intro id
  rw [ParsedMacros.getElem?_ofOrder, ParsedMacros.getElem?_ofOrder]
  split
  · next hid => exact h.map_ofContent hid
  · rfl

/-- Documents that run alike have the same contents. -/
theorem RunsAlike.sameContents (h : RunsAlike order p q) : SameContents order p q := by
  intro id hid
  have hmap := congrArg (Option.map Prod.snd) (h id hid)
  rwa [Option.map_map, Option.map_map] at hmap

/-- Providers that agree find documents that run alike. -/
theorem AgreeOn.runsAlike (h : AgreeOn order p q) : RunsAlike order p q := by
  intro id hid
  have hscript : Document.script = (fun essence : String × Bool × String => essence.2) ∘ Document.essence := rfl
  rw [hscript, ← Option.map_map, ← Option.map_map, h id hid]

/-- The macros of documents that run alike are the same. -/
theorem RunsAlike.map_ofContent (h : RunsAlike order p q) {id : String} (hid : id ∈ order) :
    (p id).map (fun d => Macro.ofContent id d.content) = (q id).map fun d => Macro.ofContent id d.content :=
  h.sameContents.map_ofContent hid

end Provider

/-- A macro runs alike for documents with one id and one flag. -/
theorem Simulation.run_congr {d e : Document} (hid : d.id = e.id) (hen : d.enabled = e.enabled) (s : Simulation)
    (m : Macro) : s.run d m = s.run e m := by
  unfold Simulation.run
  split
  · simp only [Simulation.set, hid, hen]
  · simp only [Simulation.get, hid, hen]
  all_goals rfl

/-- A macro runs alike for two providers that agree on its document. -/
theorem Simulation.step_congr {m : Macro} (h : (p m.id.document).map Document.essence = (q m.id.document).map Document.essence)
    (s : Simulation) : Simulation.step p s m = Simulation.step q s m := by
  unfold Simulation.step
  cases hp : p m.id.document with
  | none =>
    rw [hp] at h
    rw [Option.map_eq_none_iff.mp h.symm]
  | some d =>
    rw [hp] at h
    obtain ⟨e, he, hed⟩ := Option.map_eq_some_iff.mp h.symm
    obtain ⟨hid, hen, -⟩ := Document.essence_eq_iff.mp hed
    rw [he]
    exact Simulation.run_congr hid.symm hen.symm s m

/-- Providers that agree on the documents of a flow run it alike. -/
theorem simulateFrom_congr {macros : List Macro}
    (h : ∀ m ∈ macros, (p m.id.document).map Document.essence = (q m.id.document).map Document.essence)
    (s : Simulation) : simulateFrom p s macros = simulateFrom q s macros := by
  induction macros generalizing s with
  | nil => rfl
  | cons m macros ih =>
    have hm := h m List.mem_cons_self
    have hms : ∀ x ∈ macros, (p x.id.document).map Document.essence = (q x.id.document).map Document.essence :=
      fun x hx => h x (List.mem_cons_of_mem m hx)
    change simulateFrom p (Simulation.step p s m) macros = simulateFrom q (Simulation.step q s m) macros
    rw [Simulation.step_congr hm, ih hms]

/-- A report depends on the essence of the documents that the order lists, and on nothing else. -/
theorem analyze_congr (h : Provider.AgreeOn order p q) : analyze p order = analyze q order := by
  have hflow : ∀ m ∈ order.flatMap q.macrosOf,
      (p m.id.document).map Document.essence = (q m.id.document).map Document.essence := by
    intro m hm
    obtain ⟨id, hid, hm⟩ := List.mem_flatMap.mp hm
    rw [Provider.document_of_mem_macrosOf hm]
    exact h id hid
  simp only [analyze, h.runsAlike.sameContents.ofOrder_eq, simulate]
  rw [flow_ofOrder, simulateFrom_congr hflow]

end Agree

/-! ## Documents that do nothing -/

/-- A flow of macros each of which changes nothing changes nothing. -/
theorem simulateFrom_eq_self_of_step {provider : Provider} {macros : List Macro} {s : Simulation}
    (h : ∀ m ∈ macros, Simulation.step provider s m = s) : simulateFrom provider s macros = s := by
  induction macros with
  | nil => rfl
  | cons m macros ih =>
    obtain ⟨hm, hmacros⟩ := List.forall_mem_cons.mp h
    change simulateFrom provider (Simulation.step provider s m) macros = s
    rw [hm, ih hmacros]

/-- A macro that neither sets a variable nor reads one, named or not. -/
def Macro.Idle (m : Macro) : Prop :=
  m.varName? = none ∧ m.kind.isGetVar = false

section Idle

variable {provider : Provider}

/-- A comment is idle. -/
theorem Macro.Idle.of_comment {m : Macro} (h : m.kind = .comment) : m.Idle := by
  rw [Idle, varName?, h]
  exact ⟨rfl, rfl⟩

/-- An idle macro changes nothing. -/
theorem Macro.Idle.step_eq {m : Macro} (h : m.Idle) (s : Simulation) : Simulation.step provider s m = s := by
  obtain ⟨hname, hread⟩ := h
  unfold Simulation.step
  split
  · rfl
  · unfold Simulation.run
    split
    · next hkind =>
      rw [varName?, hkind] at hname
      cases hname
    · next hkind =>
      rw [hkind] at hread
      cases hread
    all_goals rfl

/-- A flow of idle macros changes nothing. -/
theorem simulateFrom_eq_self {macros : List Macro} (h : ∀ m ∈ macros, m.Idle) (s : Simulation) :
    simulateFrom provider s macros = s :=
  simulateFrom_eq_self_of_step fun m hm => (h m hm).step_eq s

/-- A document of idle macros may be put anywhere into an order: the report gains its macros, and nothing else changes. -/
theorem analyze_append_cons_of_idle {id : String} {d : Document} (hd : provider id = some d)
    (h : ∀ m ∈ Macro.ofContent id d.content, m.Idle) (before after : List String) :
    analyze provider (before ++ id :: after) =
      { analyze provider (before ++ after) with
        macros := (analyze provider (before ++ after)).macros.insert id (Macro.ofContent id d.content) } := by
  have hmacros : provider.macrosOf id = Macro.ofContent id d.content := by rw [Provider.macrosOf, hd]
  have hsame : simulate provider ((before ++ id :: after).flatMap provider.macrosOf) =
      simulate provider ((before ++ after).flatMap provider.macrosOf) := by
    rw [List.flatMap_append, List.flatMap_append, List.flatMap_cons, hmacros, simulate, simulate, simulateFrom_append,
      simulateFrom_append, simulateFrom_append, simulateFrom_eq_self h]
  rw [analyze_eq, analyze_eq, hsame, ParsedMacros.ofOrder_append_cons hd]
  rfl

end Idle

end PromptMacros
