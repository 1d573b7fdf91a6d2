import Std.Data.String.ToNat
import PromptMacros.Analysis.Json
import PromptMacros.Proofs.Json.RoundTrip
import PromptMacros.Proofs.Workspace.Freshness

/-!
# Written identities

The written form of an identity has a hyphen between the document and the position, and the name of the document may have hyphens
and digits of its own. But a position is written with digits only, so the last hyphen is the one between the two, and a number has
one numeral; so different identities are written differently (`MacroId.text_inj`). Hence a report that is written as JSON has its
snapshots under different names and its macros under different identities (`text_inj_and_writtenApart`).
-/

namespace PromptMacros

/-! ## Identities -/

/-- A text is cut in one way at a separator that does not stand in what follows it. -/
theorem append_cons_inj_of_not_mem {α : Type} {c : α} {xs us ys vs : List α} (hy : c ∉ ys) (hv : c ∉ vs)
    (h : xs ++ c :: ys = us ++ c :: vs) : xs = us ∧ ys = vs := by
  have hle : ∀ {mid front back : List α}, c ∉ front → c :: front = mid ++ c :: back → mid = [] := by
    intro mid front back hfront h
    cases mid with
    | nil => rfl
    | cons a mid =>
      obtain ⟨-, rfl⟩ := List.cons.inj h
      exact absurd (by simp) hfront
  rcases List.append_eq_append_iff.mp h with ⟨mid, rfl, hmid⟩ | ⟨mid, rfl, hmid⟩
  · obtain rfl := hle hy hmid
    exact ⟨(List.append_nil xs).symm, (List.cons.inj hmid).2⟩
  · obtain rfl := hle hv hmid
    exact ⟨List.append_nil us, (List.cons.inj hmid).2.symm⟩

namespace MacroId

/-- The characters of a written identity. -/
theorem toList_text (id : MacroId) : id.text.toList = id.document.toList ++ '-' :: Nat.toDigits 10 id.offset := by
  have hdigits : (toString id.offset).toList = Nat.toDigits 10 id.offset := Nat.toList_repr
  rw [text, String.toList_append, String.toList_append, hdigits, List.append_assoc]
  rfl

/-- A numeral has no hyphen. -/
theorem hyphen_not_mem_toDigits (n : Nat) : '-' ∉ Nat.toDigits 10 n := by
  intro h
  have hdigit : Char.isDigit '-' = true := Nat.isDigit_of_mem_toDigits (by decide) (by decide) h
  simp at hdigit

/-- Identities are written alike only if they are the same. -/
theorem text_inj {a b : MacroId} : a.text = b.text ↔ a = b := by
  constructor
  · intro h
    have hlist := congrArg String.toList h
    rw [toList_text, toList_text] at hlist
    obtain ⟨hdocument, hoffset⟩ :=
      append_cons_inj_of_not_mem (hyphen_not_mem_toDigits a.offset) (hyphen_not_mem_toDigits b.offset) hlist
    rw [← Nat.toList_repr, ← Nat.toList_repr, String.toList_inj, Nat.repr_inj] at hoffset
    rw [String.toList_inj] at hdocument
    cases a
    cases b
    exact congrArg₂ mk hdocument hoffset
  · rintro rfl
    rfl

end MacroId

/-! ## Snapshots -/

/-- In an object with each name once, a field is found by its name. -/
theorem Fields.get?_eq_some_iff_mem {fields : Fields} (h : (fields.map Prod.fst).Nodup) {key : String} {value : Json} :
    fields.get? key = some value ↔ (key, value) ∈ fields := by
  refine ⟨mem_of_get?, fun hmem => ?_⟩
  induction fields with
  | nil => cases hmem
  | cons field fields ih =>
    obtain ⟨k, v⟩ := field
    rw [List.map_cons, List.nodup_cons] at h
    rcases List.mem_cons.mp hmem with heq | hmem
    · obtain ⟨rfl, rfl⟩ := Prod.mk.inj heq
      exact if_pos rfl
    · have hne : k ≠ key := by
        rintro rfl
        exact h.1 (List.mem_map.mpr ⟨(k, value), hmem, rfl⟩)
      rw [get?, if_neg hne]
      exact ih h.2 hmem

namespace Report

/-- The fields with which the snapshots of a report are written. -/
def snapshotFields (r : Report) : Fields :=
  r.snapshots.toList.map fun (id, value) => (id.text, Json.ofOption value)

/-- The snapshots are written under the identities of their macros. -/
theorem names_snapshotFields (r : Report) : r.snapshotFields.map Prod.fst = r.snapshots.keys.map MacroId.text := by
  rw [snapshotFields, List.map_map, ← Std.ExtTreeMap.map_fst_toList_eq_keys, List.map_map]
  rfl

/-- Each snapshot is written under a name of its own. -/
theorem nodup_snapshotFields (r : Report) : (r.snapshotFields.map Prod.fst).Nodup := by
  rw [names_snapshotFields]
  exact Std.ExtTreeMap.nodup_keys.map fun a b h => MacroId.text_inj.mp h

/-- What is written under an identity is the snapshot of the macro. -/
theorem get?_snapshotFields (r : Report) (id : MacroId) :
    r.snapshotFields.get? id.text = r.snapshots[id]?.map Json.ofOption := by
  refine Option.ext fun value => ?_
  rw [Fields.get?_eq_some_iff_mem r.nodup_snapshotFields, Option.map_eq_some_iff, snapshotFields, List.mem_map]
  constructor
  · rintro ⟨⟨id', seen⟩, hmem, heq⟩
    obtain ⟨hid, rfl⟩ := Prod.mk.inj heq
    obtain rfl := MacroId.text_inj.mp hid
    exact ⟨seen, Std.ExtTreeMap.mem_toList_iff_getElem?_eq_some.mp hmem, rfl⟩
  · rintro ⟨seen, hseen, rfl⟩
    exact ⟨(id, seen), Std.ExtTreeMap.mem_toList_iff_getElem?_eq_some.mpr hseen, rfl⟩

/-- A written report has an object of its snapshots, with one name for each of them and no name twice, and under the written
form of an identity there is the snapshot of its macro or nothing. -/
structure SnapshotsApart (r : Report) (fields : Fields) : Prop where
  written : r.toJson.get? "snapshots" = some (.object fields)
  names : fields.map Prod.fst = r.snapshots.keys.map MacroId.text
  nodup : (fields.map Prod.fst).Nodup
  values : ∀ id : MacroId, fields.get? id.text = r.snapshots[id]?.map Json.ofOption

theorem snapshotsApart (r : Report) : r.SnapshotsApart r.snapshotFields where
  written := rfl
  names := names_snapshotFields r
  nodup := nodup_snapshotFields r
  values := get?_snapshotFields r

end Report

/-! ## Macros -/

/-- The macros that a written report lists, of all documents. -/
def Json.listedMacros (report : Json) : List Json :=
  (((report.get? "macros").bind asObject?).getD []).flatMap fun (_, macros) => macros.asList?.getD []

namespace Report

/-- The macros of all documents of a report. -/
def allMacros (r : Report) : List Macro :=
  r.macros.toList.flatMap Prod.snd

/-- The macros of an analysis are those of texts. -/
theorem exists_ofContent_of_mem_analyze {provider : Provider} {order : List String} {entry : String × List Macro}
    (h : entry ∈ (analyze provider order).macros.toList) : ∃ content, entry.2 = Macro.ofContent entry.1 content := by
  have hfound := Std.ExtTreeMap.mem_toList_iff_getElem?_eq_some.mp h
  rw [getElem?_macros_analyze_eq] at hfound
  split at hfound
  · obtain ⟨d, -, hd⟩ := Option.map_eq_some_iff.mp hfound
    exact ⟨d.content, hd.symm⟩
  · cases hfound

/-- The macros of an analysis have different identities: those of one document by their positions, and those of two documents by
their documents. -/
theorem nodup_id_allMacros_analyze (provider : Provider) (order : List String) :
    ((analyze provider order).allMacros.map Macro.id).Nodup := by
  rw [allMacros, List.map_flatMap, List.nodup_flatMap]
  constructor
  · intro entry hentry
    obtain ⟨content, hcontent⟩ := exists_ofContent_of_mem_analyze hentry
    rw [hcontent]
    exact List.pairwise_map.mpr
      ((Macro.pairwise_offset_ofContent entry.1 content).imp fun h heq => Nat.ne_of_lt h (congrArg MacroId.offset heq))
  · have hdocument : ∀ entry ∈ (analyze provider order).macros.toList, ∀ id ∈ entry.2.map Macro.id,
        id.document = entry.1 := by
      intro entry hentry id hid
      obtain ⟨content, hcontent⟩ := exists_ofContent_of_mem_analyze hentry
      obtain ⟨m, hm, rfl⟩ := List.mem_map.mp hid
      exact Macro.document_of_mem_ofContent (hcontent ▸ hm)
    have hnames : (analyze provider order).macros.toList.Pairwise fun a b => a.1 ≠ b.1 := by
      rw [← List.pairwise_map, Std.ExtTreeMap.map_fst_toList_eq_keys]
      exact Std.ExtTreeMap.nodup_keys
    refine hnames.imp_of_mem fun ha hb hne id hida hidb => hne ?_
    rw [← hdocument _ ha id hida, hdocument _ hb id hidb]

/-- A written report lists the macros of all its documents, each under its identity, and no two under one identity. -/
structure MacrosApart (r : Report) : Prop where
  listed : r.toJson.listedMacros = r.allMacros.map Macro.toJson
  ids : r.toJson.listedMacros.map (Json.get? "id") = r.allMacros.map fun m => some (.string m.id.text)
  nodup : (r.toJson.listedMacros.map (Json.get? "id")).Nodup

/-- What a written report lists. -/
theorem listedMacros_toJson (r : Report) : r.toJson.listedMacros = r.allMacros.map Macro.toJson := by
  have hmacros : r.toJson.get? "macros" =
      some (.object (r.macros.toList.map fun entry => (entry.1, .list (entry.2.map Macro.toJson)))) := rfl
  rw [Json.listedMacros, hmacros, Option.bind_some, Json.asObject?, Option.getD_some, List.flatMap_map, allMacros,
    List.map_flatMap]
  rfl

/-- The macros of an analysis are written under different identities. -/
theorem macrosApart_analyze (provider : Provider) (order : List String) : (analyze provider order).MacrosApart := by
  have hids : (analyze provider order).toJson.listedMacros.map (Json.get? "id") =
      (analyze provider order).allMacros.map fun m => some (.string m.id.text) := by
    rw [listedMacros_toJson, List.map_map]
    rfl
  refine ⟨listedMacros_toJson _, hids, ?_⟩
  have htexts := (nodup_id_allMacros_analyze provider order).map fun a b h =>
    MacroId.text_inj.mp (Json.string.inj (Option.some.inj h))
  rw [List.map_map] at htexts
  exact hids ▸ htexts

end Report

/-! ## Written reports -/

/-- The report of a reachable workspace is that of an analysis. -/
theorem Workspace.Reachable.exists_analyze {w : Workspace} (h : w.Reachable) :
    ∃ provider order, w.report = analyze provider order := by
  induction h with
  | start h => exact ⟨_, _, h.current⟩
  | @perform w a _ _ ih =>
    rw [Workspace.report_perform]
    split
    · exact ⟨_, _, rfl⟩
    · exact ih

/-- Identities are written alike only if document and position are the same, whatever characters the document has. Hence every
report is written with one name for each snapshot and no name twice, and those of an analysis and of a reachable workspace list
the macros of all documents under different identities. -/
theorem text_inj_and_writtenApart :
    (∀ a b : MacroId, a.text = b.text → a.document = b.document ∧ a.offset = b.offset) ∧
    (∀ r : Report, ∃ fields, r.SnapshotsApart fields) ∧
    (∀ (provider : Provider) (order : List String), (analyze provider order).MacrosApart) ∧
    ∀ w : Workspace, w.Reachable → w.report.MacrosApart := by
  refine ⟨fun a b h => ?_, fun r => ⟨_, r.snapshotsApart⟩, Report.macrosApart_analyze, fun w hw => ?_⟩
  · obtain rfl := MacroId.text_inj.mp h
    exact ⟨rfl, rfl⟩
  · obtain ⟨provider, order, hreport⟩ := hw.exists_analyze
    rw [hreport]
    exact Report.macrosApart_analyze provider order

/-- Two documents, the id of one of which begins with that of the other and a hyphen: their macros are written apart, and no
position in the one is written like the start of the other. -/
theorem text_inj_and_writtenApart_separator :
    let w := Workspace.ofParts {} (.ofList [.ofContent "a" "\x7b\x7bsetvar::x::1\x7d\x7d",
      .ofContent "a-1" "\x7b\x7bgetvar::x\x7d\x7d"]) ["a", "a-1"]
    w.Reachable ∧ w.report.MacrosApart ∧ ∀ n, (MacroId.mk "a-1" 0).text ≠ (MacroId.mk "a" n).text :=
  have hw : (Workspace.ofParts {} (.ofList [.ofContent "a" "\x7b\x7bsetvar::x::1\x7d\x7d",
      .ofContent "a-1" "\x7b\x7bgetvar::x\x7d\x7d"]) ["a", "a-1"]).Reachable :=
    .start (.parts _ _ (DocumentSet.indexed_ofList _))
  ⟨hw, text_inj_and_writtenApart.2.2.2 _ hw, fun n h =>
    absurd (text_inj_and_writtenApart.1 ⟨"a-1", 0⟩ ⟨"a", n⟩ h).1 (by simp)⟩

end PromptMacros
