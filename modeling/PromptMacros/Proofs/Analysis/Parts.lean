import PromptMacros.Proofs.Analysis.Listing
import PromptMacros.Proofs.Analysis.Written
import PromptMacros.Proofs.Macro.Boundary

/-!
# A document in two parts

Where one document ends and the next begins means nothing to an analysis. A document whose content is cut behind a macro has the
macros of two documents with the parts (`macrosOf_whole`), so the two write what it writes (`written_parts`), each of their macros
sees what it saw in the whole (`readings_whole`), and nothing else in the analysis changes when they run in its place
(`analyze_cutInto`).
-/

namespace PromptMacros

open Text

/-- The content of a document is that of two others, one behind the other, cut at its start or behind a macro of it; the three have
one flag. -/
structure Document.CutInto (d a b : Document) : Prop where
  content : d.content = a.content ++ b.content
  boundary : Token.Boundary a.content.toList b.content.toList
  enabled_first : a.enabled = d.enabled
  enabled_second : b.enabled = d.enabled

/-- Where the macros of a document read variables, and the snapshots that were taken there. -/
def Report.readings (r : Report) (document : String) : List (Nat × Option (Option String)) :=
  ((r.macrosOf document).filter fun m => m.kind.isGetVar).map fun m => (m.id.offset, r.snapshots[m.id]?)

/-- `r'` is what `r` becomes when the documents `y` and `z` run in the place of the document `x`, with its content cut into theirs,
`n` bytes in the first. -/
structure Report.CutInto (x y z : String) (n : Nat) (r r' : Report) : Prop extends r.SameNames r' where
  finalState : r'.finalState = r.finalState
  /-- The macros of all other documents see what they saw. -/
  snapshots : ∀ id : MacroId, id.document ∉ [x, y, z] → r'.snapshots[id]? = r.snapshots[id]?
  /-- The document has the macros of its parts. -/
  macros : r.macrosOf x = (r'.macrosOf y).map (Macro.movedTo x 0) ++ (r'.macrosOf z).map (Macro.movedTo x n)
  /-- The macros of the parts see what those of the document saw, one by one. -/
  readings : r.readings x = r'.readings y ++ (r'.readings z).map fun (offset, seen) => (n + offset, seen)

/-- The provider has a document under `x`, and the documents into which it is cut under `y` and `z`. -/
structure Provider.HasParts (provider : Provider) (x y z : String) (d a b : Document) : Prop where
  whole : provider x = some d
  first : provider y = some a
  second : provider z = some b
  cut : d.CutInto a b

section Parts

variable {provider : Provider} {x y z : String} {d a b : Document} {before after : List String} {name : String}

/-- The document has the macros of its parts. -/
theorem macrosOf_whole (h : provider.HasParts x y z d a b) :
    provider.macrosOf x = (provider.macrosOf y).map (Macro.movedTo x 0) ++
      (provider.macrosOf z).map (Macro.movedTo x (byteLength a.content.toList)) := by
  unfold Provider.macrosOf
  rw [h.whole, h.first, h.second]
  dsimp only
  rw [h.cut.content]
  exact Macro.ofContent_append h.cut.boundary x y z

/-- The macros of a document write what they write in another with its flag. -/
theorem written_movedTo (hflag : (provider x).map Document.enabled = (provider y).map Document.enabled) (n : Nat)
    {macros : List Macro} (hmacros : ∀ m ∈ macros, m.id.document = y) :
    written provider (macros.map (Macro.movedTo x n)) name = written provider macros name := by
  refine written_map_of_kind_eq (fun _ _ => rfl) fun m hm => ?_
  rw [hmacros m hm]
  exact hflag

theorem Provider.HasParts.enabled_first (h : provider.HasParts x y z d a b) :
    (provider x).map Document.enabled = (provider y).map Document.enabled := by
  rw [h.whole, h.first, Option.map_some, Option.map_some, h.cut.enabled_first]

theorem Provider.HasParts.enabled_second (h : provider.HasParts x y z d a b) :
    (provider x).map Document.enabled = (provider z).map Document.enabled := by
  rw [h.whole, h.second, Option.map_some, Option.map_some, h.cut.enabled_second]

/-- The macros of a part write what they write in the document. -/
theorem written_first (h : provider.HasParts x y z d a b) {macros : List Macro}
    (hmacros : ∀ m ∈ macros, m ∈ provider.macrosOf y) :
    written provider (macros.map (Macro.movedTo x 0)) name = written provider macros name :=
  written_movedTo h.enabled_first 0 fun m hm => Provider.document_of_mem_macrosOf (hmacros m hm)

theorem written_second (h : provider.HasParts x y z d a b) {macros : List Macro}
    (hmacros : ∀ m ∈ macros, m ∈ provider.macrosOf z) :
    written provider (macros.map (Macro.movedTo x (byteLength a.content.toList))) name = written provider macros name :=
  written_movedTo h.enabled_second _ fun m hm => Provider.document_of_mem_macrosOf (hmacros m hm)

/-- The parts write what the document writes. -/
theorem written_parts (h : provider.HasParts x y z d a b) (before : List String) (name : String) :
    written provider ((before ++ [y, z]).flatMap provider.macrosOf) name =
      written provider ((before ++ [x]).flatMap provider.macrosOf) name := by
  simp only [List.flatMap_append, List.flatMap_cons, List.flatMap_nil, List.append_nil, written_append, macrosOf_whole h,
    written_first h fun _ hm => hm, written_second h fun _ hm => hm]

/-! ## What the macros of the parts see -/

/-- The macros of the first part see what they see in the document: the documents before it, and those of them before each. -/
theorem getElem?_snapshots_first (h : provider.HasParts x y z d a b) (hwhole : (before ++ [x] ++ after).Nodup)
    (hparts : (before ++ [y, z] ++ after).Nodup) {m : Macro} (hm : m ∈ provider.macrosOf y) (hget : m.kind.isGetVar = true) :
    (analyze provider (before ++ [x] ++ after)).snapshots[(m.movedTo x 0).id]? =
      (analyze provider (before ++ [y, z] ++ after)).snapshots[m.id]? := by
  obtain ⟨name, hkind⟩ := Kind.isGetVar_iff.mp hget
  obtain ⟨xs, ys, hy⟩ := List.append_of_mem hm
  have hx := macrosOf_whole h
  rw [hy, List.map_append, List.map_cons, List.append_assoc, List.cons_append] at hx
  have hxs : ∀ n ∈ xs, n ∈ provider.macrosOf y := fun n hn => by simp [hy, hn]
  have horder : before ++ [x] ++ after = before ++ x :: after := by simp
  have horder' : before ++ [y, z] ++ after = before ++ y :: z :: after := by simp
  rw [horder] at hwhole ⊢
  rw [horder'] at hparts ⊢
  rw [getElem?_snapshots_analyze hwhole hx hkind, getElem?_snapshots_analyze hparts hy hkind, written_append, written_append,
    written_first h hxs]

/-- The macros of the second part see what they see in the document: what the first part wrote is before them in both. -/
theorem getElem?_snapshots_second (h : provider.HasParts x y z d a b) (hwhole : (before ++ [x] ++ after).Nodup)
    (hparts : (before ++ [y, z] ++ after).Nodup) {m : Macro} (hm : m ∈ provider.macrosOf z) (hget : m.kind.isGetVar = true) :
    (analyze provider (before ++ [x] ++ after)).snapshots[(m.movedTo x (byteLength a.content.toList)).id]? =
      (analyze provider (before ++ [y, z] ++ after)).snapshots[m.id]? := by
  obtain ⟨name, hkind⟩ := Kind.isGetVar_iff.mp hget
  obtain ⟨xs, ys, hz⟩ := List.append_of_mem hm
  have hx := macrosOf_whole h
  rw [hz, List.map_append, List.map_cons, ← List.append_assoc] at hx
  have hxs : ∀ n ∈ xs, n ∈ provider.macrosOf z := fun n hn => by simp [hz, hn]
  have horder : before ++ [x] ++ after = before ++ x :: after := by simp
  have horder' : before ++ [y, z] ++ after = (before ++ [y]) ++ z :: after := by simp
  rw [horder] at hwhole ⊢
  rw [horder'] at hparts ⊢
  rw [getElem?_snapshots_analyze hwhole hx hkind, getElem?_snapshots_analyze hparts hz hkind]
  simp only [List.flatMap_append, List.flatMap_singleton, written_append, written_first h fun _ hm => hm, written_second h hxs,
    Option.or_assoc]

/-- The macros of the parts see what those of the document see, one by one. -/
theorem readings_whole (h : provider.HasParts x y z d a b) (hwhole : (before ++ [x] ++ after).Nodup)
    (hparts : (before ++ [y, z] ++ after).Nodup) :
    (analyze provider (before ++ [x] ++ after)).readings x =
      (analyze provider (before ++ [y, z] ++ after)).readings y ++
        ((analyze provider (before ++ [y, z] ++ after)).readings z).map fun (offset, seen) =>
          (byteLength a.content.toList + offset, seen) := by
  unfold Report.readings
  rw [macrosOf_analyze_of_mem (by simp), macrosOf_analyze_of_mem (by simp), macrosOf_analyze_of_mem (by simp), macrosOf_whole h,
    List.filter_append, List.map_append, List.filter_map, List.filter_map, List.map_map, List.map_map, List.map_map]
  refine congrArg₂ (· ++ ·) (List.map_congr_left fun m hm => ?_) (List.map_congr_left fun m hm => ?_)
  · obtain ⟨hm, hget⟩ := List.mem_filter.mp hm
    rw [Function.comp_apply, getElem?_snapshots_first h hwhole hparts hm hget]
    exact congrArg (·, _) (Nat.zero_add m.id.offset)
  · obtain ⟨hm, hget⟩ := List.mem_filter.mp hm
    rw [Function.comp_apply, getElem?_snapshots_second h hwhole hparts hm hget]
    rfl

/-! ## The report -/

/-- The parts list documents for the variables for which the document is listed. -/
theorem listed_analyze_parts_eq_nil_iff (h : provider.HasParts x y z d a b) (before after : List String) (use : Use)
    (name : String) :
    (analyze provider (before ++ [y, z] ++ after)).listed use name = [] ↔
      (analyze provider (before ++ [x] ++ after)).listed use name = [] := by
  have hmacros : (∀ m ∈ provider.macrosOf x, m.uses use name = false) ↔
      (∀ m ∈ provider.macrosOf y, m.uses use name = false) ∧ ∀ m ∈ provider.macrosOf z, m.uses use name = false := by
    rw [macrosOf_whole h, List.forall_mem_append, List.forall_mem_map, List.forall_mem_map]
    rfl
  simp only [listed_analyze_eq_nil_iff, List.forall_mem_append, List.forall_mem_cons, List.not_mem_nil, IsEmpty.forall_iff,
    implies_true, and_true, hmacros]

/-- In one store, the parts run in the place of the document as the document does. -/
theorem cutInto_analyze (h : provider.HasParts x y z d a b) (hwhole : (before ++ [x] ++ after).Nodup)
    (hparts : (before ++ [y, z] ++ after).Nodup) :
    (analyze provider (before ++ [x] ++ after)).CutInto x y z (byteLength a.content.toList)
      (analyze provider (before ++ [y, z] ++ after)) := by
  refine ⟨sameNames_analyze (listed_analyze_parts_eq_nil_iff h before after),
    finalState_analyze_behind (written_parts h before) after, fun id hid => ?_, ?_, readings_whole h hwhole hparts⟩
  · obtain ⟨hx, hyz⟩ := List.ne_and_not_mem_of_not_mem_cons hid
    exact getElem?_snapshots_analyze_around hwhole hparts (written_parts h before) (by simpa using hx) hyz
  · rw [macrosOf_analyze_of_mem (by simp), macrosOf_analyze_of_mem (by simp), macrosOf_analyze_of_mem (by simp)]
    exact macrosOf_whole h

/-- Let a document run in an order without repeats, and two documents with new ids into which it is cut run in its place, in a store
that is the same for the others. The report has the same values at the end and the same names, and calls the same names unresolved;
the macros of all other documents see what they saw, and those of the parts what the macros of the document saw, one by one. -/
theorem analyze_cutInto {p q : Provider} (h : (before ++ [x, y, z] ++ after).Nodup) (hsame : p.AgreeOn (before ++ after) q)
    (hwhole : p x = some d) (hfirst : q y = some a) (hsecond : q z = some b) (hcut : d.CutInto a b) :
    (analyze p (before ++ [x] ++ after)).CutInto x y z (byteLength a.content.toList)
      (analyze q (before ++ [y, z] ++ after)) := by
  have hsublist : ∀ mid, mid.Sublist [x, y, z] → (before ++ mid ++ after).Nodup := fun mid hmid =>
    (List.Sublist.append (List.Sublist.append (.refl before) hmid) (.refl after)).nodup h
  -- The second store with the document put in has all that either order needs.
  let r : Provider := fun id => if id = x then p x else q id
  have hperm : (before ++ x :: y :: z :: after).Perm (x :: (before ++ y :: z :: after)) := List.perm_middle
  have hnew : x ∉ before ++ [y, z] ++ after := by
    simpa using (List.nodup_cons.mp (hperm.nodup (by simpa using h))).1
  have hx : ∀ id ∈ before ++ [y, z] ++ after, id ≠ x := fun id hid hid' => hnew (hid' ▸ hid)
  have hr : r.HasParts x y z d a b :=
    ⟨(if_pos rfl).trans hwhole, (if_neg (hx y (by simp))).trans hfirst, (if_neg (hx z (by simp))).trans hsecond, hcut⟩
  have hp : analyze p (before ++ [x] ++ after) = analyze r (before ++ [x] ++ after) := by
    refine analyze_congr fun id hid => ?_
    by_cases hid' : id = x
    · rw [hid', show r x = p x from if_pos rfl]
    · rw [show r id = q id from if_neg hid']
      exact hsame id (by simpa [hid'] using hid)
  have hq : analyze q (before ++ [y, z] ++ after) = analyze r (before ++ [y, z] ++ after) := by
    refine analyze_congr fun id hid => ?_
    rw [show r id = q id from if_neg (hx id hid)]
  rw [hp, hq]
  exact cutInto_analyze hr (hsublist [x] (by simp)) (hsublist [y, z] (by simp))

/-- A document is cut behind a macro that sets a variable between two that read it. The second part starts with text before its
macro, and the documents around set what it reads and read what it sets; the second store has the whole document no more. -/
theorem analyze_cutInto_between :
    let a := Document.ofContent "a1" "é \x7b\x7bgetvar::x\x7d\x7d \x7b\x7bsetvar::x::2\x7d\x7d"
    let b := Document.ofContent "a2" " so \x7b\x7bgetvar::x\x7d\x7d\x7b\x7bgetvar::y\x7d\x7d."
    let d := Document.ofContent "a"
      "é \x7b\x7bgetvar::x\x7d\x7d \x7b\x7bsetvar::x::2\x7d\x7d so \x7b\x7bgetvar::x\x7d\x7d\x7b\x7bgetvar::y\x7d\x7d."
    let others := [Document.ofContent "b" "\x7b\x7bsetvar::x::1\x7d\x7d", .ofContent "c" "\x7b\x7bgetvar::x\x7d\x7d"]
    let p := Provider.ofList (d :: others)
    let q := Provider.ofList (b :: others ++ [a])
    let r := analyze p (["b"] ++ ["a"] ++ ["ghost", "c"])
    let r' := analyze q (["b"] ++ ["a1", "a2"] ++ ["ghost", "c"])
    (["b"] ++ ["a", "a1", "a2"] ++ ["ghost", "c"]).Nodup ∧ p.AgreeOn (["b"] ++ ["ghost", "c"]) q ∧ d.CutInto a b ∧
      r.CutInto "a" "a1" "a2" 33 r' ∧
      r.readings "a" = [(3, some (some "1")), (37, some (some "2")), (50, some none)] ∧
      r'.readings "a2" = [(4, some (some "2")), (17, some none)] := by
  intro a b d others p q r r'
  have h : (["b"] ++ ["a", "a1", "a2"] ++ ["ghost", "c"]).Nodup := by decide
  have hsame : p.AgreeOn (["b"] ++ ["ghost", "c"]) q := by decide +kernel
  have hcontent : d.content = a.content ++ b.content := by
    rw [← String.toList_inj, String.toList_append]
    decide +kernel
  have hcut : d.CutInto a b := ⟨hcontent, by decide +kernel, rfl, rfl⟩
  have hlength : byteLength a.content.toList = 33 := by decide +kernel
  have hreport := analyze_cutInto h hsame (by decide +kernel) (by decide +kernel) (by decide +kernel) hcut
  rw [hlength] at hreport
  exact ⟨h, hsame, hcut, hreport, by decide +kernel, by decide +kernel⟩

end Parts

end PromptMacros
