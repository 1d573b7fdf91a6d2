/-!
# Execution orders

Lists of ids in the order in which their documents run, and the changes an editor makes to them. `firsts` keeps the first
of equal ids (`mem_firsts`, `nodup_firsts`); the other changes take one id out or put one in and leave the rest in place
(`insertAfter?_eq_some_iff`, `without_toTop?`, `without_toBottom?`).
-/

namespace PromptMacros.Order

/-- The ids of a list, each at its first place only. -/
def firsts : List String → List String
  | [] => []
  | id :: ids => id :: (firsts ids).filter (· ≠ id)

/-- The same ids are in a list and among its firsts. -/
@[simp] theorem mem_firsts {id : String} {ids : List String} : id ∈ firsts ids ↔ id ∈ ids := by
  induction ids with
  | nil => rfl
  | cons x xs ih =>
    simp only [firsts, List.mem_cons, List.mem_filter, ih, decide_eq_true_eq]
    by_cases h : id = x <;> simp [h]

/-- No id is repeated among the firsts of a list. -/
theorem nodup_firsts (ids : List String) : (firsts ids).Nodup := by
  induction ids with
  | nil => exact List.nodup_nil
  | cons x xs ih => exact List.nodup_cons.mpr ⟨by simp, ih.filter _⟩

/-- A list without repeated ids is all firsts. -/
theorem firsts_eq_self {ids : List String} (h : ids.Nodup) : firsts ids = ids := by
  induction ids with
  | nil => rfl
  | cons x xs ih =>
    obtain ⟨hx, hxs⟩ := List.nodup_cons.mp h
    rw [firsts, ih hxs, List.filter_eq_self.mpr]
    intro y hy
    simpa using fun he : y = x => hx (he ▸ hy)

/-- An id behind a list is one of its firsts unless it is in the list. -/
theorem firsts_concat (ids : List String) (id : String) :
    firsts (ids ++ [id]) = if id ∈ ids then firsts ids else firsts ids ++ [id] := by
  induction ids with
  | nil => simp [firsts]
  | cons x xs ih =>
    rw [List.cons_append, firsts, ih]
    by_cases hx : id = x
    · subst hx
      by_cases hxs : id ∈ xs <;> simp [hxs, firsts]
    · by_cases hxs : id ∈ xs <;> simp [hxs, hx, firsts]

/-- The list without an id. -/
def without (id : String) (ids : List String) : List String :=
  ids.filter (· ≠ id)

/-- A list that does not have an id is the list without it. -/
theorem without_eq_self {id : String} {ids : List String} (h : id ∉ ids) : without id ids = ids :=
  List.filter_eq_self.mpr fun _ hx => decide_eq_true fun hid => h (hid ▸ hx)

/-- The list without an id is the same without it again. -/
theorem without_without (id : String) (ids : List String) : without id (without id ids) = without id ids :=
  without_eq_self (by simp [without])

/-- An id put in somewhere is the only one that the list has more. -/
theorem without_middle (id : String) (before after : List String) :
    without id (before ++ id :: after) = without id (before ++ after) := by
  simp [without]

theorem without_erase (id : String) (ids : List String) : without id (ids.erase id) = without id ids := by
  rw [without, ← List.erase_filter]
  exact List.erase_of_not_mem (by simp)

/-- The list without some ids. -/
def withoutAll (taken ids : List String) : List String :=
  ids.filter (· ∉ taken)

theorem withoutAll_nil (ids : List String) : withoutAll [] ids = ids := by
  simp [withoutAll]

theorem withoutAll_singleton (id : String) (ids : List String) : withoutAll [id] ids = without id ids := by
  simp [withoutAll, without]

/-- Taking out some ids and then all is taking out all. -/
theorem withoutAll_withoutAll {taken all : List String} (h : taken ⊆ all) (ids : List String) :
    withoutAll all (withoutAll taken ids) = withoutAll all ids := by
  rw [withoutAll, withoutAll, List.filter_filter]
  refine List.filter_congr fun id _ => ?_
  by_cases hid : id ∈ taken
  · simp [hid, h hid]
  · simp [hid]

/-- The list with an id put right behind another; nothing when that one is not in the list. -/
def insertAfter? (anchor id : String) : List String → Option (List String)
  | [] => none
  | x :: xs => if x = anchor then some (x :: id :: xs) else (insertAfter? anchor id xs).map (x :: ·)

/-- An id is put behind another exactly when that one is in the list. -/
theorem isSome_insertAfter? {anchor id : String} {ids : List String} :
    (insertAfter? anchor id ids).isSome ↔ anchor ∈ ids := by
  induction ids with
  | nil => simp [insertAfter?]
  | cons x xs ih =>
    rw [insertAfter?]
    split
    · next h => simp [h]
    · next h => simp [ih, Ne.symm h]

/-- An id is put right behind the first place of the other. -/
theorem insertAfter?_eq_some_iff {anchor id : String} {ids ids' : List String} :
    insertAfter? anchor id ids = some ids' ↔
      ∃ before after, anchor ∉ before ∧ ids = before ++ anchor :: after ∧ ids' = before ++ anchor :: id :: after := by
  induction ids generalizing ids' with
  | nil => simp [insertAfter?]
  | cons x xs ih =>
    rw [insertAfter?]
    split
    · next h =>
      subst h
      constructor
      · intro h
        obtain rfl := Option.some.inj h
        exact ⟨[], xs, List.not_mem_nil, rfl, rfl⟩
      · rintro ⟨before, after, hnot, hids, rfl⟩
        cases before with
        | nil =>
          obtain ⟨-, rfl⟩ := List.cons.inj hids
          rfl
        | cons b before =>
          obtain ⟨rfl, -⟩ := List.cons.inj hids
          exact absurd List.mem_cons_self hnot
    · next h =>
      rw [Option.map_eq_some_iff]
      constructor
      · rintro ⟨ys, hys, rfl⟩
        obtain ⟨before, after, hnot, rfl, rfl⟩ := ih.mp hys
        exact ⟨x :: before, after, by simp [hnot, Ne.symm h], rfl, rfl⟩
      · rintro ⟨before, after, hnot, hids, rfl⟩
        cases before with
        | nil =>
          obtain ⟨rfl, -⟩ := List.cons.inj hids
          exact absurd rfl h
        | cons b before =>
          obtain ⟨rfl, rfl⟩ := List.cons.inj hids
          exact ⟨_, ih.mpr ⟨before, after, fun hb => hnot (List.mem_cons_of_mem x hb), rfl, rfl⟩, rfl⟩

/-- The list with an id put in has that id more. -/
theorem perm_of_insertAfter? {anchor id : String} {ids ids' : List String} (h : insertAfter? anchor id ids = some ids') :
    ids'.Perm (id :: ids) := by
  obtain ⟨before, after, -, rfl, rfl⟩ := insertAfter?_eq_some_iff.mp h
  rw [List.append_cons before anchor (id :: after), List.append_cons before anchor after]
  exact List.perm_middle

/-- The list with an id put in has the others where they were. -/
theorem without_insertAfter? {anchor id : String} {ids ids' : List String} (h : insertAfter? anchor id ids = some ids') :
    without id ids' = without id ids := by
  obtain ⟨before, after, -, rfl, rfl⟩ := insertAfter?_eq_some_iff.mp h
  rw [List.append_cons before anchor (id :: after), List.append_cons before anchor after, without_middle]

/-- In a list without repeats an id is put right behind the other wherever that one stands. -/
theorem insertAfter?_of_nodup {anchor : String} {before after : List String} (h : (before ++ anchor :: after).Nodup) (id : String) :
    insertAfter? anchor id (before ++ anchor :: after) = some (before ++ anchor :: id :: after) := by
  have hbefore : anchor ∉ before := fun hmem => (List.nodup_append.mp h).2.2 _ hmem _ List.mem_cons_self rfl
  exact insertAfter?_eq_some_iff.mpr ⟨before, after, hbefore, rfl, rfl⟩

/-- An id is put behind none that is not in the list. -/
theorem insertAfter?_of_not_mem {anchor : String} {ids : List String} (h : anchor ∉ ids) (id : String) :
    insertAfter? anchor id ids = none :=
  Option.not_isSome_iff_eq_none.mp (mt isSome_insertAfter?.mp h)

/-- The list with an id at its front; nothing when the id is not in the list or stands there already. -/
def toTop? (id : String) (ids : List String) : Option (List String) :=
  if id ∈ ids ∧ ids.head? ≠ some id then some (id :: ids.erase id) else none

/-- The list with an id at its end; nothing when the id is not in the list or stands there already. -/
def toBottom? (id : String) (ids : List String) : Option (List String) :=
  if id ∈ ids ∧ ids.getLast? ≠ some id then some (ids.erase id ++ [id]) else none

theorem toTop?_eq_some_iff {id : String} {ids ids' : List String} :
    toTop? id ids = some ids' ↔ (id ∈ ids ∧ ids.head? ≠ some id) ∧ id :: ids.erase id = ids' := by
  unfold toTop?
  split <;> simp_all

theorem toBottom?_eq_some_iff {id : String} {ids ids' : List String} :
    toBottom? id ids = some ids' ↔ (id ∈ ids ∧ ids.getLast? ≠ some id) ∧ ids.erase id ++ [id] = ids' := by
  unfold toBottom?
  split <;> simp_all

/-- The list with an id moved to its front has the same ids. -/
theorem perm_of_toTop? {id : String} {ids ids' : List String} (h : toTop? id ids = some ids') : ids'.Perm ids := by
  obtain ⟨hid, rfl⟩ := toTop?_eq_some_iff.mp h
  exact (List.perm_cons_erase hid.1).symm

/-- The list with an id moved to its front has the others where they were. -/
theorem without_toTop? {id : String} {ids ids' : List String} (h : toTop? id ids = some ids') :
    without id ids' = without id ids := by
  obtain ⟨-, rfl⟩ := toTop?_eq_some_iff.mp h
  exact (without_middle id [] _).trans (without_erase id ids)

/-- Moving an id to the front gives another list. -/
theorem ne_of_toTop? {id : String} {ids ids' : List String} (h : toTop? id ids = some ids') : ids' ≠ ids := by
  obtain ⟨hid, rfl⟩ := toTop?_eq_some_iff.mp h
  intro hsame
  exact hid.2 (congrArg List.head? hsame).symm

/-- The list with an id moved to its front, if need be, has it there. -/
theorem head?_toTop? {id : String} {ids : List String} (h : id ∈ ids) : ((toTop? id ids).getD ids).head? = some id := by
  unfold toTop?
  split
  · rfl
  · next hid => exact Classical.not_not.mp fun hne => hid ⟨h, hne⟩

/-- The list with an id moved to its end has the same ids. -/
theorem perm_of_toBottom? {id : String} {ids ids' : List String} (h : toBottom? id ids = some ids') : ids'.Perm ids := by
  obtain ⟨hid, rfl⟩ := toBottom?_eq_some_iff.mp h
  exact (List.perm_append_singleton id _).trans (List.perm_cons_erase hid.1).symm

/-- The list with an id moved to its end has the others where they were. -/
theorem without_toBottom? {id : String} {ids ids' : List String} (h : toBottom? id ids = some ids') :
    without id ids' = without id ids := by
  obtain ⟨-, rfl⟩ := toBottom?_eq_some_iff.mp h
  rw [without_middle, List.append_nil, without_erase]

/-- Moving an id to the end gives another list. -/
theorem ne_of_toBottom? {id : String} {ids ids' : List String} (h : toBottom? id ids = some ids') : ids' ≠ ids := by
  obtain ⟨hid, rfl⟩ := toBottom?_eq_some_iff.mp h
  intro hsame
  have hlast := congrArg List.getLast? hsame
  rw [List.getLast?_concat] at hlast
  exact hid.2 hlast.symm

/-- The list with an id moved to its end, if need be, has it there. -/
theorem getLast?_toBottom? {id : String} {ids : List String} (h : id ∈ ids) :
    ((toBottom? id ids).getD ids).getLast? = some id := by
  unfold toBottom?
  split
  · exact List.getLast?_concat
  · next hid => exact Classical.not_not.mp fun hne => hid ⟨h, hne⟩

end PromptMacros.Order
