import PromptMacros.Json.Reader
import PromptMacros.Proofs.Json.Lexing

/-!
# Written JSON is read back

A value is read back as it was written (`Readable.readsBack`) when its lists and objects are not nested too deep, its objects
have sorted fields, and each of its numbers is read back; a whole number of 64 bits is (`numberReads_integer`). The lexemes of
a value make up its tree (`Readable.run`), and the tree has the value (`Readable.ofTree?`).
-/

namespace PromptMacros

/-! ## Sorted fields -/

namespace Fields

/-- The names of fields are strictly increasing. -/
def Sorted (fields : Fields) : Prop :=
  fields.Pairwise fun a b => compare a.1 b.1 = .lt

instance (fields : Fields) : Decidable fields.Sorted :=
  inferInstanceAs (Decidable (List.Pairwise _ _))

/-- Setting a field with the greatest name puts it behind the others. -/
theorem insert_eq_append {key : String} {value : Json} {fields : Fields} (h : ∀ field ∈ fields, compare field.1 key = .lt) :
    fields.insert key value = fields ++ [(key, value)] := by
  induction fields with
  | nil => rfl
  | cons field fields ih =>
    obtain ⟨hfield, hfields⟩ := List.forall_mem_cons.mp h
    rw [Fields.insert, Std.OrientedCmp.gt_of_lt hfield, ih hfields]
    rfl

/-- Sorted fields are the fields that they are read as. -/
theorem ofList_eq_self {fields : Fields} (h : fields.Sorted) : ofList fields = fields := by
  suffices hgo : ∀ before : Fields, (before ++ fields).Pairwise (fun a b => compare a.1 b.1 = .lt) →
      fields.foldl (fun fs field => fs.insert field.1 field.2) before = before ++ fields by
    exact hgo [] h
  induction fields with
  | nil => exact fun before _ => (List.append_nil _).symm
  | cons field fields ih =>
    intro before hbefore
    have hless : ∀ x ∈ before, compare x.1 field.1 = .lt := by
      intro x hx
      exact (List.pairwise_append.mp hbefore).2.2 x hx field List.mem_cons_self
    have hcons : before ++ field :: fields = (before ++ [field]) ++ fields := by simp
    rw [hcons] at hbefore ⊢
    change fields.foldl _ (before.insert field.1 field.2) = _
    rw [insert_eq_append hless]
    exact ih (List.pairwise_cons.mp h).2 _ hbefore

/-- After setting a field the fields are the new one and others that were there. -/
theorem mem_insert {fields : Fields} {key : String} {value : Json} {field : String × Json}
    (h : field ∈ fields.insert key value) : field = (key, value) ∨ field ∈ fields := by
  induction fields with
  | nil => exact Or.inl (List.mem_singleton.mp h)
  | cons x fields ih =>
    obtain ⟨k, v⟩ := x
    rw [Fields.insert] at h
    split at h
    · exact List.mem_cons.mp h
    · exact (List.mem_cons.mp h).imp_right (List.mem_cons_of_mem _)
    · rcases List.mem_cons.mp h with rfl | h
      · exact Or.inr List.mem_cons_self
      · exact (ih h).imp_right (List.mem_cons_of_mem _)

/-- Fields stay sorted when one is set. -/
theorem sorted_insert {fields : Fields} (key : String) (value : Json) (h : fields.Sorted) :
    (fields.insert key value).Sorted := by
  induction fields with
  | nil => exact List.pairwise_singleton ..
  | cons field fields ih =>
    obtain ⟨k, v⟩ := field
    obtain ⟨hfirst, hfields⟩ := List.pairwise_cons.mp h
    rw [Fields.insert]
    split
    · next hlt =>
      refine List.pairwise_cons.mpr ⟨fun x hx => ?_, h⟩
      rcases List.mem_cons.mp hx with rfl | hx
      · exact hlt
      · exact Std.TransCmp.lt_trans hlt (hfirst x hx)
    · next heq =>
      obtain rfl := Std.LawfulEqOrd.eq_of_compare heq
      exact List.pairwise_cons.mpr ⟨hfirst, hfields⟩
    · next hgt =>
      refine List.pairwise_cons.mpr ⟨fun x hx => ?_, ih hfields⟩
      rcases mem_insert hx with rfl | hx
      · exact Std.OrientedCmp.lt_of_gt hgt
      · exact hfirst x hx

/-- A field found by its name is one of the fields. -/
theorem mem_of_get? {fields : Fields} {key : String} {value : Json} (h : fields.get? key = some value) :
    (key, value) ∈ fields := by
  induction fields with
  | nil => cases h
  | cons field fields ih =>
    obtain ⟨k, v⟩ := field
    rw [get?] at h
    split at h
    · next hk => rw [hk, Option.some.inj h]; exact List.mem_cons_self
    · exact List.mem_cons_of_mem _ (ih h)

end Fields

namespace Json

/-! ## Readable values -/

/-- What is written of the number is read as the number. -/
structure NumberReads (n : Number) : Prop where
  numeral : Lexeme.readNumeral? n.text.toList = some (numeralOf n, [])
  value : Number.ofNumeral? (numeralOf n) = some n

/-- A value with at most so many lists and objects nested, objects that have sorted fields, and numbers that can be read. -/
inductive Readable : Nat → Json → Prop
  | null (room : Nat) : Readable room null
  | bool (room : Nat) (b : Bool) : Readable room (bool b)
  | string (room : Nat) (s : String) : Readable room (string s)
  | number (room : Nat) {n : Number} (h : NumberReads n) : Readable room (number n)
  | list {room : Nat} {items : List Json} (h : ∀ item ∈ items, Readable room item) : Readable (room + 1) (list items)
  | object {room : Nat} {fields : Fields} (hsorted : fields.Sorted)
      (h : ∀ field ∈ fields, Readable room field.2) : Readable (room + 1) (object fields)

/-- A readable value is read as its lexemes. -/
theorem Readable.lexes {room : Nat} {v : Json} (h : Readable room v) (level : Nat) :
    Lexes (prettyText level v) (lexemes v) := by
  induction h generalizing level with
  | null => exact Lexes.single fun _ _ => rfl
  | bool room b => cases b <;> exact Lexes.single fun _ _ => rfl
  | string room s =>
    rw [prettyText, lexemes]
    exact Lexes.single fun rest _ => Lexeme.read?_stringText s rest
  | number room h =>
    rw [prettyText, lexemes]
    exact Lexes.single fun rest hrest => Lexeme.read?_of_readNumeral? hrest h.numeral
  | @list room items h ih =>
    cases items with
    | nil =>
      rw [prettyText, lexemes]
      exact Lexes.cons ['['] (fun _ => rfl) (Lexes.single fun _ _ => rfl)
    | cons item items =>
      obtain ⟨hitem, hitems⟩ := List.forall_mem_cons.mp ih
      obtain ⟨hlexes, hstop⟩ := lexes_prettyItems level fun item h => hitems item h _
      rw [prettyText, lexemes, List.append_assoc]
      exact lexes_line (fun _ => rfl) _ ((hitem _).append hstop hlexes)
  | @object room fields hsorted h ih =>
    cases fields with
    | nil =>
      rw [prettyText, lexemes]
      exact Lexes.cons ['{'] (fun _ => rfl) (Lexes.single fun _ _ => rfl)
    | cons field fields =>
      obtain ⟨key, value⟩ := field
      obtain ⟨hvalue, hfields⟩ := List.forall_mem_cons.mp ih
      obtain ⟨hlexes, hstop⟩ := lexes_prettyFields level fun field h => hfields field h _
      rw [prettyText, lexemes, List.append_assoc, List.append_assoc]
      exact lexes_line (fun _ => rfl) _ (lexes_name key ((hvalue _).append hstop hlexes))

/-! ## Trees -/

mutual

/-- The tree of a written value. -/
def tree : Json → Tree
  | null => .null
  | bool b => .bool b
  | number n => .number (numeralOf n)
  | string s => .string (units s)
  | list items => .list (trees items)
  | object fields => .object (namedTrees fields)

/-- The trees of the items of a list. -/
def trees : List Json → List Tree
  | [] => []
  | item :: items => tree item :: trees items

/-- The trees of the fields of an object, with their names. -/
def namedTrees : List (String × Json) → List (List TextUnit × Tree)
  | [] => []
  | (key, value) :: fields => (units key, tree value) :: namedTrees fields

end

namespace Progress

theorem run_cons (p : Progress) (l : Lexeme) (ls : List Lexeme) : p.run (l :: ls) = (p.step l).bind fun q => q.run ls :=
  List.foldlM_cons

/-- Behind an item of a list, the further items are read to the end of the list. -/
theorem run_itemLexemes {items : List Json}
    (h : ∀ item ∈ items, ∀ above, (value above).run (lexemes item) = some (complete above (tree item)))
    (above : List Frame) (before : List Tree) (last : Tree) :
    (complete (.list before :: above) last).run (itemLexemes items) =
      some (complete above (.list (before.reverse ++ last :: trees items))) := by
  induction items generalizing before last with
  | nil => 
    rw [itemLexemes, run_cons]
    simp [step, endValue, trees, run]
  | cons item items ih =>
    obtain ⟨hitem, hitems⟩ := List.forall_mem_cons.mp h
    rw [itemLexemes, run_cons, step, endValue, Option.bind_some, run_append, hitem, Option.bind_some, ih hitems]
    simp [trees]

/-- Behind a field of an object, the further fields are read to the end of the object. -/
theorem run_fieldLexemes {fields : List (String × Json)}
    (h : ∀ field ∈ fields, ∀ above, (value above).run (lexemes field.2) = some (complete above (tree field.2)))
    (above : List Frame) (before : List (List TextUnit × Tree)) (key : List TextUnit) (last : Tree) :
    (complete (.object before key :: above) last).run (fieldLexemes fields) =
      some (complete above (.object (before.reverse ++ (key, last) :: namedTrees fields))) := by
  induction fields generalizing before key last with
  | nil =>
    rw [fieldLexemes, run_cons]
    simp [step, endValue, namedTrees, run]
  | cons field fields ih =>
    obtain ⟨name, v⟩ := field
    obtain ⟨hvalue, hfields⟩ := List.forall_mem_cons.mp h
    rw [fieldLexemes, run_cons]
    simp only [step, endValue, Option.bind_some, run_cons]
    rw [run_append, hvalue, Option.bind_some, ih hfields]
    simp [namedTrees]

/-- The first lexeme of a value closes nothing. -/
theorem exists_lexemes_eq_cons (v : Json) :
    ∃ l ls, lexemes v = l :: ls ∧ l ≠ .closeList := by
  cases v with
  | null => exact ⟨_, _, by rw [lexemes], by decide⟩
  | bool b => exact ⟨_, _, by rw [lexemes], by simp⟩
  | number n => exact ⟨_, _, by rw [lexemes], by simp⟩
  | string s => exact ⟨_, _, by rw [lexemes], by simp⟩
  | list items => cases items <;> exact ⟨_, _, by rw [lexemes], by simp⟩
  | object fields =>
    cases fields with
    | nil => exact ⟨_, _, by rw [lexemes], by simp⟩
    | cons field fields => exact ⟨_, _, by rw [lexemes], by simp⟩

/-- The first item of a list is read as any value. -/
theorem run_openedList (above : List Frame) (v : Json) :
    (openedList above).run (lexemes v) = (value (.list [] :: above)).run (lexemes v) := by
  obtain ⟨l, ls, hl, hne⟩ := exists_lexemes_eq_cons v
  rw [hl, run_cons, run_cons]
  congr 1
  cases l <;> first | rfl | exact absurd rfl hne

end Progress

/-- The lexemes of a readable value are read as its tree. -/
theorem Readable.run {room : Nat} {v : Json} (h : Readable room v) (above : List Frame) :
    (Progress.value above).run (lexemes v) = some (.complete above (tree v)) := by
  induction h generalizing above with
  | null => rfl
  | bool room b => rfl
  | string room s => rfl
  | number room h => rfl
  | @list room items h ih =>
    cases items with
    | nil => rfl
    | cons item items =>
      obtain ⟨hitem, hitems⟩ := List.forall_mem_cons.mp ih
      rw [lexemes, Progress.run_cons, Progress.step, Progress.startValue, Option.bind_some, Progress.run_append,
        Progress.run_openedList, hitem, Option.bind_some, Progress.run_itemLexemes hitems]
      simp [tree, trees]
  | @object room fields hsorted h ih =>
    cases fields with
    | nil => rfl
    | cons field fields =>
      obtain ⟨key, value⟩ := field
      obtain ⟨hvalue, hfields⟩ := List.forall_mem_cons.mp ih
      rw [lexemes, Progress.run_cons, Progress.step, Progress.startValue, Option.bind_some, Progress.run_cons,
        Progress.step, Option.bind_some, Progress.run_cons, Progress.step, Option.bind_some, Progress.run_append, hvalue,
        Option.bind_some, Progress.run_fieldLexemes hfields]
      simp [tree, namedTrees]

/-! ## Values -/

/-- The tree of a readable value has the value. -/
theorem Readable.ofTree? {room : Nat} {v : Json} (h : Readable room v) : ofTree? room (tree v) = some v := by
  induction h with
  | null => rfl
  | bool room b => rfl
  | string room s => simp [tree, Json.ofTree?, text?_units]
  | number room h => simp [tree, Json.ofTree?, h.value]
  | @list room items h ih =>
    have hitems : ofTrees? room (trees items) = some items := by
      induction items with
      | nil => rfl
      | cons item items ihitems =>
        obtain ⟨hitem, hitems⟩ := List.forall_mem_cons.mp ih
        obtain ⟨hi, his⟩ := List.forall_mem_cons.mp h
        simp [trees, ofTrees?, hitem, ihitems his hitems]
    simp [tree, Json.ofTree?, hitems]
  | @object room fields hsorted h ih =>
    have hfields : ofNamedTrees? room (namedTrees fields) = some fields := by
      clear hsorted
      induction fields with
      | nil => rfl
      | cons field fields ihfields =>
        obtain ⟨key, value⟩ := field
        obtain ⟨hvalue, hfields⟩ := List.forall_mem_cons.mp ih
        obtain ⟨hv, hvs⟩ := List.forall_mem_cons.mp h
        simp [namedTrees, ofNamedTrees?, text?_units, hvalue, ihfields hvs hfields]
    simp [tree, Json.ofTree?, hfields, Fields.ofList_eq_self hsorted]

/-- Reading what was written of a value gives the value. -/
def ReadsBack (value : Json) : Prop :=
  read? value.pretty = some value

/-- A readable value is read back as it was written. -/
theorem Readable.readsBack {v : Json} (h : Readable maxDepth v) : v.ReadsBack := by
  have hlexemes : Lexeme.ofText? (prettyText 0 v) = some (lexemes v) := by
    have hlexes := h.lexes 0 [] (by rintro c ⟨⟩)
    have hend : Lexeme.ofText? [] = some [] := by rw [Lexeme.ofText?]; rfl
    rw [List.append_nil, hend, Option.map_some, List.append_nil] at hlexes
    exact hlexes
  rw [ReadsBack, read?, Tree.ofText?, pretty, String.toList_ofList, hlexemes]
  simp only [Option.bind_eq_bind, Option.bind_some, h.run, Progress.tree?, h.ofTree?]

/-! ## What is readable -/

/-- A whole number of 64 bits, with or without a sign, is read back. -/
theorem numberReads_integer {n : Int} (hlow : n < 0 → n.natAbs ≤ Nat.pow 2 63) (hhigh : n.natAbs ≤ Numeral.maxWord) :
    NumberReads (.integer n) := by
  have hread : Lexeme.readNumeral? (Number.integer n).text.toList =
      some (⟨decide (n < 0), Lexeme.digitsOf n.natAbs, none, none⟩, []) := Lexeme.readNumeral?_toString n
  have hnumeral : numeralOf (.integer n) = ⟨decide (n < 0), Lexeme.digitsOf n.natAbs, none, none⟩ := by
    rw [numeralOf, hread]
    rfl
  refine ⟨by rw [hread, hnumeral], ?_⟩
  have hwhole : (numeralOf (.integer n)).isWhole = true := by
    rw [hnumeral]
    rfl
  have hsign : (numeralOf (.integer n)).negative = decide (n < 0) := by rw [hnumeral]
  have hsize : (numeralOf (.integer n)).wholePart = n.natAbs := by
    rw [hnumeral]
    exact Lexeme.foldl_digitsOf _
  unfold Number.ofNumeral?
  dsimp only
  rw [hwhole, hsign, hsize]
  by_cases hn : n < 0
  · have hpos : 0 < n.natAbs := by omega
    have habs : -(n.natAbs : Int) = n := by omega
    rw [decide_eq_true hn, decide_eq_true hpos, decide_eq_true (hlow hn), habs]
    rfl
  · have habs : (n.natAbs : Int) = n := by omega
    rw [decide_eq_false hn, decide_eq_true hhigh, habs]
    rfl

/-- An object of two readable fields is readable. -/
theorem Readable.pair {room : Nat} {k l : String} {v w : Json} (hkl : compare k l = .lt) (hv : Readable room v)
    (hw : Readable room w) : Readable (room + 1) (.object [(k, v), (l, w)]) :=
  .object (List.pairwise_pair.mpr hkl) (List.forall_mem_cons.mpr ⟨hv, List.forall_mem_singleton.mpr hw⟩)

/-- An object stays readable when a field is set to a readable value. -/
theorem Readable.insert {room : Nat} {fields : Fields} {value : Json} (h : Readable (room + 1) (.object fields))
    (hv : Readable room value) (key : String) : Readable (room + 1) (.object (fields.insert key value)) := by
  cases h with
  | object hsorted h =>
    refine .object (Fields.sorted_insert key value hsorted) fun field hfield => ?_
    rcases Fields.mem_insert hfield with rfl | hfield
    · exact hv
    · exact h field hfield

/-- The items of a list in a field of a readable object are readable. -/
theorem Readable.items {room : Nat} {fields : Fields} (h : Readable (room + 2) (.object fields)) (key : String) :
    ∀ item ∈ ((fields.get? key).bind asList?).getD [], Readable room item := by
  intro item hitem
  cases h with
  | object _ h =>
    cases hget : fields.get? key with
    | none => simp [hget] at hitem
    | some value =>
      have hvalue := h (key, value) (Fields.mem_of_get? hget)
      rw [hget, Option.bind_some] at hitem
      cases hvalue with
      | list hitems => exact hitems item hitem
      | _ => cases hitem

end Json

end PromptMacros
