import PromptMacros.Proofs.Json.RoundTrip

/-!
# Whole numbers that are read

A whole number is read as one only when it fits 64 bits, with a sign or without one, and every other number as one of double
precision. So the whole numbers in a value that was read all fit (`Json.fits_of_read?`), however deep they stand in it.
-/

namespace PromptMacros

/-- A whole number fits 64 bits, with a sign or without one. -/
def FitsWord (n : Int) : Prop :=
  -Int.pow 2 63 ≤ n ∧ n < Int.pow 2 64

/-- A numeral that is read as a whole number fits. -/
theorem Number.fitsWord_of_ofNumeral? {numeral : Numeral} {n : Int} (h : ofNumeral? numeral = some (.integer n)) :
    FitsWord n := by
  have hsigned : Int.pow 2 63 = 9223372036854775808 := by decide
  have hunsigned : Int.pow 2 64 = 18446744073709551616 := by decide
  have hword : Numeral.maxWord = 18446744073709551615 := by decide
  have hsize : Nat.pow 2 63 = 9223372036854775808 := by decide
  unfold ofNumeral? at h
  unfold FitsWord
  dsimp only at h
  rw [hsigned, hunsigned]
  split at h
  · next hwhole =>
    obtain rfl := Number.integer.inj (Option.some.inj h)
    simp only [Bool.and_eq_true, decide_eq_true_eq, hword] at hwhole
    omega
  · split at h
    · next hwhole =>
      obtain rfl := Number.integer.inj (Option.some.inj h)
      simp only [Bool.and_eq_true, decide_eq_true_eq, hsize] at hwhole
      omega
    · obtain ⟨x, -, hx⟩ := Option.map_eq_some_iff.mp h
      cases hx

/-- The fields of a list, sorted, are fields of the list. -/
theorem Fields.mem_of_mem_ofList {fields : List (String × Json)} {field : String × Json} (h : field ∈ ofList fields) :
    field ∈ fields := by
  suffices hgo : ∀ before : Fields, field ∈ fields.foldl (fun fs field => fs.insert field.1 field.2) before →
      field ∈ before ∨ field ∈ fields by
    exact (hgo [] h).resolve_left List.not_mem_nil
  clear h
  induction fields with
  | nil => exact fun before h => Or.inl h
  | cons x fields ih =>
    intro before h
    rcases ih (before.insert x.1 x.2) h with hbefore | hfields
    · rcases mem_insert hbefore with rfl | hbefore
      · exact Or.inr List.mem_cons_self
      · exact Or.inl hbefore
    · exact Or.inr (List.mem_cons_of_mem x hfields)

namespace Json

/-- The whole numbers in a value all fit. -/
inductive Fits : Json → Prop
  | null : Fits null
  | bool (b : Bool) : Fits (bool b)
  | integer {n : Int} (h : FitsWord n) : Fits (number (.integer n))
  | double (x : Double) : Fits (number (.double x))
  | string (s : String) : Fits (string s)
  | list {items : List Json} (h : ∀ item ∈ items, Fits item) : Fits (list items)
  | object {fields : Fields} (h : ∀ field ∈ fields, Fits field.2) : Fits (object fields)

mutual

/-- The whole numbers in the value of a tree fit. -/
theorem fits_of_ofTree? {room : Nat} : ∀ {t : Tree} {v : Json}, ofTree? room t = some v → Fits v
  | .null, v, h => by
    obtain rfl := Option.some.inj h
    exact .null
  | .bool b, v, h => by
    obtain rfl := Option.some.inj h
    exact .bool b
  | .number numeral, v, h => by
    rw [ofTree?] at h
    obtain ⟨n, hn, rfl⟩ := Option.map_eq_some_iff.mp h
    cases n with
    | integer n => exact .integer (Number.fitsWord_of_ofNumeral? hn)
    | double x => exact .double x
  | .string units, v, h => by
    rw [ofTree?] at h
    obtain ⟨s, -, rfl⟩ := Option.map_eq_some_iff.mp h
    exact .string s
  | .list items, v, h => by
    cases room with
    | zero => cases h
    | succ room =>
      rw [ofTree?] at h
      obtain ⟨values, hvalues, rfl⟩ := Option.map_eq_some_iff.mp h
      exact .list (fits_of_ofTrees? hvalues)
  | .object fields, v, h => by
    cases room with
    | zero => cases h
    | succ room =>
      rw [ofTree?] at h
      obtain ⟨values, hvalues, rfl⟩ := Option.map_eq_some_iff.mp h
      exact .object fun field hfield => fits_of_ofNamedTrees? hvalues field (Fields.mem_of_mem_ofList hfield)

/-- The whole numbers in the values of the items of a list fit. -/
theorem fits_of_ofTrees? {room : Nat} :
    ∀ {ts : List Tree} {values : List Json}, ofTrees? room ts = some values → ∀ v ∈ values, Fits v
  | [], values, h => by
    obtain rfl := Option.some.inj h
    exact fun v hv => absurd hv List.not_mem_nil
  | t :: ts, values, h => by
    rw [ofTrees?] at h
    obtain ⟨v, hv, h⟩ := Option.bind_eq_some_iff.mp h
    obtain ⟨vs, hvs, h⟩ := Option.bind_eq_some_iff.mp h
    obtain rfl := Option.some.inj h
    exact List.forall_mem_cons.mpr ⟨fits_of_ofTree? hv, fits_of_ofTrees? hvs⟩

/-- The whole numbers in the values of the fields of an object fit. -/
theorem fits_of_ofNamedTrees? {room : Nat} :
    ∀ {ts : List (List TextUnit × Tree)} {values : List (String × Json)}, ofNamedTrees? room ts = some values →
      ∀ field ∈ values, Fits field.2
  | [], values, h => by
    obtain rfl := Option.some.inj h
    exact fun v hv => absurd hv List.not_mem_nil
  | (key, t) :: ts, values, h => by
    rw [ofNamedTrees?] at h
    obtain ⟨name, -, h⟩ := Option.bind_eq_some_iff.mp h
    obtain ⟨v, hv, h⟩ := Option.bind_eq_some_iff.mp h
    obtain ⟨vs, hvs, h⟩ := Option.bind_eq_some_iff.mp h
    obtain rfl := Option.some.inj h
    exact List.forall_mem_cons.mpr ⟨fits_of_ofTree? hv, fits_of_ofNamedTrees? hvs⟩

end

/-- The whole numbers in a value that was read fit. -/
theorem fits_of_read? {text : String} {v : Json} (h : read? text = some v) : Fits v := by
  obtain ⟨t, -, ht⟩ := Option.bind_eq_some_iff.mp h
  exact fits_of_ofTree? ht

/-- The value of a field fits when the object does. -/
theorem Fits.get? {v value : Json} {key : String} (h : Fits v) (hget : v.get? key = some value) : Fits value := by
  cases h with
  | object h => exact h (key, value) (Fields.mem_of_get? hget)
  | _ => cases hget

/-- The items of a list fit when the list does. -/
theorem Fits.item {v item : Json} {items : List Json} (h : Fits v) (hlist : v.asList? = some items) (hitem : item ∈ items) :
    Fits item := by
  cases h with
  | list h =>
    obtain rfl := Option.some.inj hlist
    exact h item hitem
  | _ => cases hlist

end Json

end PromptMacros
