import PromptMacros.Json.Lexeme

/-!
# Reading numerals

A numeral ends where no character of a numeral follows, so it is read alike whatever comes behind it
(`readNumeral?_append`), and it is one lexeme (`read?_of_readNumeral?`). The digits that are written of a whole number are
read as the number (`readNumeral?_toString`, `foldl_digitsOf`).
-/

namespace PromptMacros.Json.Lexeme

/-- A numeral may go on with this character. -/
def goesOn (c : Char) : Bool :=
  c.isDigit || c = '.' || c = 'e' || c = 'E'

/-- No numeral goes on with what follows. -/
def Ends (rest : List Char) : Prop :=
  ∀ c, rest.head? = some c → goesOn c = false

variable {cs r rest : List Char} {digits : List Nat}

theorem readDigits_cons (c : Char) (cs : List Char) :
    readDigits (c :: cs) =
      if c.isDigit then ((c.toNat - '0'.toNat) :: (readDigits cs).1, (readDigits cs).2) else ([], c :: cs) := by
  by_cases hc : c.isDigit = true <;> simp [readDigits, hc]

/-- Digits are read as before when what follows does not go on with a digit. -/
theorem readDigits_append (hrest : Ends rest) (cs : List Char) :
    readDigits (cs ++ rest) = ((readDigits cs).1, (readDigits cs).2 ++ rest) := by
  induction cs with
  | nil =>
    cases rest with
    | nil => rfl
    | cons c rest =>
      have hc : ¬c.isDigit = true := by
        intro hc
        simpa [goesOn, hc] using hrest c rfl
      rw [List.nil_append, readDigits_cons, if_neg hc]
      rfl
  | cons c cs ih =>
    rw [List.cons_append, readDigits_cons, readDigits_cons, ih]
    split <;> rfl

theorem readDigits?_append (hrest : Ends rest) (h : readDigits? cs = some (digits, r)) :
    readDigits? (cs ++ rest) = some (digits, r ++ rest) := by
  unfold readDigits? at *
  dsimp only at h ⊢
  rw [readDigits_append hrest]
  split at h
  · cases h
  · next hne =>
    rw [if_neg hne, Option.some.inj h]

theorem readWhole?_append (hrest : Ends rest) (h : readWhole? cs = some (digits, r)) :
    readWhole? (cs ++ rest) = some (digits, r ++ rest) := by
  obtain ⟨found, hfound, h⟩ := Option.bind_eq_some_iff.mp h
  obtain ⟨u, hguard, h⟩ := Option.bind_eq_some_iff.mp h
  obtain rfl := Option.some.inj h
  have hfound := readDigits?_append hrest hfound
  exact Option.bind_eq_some_iff.mpr ⟨_, hfound, Option.bind_eq_some_iff.mpr ⟨u, hguard, rfl⟩⟩

theorem readFraction?_append {fraction : Option (List Nat)} (hrest : Ends rest)
    (h : readFraction? cs = some (fraction, r)) : readFraction? (cs ++ rest) = some (fraction, r ++ rest) := by
  unfold readFraction? at h
  split at h
  · next cs =>
    obtain ⟨⟨ds, left⟩, hds, h⟩ := Option.map_eq_some_iff.mp h
    obtain ⟨rfl, rfl⟩ := Prod.mk.inj h
    rw [List.cons_append, readFraction?, readDigits?_append hrest hds]
    rfl
  · next hpoint =>
    obtain ⟨rfl, rfl⟩ := Prod.mk.inj (Option.some.inj h)
    unfold readFraction?
    split
    · next heq =>
      cases cs with
      | nil => exact absurd (hrest '.' (by rw [List.nil_append] at heq; rw [heq]; rfl)) (by decide)
      | cons c cs => exact absurd (List.cons.inj heq).1 fun hc => hpoint cs (by rw [hc])
    · rfl

theorem readPower?_append {power : Option Int} (hrest : Ends rest) (h : readPower? cs = some (power, r)) :
    readPower? (cs ++ rest) = some (power, r ++ rest) := by
  cases cs with
  | nil =>
    obtain ⟨rfl, rfl⟩ := Prod.mk.inj (Option.some.inj h)
    cases rest with
    | nil => rfl
    | cons c rest =>
      have hc := hrest c rfl
      unfold readPower?
      exact if_neg (by rintro (rfl | rfl) <;> simp [goesOn] at hc)
  | cons c cs =>
    rw [List.cons_append]
    unfold readPower? at h ⊢
    dsimp only at h ⊢
    split at h
    · next hc =>
      rw [if_pos hc]
      split at h
      · next cs =>
        obtain ⟨⟨ds, left⟩, hds, h⟩ := Option.map_eq_some_iff.mp h
        obtain ⟨rfl, rfl⟩ := Prod.mk.inj h
        change Option.map _ (readDigits? (cs ++ rest)) = _
        rw [readDigits?_append hrest hds]
        rfl
      · next cs =>
        obtain ⟨⟨ds, left⟩, hds, h⟩ := Option.map_eq_some_iff.mp h
        obtain ⟨rfl, rfl⟩ := Prod.mk.inj h
        change Option.map _ (readDigits? (cs ++ rest)) = _
        rw [readDigits?_append hrest hds]
        rfl
      · next hminus hplus =>
        obtain ⟨⟨ds, left⟩, hds, h⟩ := Option.map_eq_some_iff.mp h
        obtain ⟨rfl, rfl⟩ := Prod.mk.inj h
        cases cs with
        | nil => cases hds
        | cons d cs =>
          rw [List.cons_append]
          split
          · next heq => exact absurd (List.cons.inj heq).1 fun hd => hminus cs (by rw [hd])
          · next heq => exact absurd (List.cons.inj heq).1 fun hd => hplus cs (by rw [hd])
          · rw [← List.cons_append, readDigits?_append hrest hds]
            rfl
    · next hc =>
      obtain ⟨rfl, rfl⟩ := Prod.mk.inj (Option.some.inj h)
      rw [if_neg hc]
      rfl

theorem readUnsigned?_append {negative : Bool} {n : Numeral} (hrest : Ends rest)
    (h : readUnsigned? negative cs = some (n, r)) : readUnsigned? negative (cs ++ rest) = some (n, r ++ rest) := by
  obtain ⟨⟨whole, cs₁⟩, h₁, h⟩ := Option.bind_eq_some_iff.mp h
  obtain ⟨⟨fraction, cs₂⟩, h₂, h⟩ := Option.bind_eq_some_iff.mp h
  obtain ⟨⟨power, cs₃⟩, h₃, h⟩ := Option.bind_eq_some_iff.mp h
  obtain ⟨rfl, rfl⟩ := Prod.mk.inj (Option.some.inj h)
  rw [readUnsigned?, readWhole?_append hrest h₁]
  simp only [Option.bind_eq_bind, Option.bind_some, readFraction?_append hrest h₂, readPower?_append hrest h₃,
    Option.pure_def]

/-- A numeral starts with a minus sign or a digit. -/
theorem exists_eq_cons_of_readNumeral? {n : Numeral} (h : readNumeral? cs = some (n, r)) :
    ∃ c ds, cs = c :: ds ∧ (c = '-' ∨ c.isDigit = true) := by
  unfold readNumeral? at h
  split at h
  · exact ⟨'-', _, rfl, Or.inl rfl⟩
  · obtain ⟨⟨whole, cs₁⟩, h₁, -⟩ := Option.bind_eq_some_iff.mp h
    obtain ⟨found, hfound, -⟩ := Option.bind_eq_some_iff.mp h₁
    unfold readDigits? at hfound
    dsimp only at hfound
    cases cs with
    | nil => cases hfound
    | cons c cs =>
      refine ⟨c, cs, rfl, Or.inr ?_⟩
      rw [readDigits_cons] at hfound
      cases hc : c.isDigit with
      | true => rfl
      | false => simp [hc] at hfound

/-- A numeral is read as before when what follows does not go on with it. -/
theorem readNumeral?_append {n : Numeral} (hrest : Ends rest) (h : readNumeral? cs = some (n, r)) :
    readNumeral? (cs ++ rest) = some (n, r ++ rest) := by
  unfold readNumeral? at h
  split at h
  · next cs => exact readUnsigned?_append hrest h
  · next hminus =>
    unfold readNumeral?
    split
    · next heq =>
      cases cs with
      | nil => cases h
      | cons c cs => exact absurd (List.cons.inj heq).1 fun hc => hminus cs (by rw [hc])
    · exact readUnsigned?_append hrest h

/-- What is written of a numeral is read as one lexeme. -/
theorem read?_of_readNumeral? {n : Numeral} (hrest : Ends rest) (h : readNumeral? cs = some (n, [])) :
    read? (cs ++ rest) = some (number n, rest) := by
  obtain ⟨c, cs, rfl, hstart⟩ := exists_eq_cons_of_readNumeral? h
  have happend := readNumeral?_append hrest h
  rw [List.cons_append] at happend ⊢
  unfold read?
  split
  · next heq => cases heq
  iterate 7
    · next heq =>
      obtain ⟨rfl, -⟩ := List.cons.inj heq
      exact absurd hstart (by decide)
  · next heq =>
    obtain ⟨rfl, rfl⟩ := List.cons.inj heq
    rw [if_pos hstart, happend]
    rfl

/-! ## Whole numbers -/

/-- The digits of a number as they are written. -/
def digitsOf (n : Nat) : List Nat :=
  (Nat.toDigits 10 n).map fun c => c.toNat - '0'.toNat

/-- The digits of a number stand for the number. -/
theorem foldl_digitsOf (n : Nat) : (digitsOf n).foldl (fun value digit => 10 * value + digit) 0 = n := by
  rw [digitsOf, List.foldl_map]
  exact Nat.ofDigitChars_toDigits (by decide) (by decide)

/-- The digits of a number other than zero start with a digit other than zero. -/
theorem exists_head?_digitsOf {n : Nat} (hn : n ≠ 0) : ∃ d, (digitsOf n).head? = some d ∧ d ≠ 0 := by
  have hdigit : ∀ d < 10, d ≠ 0 → (Nat.digitChar d).toNat - '0'.toNat ≠ 0 := by decide
  induction n using Nat.strongRecOn with
  | ind n ih =>
    rw [digitsOf, Nat.toDigits_eq_if (by decide)]
    split
    · next hlt => exact ⟨_, rfl, hdigit n hlt hn⟩
    · next hge =>
      obtain ⟨d, hd, hne⟩ := ih (n / 10) (by omega) (by omega)
      refine ⟨d, ?_, hne⟩
      rw [List.map_append, List.head?_append, ← digitsOf, hd]
      rfl

/-- A row of digits is read to the end. -/
theorem readDigits_of_forall (h : ∀ c ∈ cs, c.isDigit = true) :
    readDigits cs = (cs.map fun c => c.toNat - '0'.toNat, []) := by
  induction cs with
  | nil => rfl
  | cons c cs ih =>
    obtain ⟨hc, hcs⟩ := List.forall_mem_cons.mp h
    rw [readDigits_cons, if_pos hc, ih hcs]
    rfl

/-- The digits of a number are read to the end. -/
theorem readWhole?_toDigits (n : Nat) : readWhole? (Nat.toDigits 10 n) = some (digitsOf n, []) := by
  have hread : readDigits (Nat.toDigits 10 n) = (digitsOf n, []) :=
    readDigits_of_forall fun c => Nat.isDigit_of_mem_toDigits (by decide) (by decide)
  have hdigits : digitsOf n ≠ [] ∧ (digitsOf n = [0] ∨ (digitsOf n).head? ≠ some 0) := by
    by_cases hn : n = 0
    · subst hn
      decide
    · obtain ⟨d, hd, hne⟩ := exists_head?_digitsOf hn
      refine ⟨?_, Or.inr (by simpa [hd] using hne)⟩
      intro h
      rw [h] at hd
      cases hd
  have hfound : readDigits? (Nat.toDigits 10 n) = some (digitsOf n, []) := by
    rw [readDigits?, hread]
    exact if_neg hdigits.1
  have hguard : guard (digitsOf n = [0] ∨ (digitsOf n).head? ≠ some 0) = some () := if_pos hdigits.2
  exact Option.bind_eq_some_iff.mpr ⟨_, hfound, Option.bind_eq_some_iff.mpr ⟨(), hguard, rfl⟩⟩

theorem readUnsigned?_toDigits (negative : Bool) (n : Nat) :
    readUnsigned? negative (Nat.toDigits 10 n) = some (⟨negative, digitsOf n, none, none⟩, []) := by
  rw [readUnsigned?, readWhole?_toDigits]
  rfl

/-- A whole number is read as a numeral of its digits. -/
theorem readNumeral?_toString (n : Int) :
    readNumeral? (toString n).toList = some (⟨decide (n < 0), digitsOf n.natAbs, none, none⟩, []) := by
  rw [Int.toString_eq_repr, Int.repr_eq_if]
  split
  · next h =>
    have hall : ∀ c ∈ Nat.toDigits 10 n.toNat, c.isDigit = true :=
      fun c => Nat.isDigit_of_mem_toDigits (by decide) (by decide)
    rw [Nat.toList_repr, decide_eq_false (by omega), show n.natAbs = n.toNat by omega, ← readUnsigned?_toDigits]
    unfold readNumeral?
    split
    · next heq =>
      rw [heq] at hall
      exact absurd (hall '-' List.mem_cons_self) (by decide)
    · rfl
  · next h =>
    have htext : ("-" ++ (-n).toNat.repr).toList = '-' :: Nat.toDigits 10 n.natAbs := by
      rw [String.toList_append, Nat.toList_repr, show n.natAbs = (-n).toNat by omega]
      rfl
    rw [htext, decide_eq_true (by omega), readNumeral?, readUnsigned?_toDigits]

end PromptMacros.Json.Lexeme
