import PromptMacros.Json.Printer
import PromptMacros.Proofs.Json.Numeral

/-!
# The lexemes of written JSON

A text is read back from what is written for it, whatever characters it has (`Lexeme.read?_stringText`). Characters are read as
lexemes whatever follows them (`Lexes`) when no numeral goes on behind them; so what is written of the items of a list and of
the fields of an object is read item by item and field by field (`lexes_prettyItems`, `lexes_prettyFields`).
-/

namespace PromptMacros.Json

/-! ## Strings -/

/-- The units of a text, one for each of its characters. -/
def units (s : String) : List TextUnit :=
  s.toList.map TextUnit.char

/-- The units of a text stand for the text. -/
theorem text?_units (s : String) : TextUnit.text? (units s) = some s := by
  have hdecode : ∀ cs : List Char, TextUnit.decode? (cs.map TextUnit.char) = some cs := by
    intro cs
    induction cs with
    | nil => rfl
    | cons c cs ih => rw [List.map_cons, TextUnit.decode?, ih]; rfl
  rw [TextUnit.text?, units, hdecode, Option.map_some, String.ofList_toList]

namespace Lexeme

/-- A character is read back from what is written for it. -/
theorem readString?_escaped {cs rest : List Char} {us : List TextUnit} (h : readString? cs = some (us, rest)) (c : Char) :
    readString? (escaped c ++ cs) = some (.char c :: us, rest) := by
  have hcode : ∀ n < 0x20, hexCode? '0' '0' (Nat.digitChar (n / 16)) (Nat.digitChar (n % 16)) = some n := by decide
  unfold escaped
  split
  iterate 7
    · simp [readString?, shortEscape?, h]
  · next hquote hslash _ _ _ _ _ =>
    split
    · next hlt =>
      have hunit : TextUnit.ofCode c.toNat = .char c := by
        rw [TextUnit.ofCode, if_neg (by omega), Char.ofNat_toNat]
      simp [readString?, hcode _ hlt, h, hunit]
    · next hge =>
      rw [List.singleton_append, readString?.eq_def]
      split
      · next heq => cases heq
      · next heq => exact absurd (List.cons.inj heq).1 hquote
      · next heq => exact absurd (List.cons.inj heq).1 hslash
      · next heq => exact absurd (List.cons.inj heq).1 hslash
      · next heq =>
        obtain ⟨rfl, rfl⟩ := List.cons.inj heq
        rw [if_pos ⟨Nat.le_of_not_lt hge, hslash⟩, h]
        rfl

/-- A text is read back from what is written between its quotes. -/
theorem readString?_flatMap_escaped (cs rest : List Char) :
    readString? (cs.flatMap escaped ++ '"' :: rest) = some (cs.map TextUnit.char, rest) := by
  induction cs with
  | nil => simp [readString?]
  | cons c cs ih =>
    rw [List.flatMap_cons, List.append_assoc, readString?_escaped ih]
    rfl

/-- A text is read back from what is written for it. -/
theorem read?_stringText (s : String) (rest : List Char) :
    read? (stringText s ++ rest) = some (string (units s), rest) := by
  have hsplit : stringText s ++ rest = '"' :: (s.toList.flatMap escaped ++ '"' :: rest) := by simp [stringText]
  rw [hsplit, read?, readString?_flatMap_escaped]
  rfl

/-! ## Rows of lexemes -/

variable {l : Lexeme} {cs ds rest : List Char}

/-- A lexeme does not start with white space. -/
theorem isSpace_of_read? {c : Char} (h : read? (c :: cs) = some (l, rest)) : isSpace c = false := by
  cases hspace : isSpace c with
  | false => rfl
  | true =>
    simp only [isSpace, Bool.or_eq_true, decide_eq_true_eq] at hspace
    rcases hspace with ((rfl | rfl) | rfl) | rfl <;> simp [read?, readName?, Text.after?] at h

/-- White space before a text does not count. -/
theorem ofText?_congr (h : skipSpace cs = skipSpace ds) : ofText? cs = ofText? ds := by
  rw [ofText?, ofText?, h]

/-- The lexemes of a text are its first one and those behind it. -/
theorem ofText?_of_read? (h : read? cs = some (l, rest)) : ofText? cs = (ofText? rest).map (l :: ·) := by
  have hskip : skipSpace cs = cs := by
    cases cs with
    | nil => rfl
    | cons c cs => rw [skipSpace, List.dropWhile_cons_of_neg (by simp [isSpace_of_read? h])]
  rw [ofText?, hskip, if_neg (by rintro rfl; cases h)]
  split
  · next h' => rw [h] at h'; cases h'
  · next h' =>
    rw [h] at h'
    obtain ⟨rfl, rfl⟩ := Prod.mk.inj (Option.some.inj h')
    rfl

end Lexeme

/-- The characters are read as these lexemes, whatever follows them. -/
def Lexes (cs : List Char) (ls : List Lexeme) : Prop :=
  ∀ rest, Lexeme.Ends rest → Lexeme.ofText? (cs ++ rest) = (Lexeme.ofText? rest).map (ls ++ ·)

namespace Lexes

variable {xs ys : List Char} {l : Lexeme} {ls ms : List Lexeme}

/-- One lexeme. -/
theorem single (h : ∀ rest, Lexeme.Ends rest → Lexeme.read? (xs ++ rest) = some (l, rest)) : Lexes xs [l] := by
  intro rest hrest
  exact Lexeme.ofText?_of_read? (h rest hrest)

/-- A lexeme that ends whatever follows it, and lexemes behind it. -/
theorem cons (xs : List Char) (hl : ∀ rest, Lexeme.read? (xs ++ rest) = some (l, rest)) (h : Lexes ys ls) :
    Lexes (xs ++ ys) (l :: ls) := by
  intro rest hrest
  rw [List.append_assoc, Lexeme.ofText?_of_read? (hl _), h rest hrest, Option.map_map]
  rfl

/-- White space, and lexemes behind it. -/
theorem space (xs : List Char) (hxs : ∀ c ∈ xs, Lexeme.isSpace c = true) (h : Lexes ys ls) : Lexes (xs ++ ys) ls := by
  intro rest hrest
  rw [← h rest hrest]
  refine Lexeme.ofText?_congr ?_
  rw [List.append_assoc, Lexeme.skipSpace, List.dropWhile_append_of_pos hxs]
  rfl

/-- Lexemes, and lexemes behind them that do not go on with a numeral. -/
theorem append (h : Lexes xs ls) (hys : ∃ c, ys.head? = some c ∧ Lexeme.goesOn c = false) (h' : Lexes ys ms) :
    Lexes (xs ++ ys) (ls ++ ms) := by
  intro rest hrest
  obtain ⟨c, hc, hstop⟩ := hys
  have hends : Lexeme.Ends (ys ++ rest) := by
    intro d hd
    rw [List.head?_append, hc] at hd
    rwa [← Option.some.inj hd]
  rw [List.append_assoc, h _ hends, h' rest hrest, Option.map_map]
  congr 1
  funext ns
  exact (List.append_assoc ..).symm

end Lexes

/-! ## Written values -/

/-- The numeral that is read from what is written of a number. -/
def numeralOf (n : Number) : Numeral :=
  ((Lexeme.readNumeral? n.text.toList).map Prod.fst).getD ⟨false, [], none, none⟩

mutual

/-- The lexemes of a written value. -/
def lexemes : Json → List Lexeme
  | null => [.null]
  | bool b => [.bool b]
  | number n => [.number (numeralOf n)]
  | string s => [.string (units s)]
  | list [] => [.openList, .closeList]
  | list (item :: items) => .openList :: (lexemes item ++ itemLexemes items)
  | object [] => [.openObject, .closeObject]
  | object ((key, value) :: fields) =>
    .openObject :: .string (units key) :: .colon :: (lexemes value ++ fieldLexemes fields)

/-- The lexemes of the further items of a list, and its end. -/
def itemLexemes : List Json → List Lexeme
  | [] => [.closeList]
  | item :: items => .comma :: (lexemes item ++ itemLexemes items)

/-- The lexemes of the further fields of an object, and its end. -/
def fieldLexemes : List (String × Json) → List Lexeme
  | [] => [.closeObject]
  | (key, value) :: fields => .comma :: .string (units key) :: .colon :: (lexemes value ++ fieldLexemes fields)

end

theorem isSpace_of_mem_newLine {level : Nat} : ∀ c ∈ newLine level, Lexeme.isSpace c = true := by
  intro c hc
  rcases List.mem_cons.mp hc with rfl | hc
  · rfl
  · rw [(List.mem_replicate.mp hc).2]
    rfl

/-- A lexeme, a new line and what is written behind them. -/
theorem lexes_line {c : Char} {l : Lexeme} {cs : List Char} {ls : List Lexeme}
    (hc : ∀ rest, Lexeme.read? (c :: rest) = some (l, rest)) (level : Nat) (h : Lexes cs ls) :
    Lexes (c :: newLine level ++ cs) (l :: ls) :=
  Lexes.cons [c] hc (Lexes.space _ isSpace_of_mem_newLine h)

/-- The further items of a list are read as their lexemes, if each item is. -/
theorem lexes_prettyItems {items : List Json} (level : Nat)
    (h : ∀ item ∈ items, Lexes (prettyText (level + 1) item) (lexemes item)) :
    Lexes (prettyItems level items) (itemLexemes items) ∧
      ∃ c, (prettyItems level items).head? = some c ∧ Lexeme.goesOn c = false := by
  induction items with
  | nil =>
    rw [prettyItems, itemLexemes]
    exact ⟨Lexes.space _ isSpace_of_mem_newLine (Lexes.single fun _ _ => rfl), '\n', rfl, rfl⟩
  | cons item items ih =>
    obtain ⟨hitem, hitems⟩ := List.forall_mem_cons.mp h
    obtain ⟨hlexes, hstop⟩ := ih hitems
    rw [prettyItems, itemLexemes, List.append_assoc]
    exact ⟨lexes_line (fun _ => rfl) _ (hitem.append hstop hlexes), ',', rfl, rfl⟩

/-- The name of a field and the colon behind it are read as they are. -/
theorem lexes_name {cs : List Char} {ls : List Lexeme} (key : String) (h : Lexes cs ls) :
    Lexes (stringText key ++ ':' :: ' ' :: cs) (.string (units key) :: .colon :: ls) := by
  refine Lexes.cons _ (Lexeme.read?_stringText key) (Lexes.cons [':'] (fun _ => rfl) ?_)
  exact Lexes.space [' '] (List.forall_mem_singleton.mpr rfl) h

/-- The further fields of an object are read as their lexemes, if each value is. -/
theorem lexes_prettyFields {fields : List (String × Json)} (level : Nat)
    (h : ∀ field ∈ fields, Lexes (prettyText (level + 1) field.2) (lexemes field.2)) :
    Lexes (prettyFields level fields) (fieldLexemes fields) ∧
      ∃ c, (prettyFields level fields).head? = some c ∧ Lexeme.goesOn c = false := by
  induction fields with
  | nil =>
    rw [prettyFields, fieldLexemes]
    exact ⟨Lexes.space _ isSpace_of_mem_newLine (Lexes.single fun _ _ => rfl), '\n', rfl, rfl⟩
  | cons field fields ih =>
    obtain ⟨key, value⟩ := field
    obtain ⟨hvalue, hfields⟩ := List.forall_mem_cons.mp h
    obtain ⟨hlexes, hstop⟩ := ih hfields
    rw [prettyFields, fieldLexemes, List.append_assoc, List.append_assoc]
    exact ⟨lexes_line (fun _ => rfl) _ (lexes_name key (hvalue.append hstop hlexes)), ',', rfl, rfl⟩

end PromptMacros.Json
