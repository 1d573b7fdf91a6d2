import PromptMacros.Proofs.Macro.Layout
import PromptMacros.Proofs.Macro.Naming
import PromptMacros.Rename.InText

/-!
# The macros of a renamed text

A renaming changes the body of a piece only where it names the variable (`Piece.renamed`), and the renamed pieces are the
layout of the renamed text (`TextRenaming.layout_ofText`): no macro appears, vanishes or is cut in another way. So the macros
of the renamed text are of the kinds of the old ones with the new name for the old (`TextRenaming.kinds_ofText`).
-/

namespace PromptMacros

open Text

/-- A name with `old` called `new`. -/
def substitute (old new name : String) : String :=
  if name = old then new else name

/-- Only the empty name becomes empty. -/
theorem substitute_eq_empty_iff {old new name : String} (hold : old ≠ "") (hnew : new ≠ "") :
    substitute old new name = "" ↔ name = "" := by
  unfold substitute
  split
  · next h => simp [h, hold, hnew]
  · rfl

namespace Kind

variable {old new : String} {kind : Kind}

/-- A kind that does not name the variable keeps its name. -/
theorem mapName_substitute_eq_self (hold : old ≠ "") (h : kind.varName? ≠ some old) :
    kind.mapName (substitute old new) = kind := by
  cases kind with
  | comment => rfl
  | other tag params => rfl
  | setVar name value =>
    cases name with
    | none => rfl
    | some name =>
      have hne : name ≠ old := fun he => h (congrArg some he)
      rw [mapName, Option.map_some, substitute, if_neg hne]
  | getVar name =>
    have hne : name ≠ old := by
      rintro rfl
      exact h (if_neg hold)
    rw [mapName, substitute, if_neg hne]

/-- A kind that names the variable gets the new name. -/
theorem mapName_substitute_of_varName? (h : kind.varName? = some old) :
    kind.mapName (substitute old new) = kind.mapName fun _ => new := by
  cases kind with
  | comment => cases h
  | other tag params => cases h
  | setVar name value =>
    obtain rfl : name = some old := h
    rw [mapName, mapName, Option.map_some, Option.map_some, substitute, if_pos rfl]
  | getVar name =>
    obtain ⟨-, rfl⟩ : ¬name = "" ∧ name = old := by simpa [varName?] using h
    rw [mapName, mapName, substitute, if_pos rfl]

/-- Renaming a variable in a kind renames it in the variable that the kind sets or reads. -/
theorem varName?_mapName_substitute (hold : old ≠ "") (hnew : new ≠ "") (kind : Kind) :
    (kind.mapName (substitute old new)).varName? = kind.varName?.map (substitute old new) := by
  cases kind with
  | comment => rfl
  | other tag params => rfl
  | setVar name value => rfl
  | getVar name =>
    simp only [mapName, varName?, substitute_eq_empty_iff hold hnew]
    split <;> rfl

end Kind

/-- A macro with another name in its body. -/
theorem NameSite.renamed_braced (pre name post new : List Char) :
    renamed ⟨'{' :: '{' :: pre, name, post ++ ['}', '}']⟩ new = braced (pre ++ new ++ post) := by
  simp [renamed, braced]

/-! ## Pieces -/

namespace Piece

variable {old new : String}

/-- A piece with the variable `old` called `new`. -/
def renamed (old new : String) (p : Piece) : Piece :=
  match p.site? old with
  | none => p
  | some s => { p with body := ((s.renamed new.toList).drop 2).dropLast.dropLast }

/-- The place is found in a body that names the variable. -/
theorem site?_of_naming {gap pre post : List Char} {kind : Kind} (h : Naming pre old.toList post kind) :
    site? old ⟨gap, pre ++ old.toList ++ post⟩ = some ⟨'{' :: '{' :: pre, old.toList, post ++ ['}', '}']⟩ := by
  unfold site?
  dsimp only
  rw [h.classify, if_pos h.varName?_toList]
  exact h.find?

/-- A piece names the variable where its body says so, or it does not name the variable. -/
theorem site?_cases (old : String) (p : Piece) :
    (p.site? old = none ∧ (Kind.classify (trim p.body)).varName? ≠ some old) ∨
      ∃ pre post, p.body = pre ++ old.toList ++ post ∧ Naming pre old.toList post (Kind.classify (trim p.body)) ∧
        p.site? old = some ⟨'{' :: '{' :: pre, old.toList, post ++ ['}', '}']⟩ := by
  by_cases h : (Kind.classify (trim p.body)).varName? = some old
  · obtain ⟨pre, post, hnaming, hbody⟩ := exists_naming h
    have hsite : site? old ⟨p.gap, pre ++ old.toList ++ post⟩ = _ := site?_of_naming hnaming
    rw [hbody] at hsite
    exact Or.inr ⟨pre, post, hbody.symm, hnaming, hsite⟩
  · exact Or.inl ⟨if_neg h, h⟩

/-- A renamed piece is the piece, which does not name the variable, or has the new name in the place of the old. -/
theorem renamed_cases (old new : String) (p : Piece) :
    ((Kind.classify (trim p.body)).varName? ≠ some old ∧ p.renamed old new = p ∧
        p.renamedText old new.toList = p.text) ∨
      ∃ pre post, p.body = pre ++ old.toList ++ post ∧ Naming pre old.toList post (Kind.classify (trim p.body)) ∧
        p.renamed old new = ⟨p.gap, pre ++ new.toList ++ post⟩ ∧
        p.renamedText old new.toList = p.gap ++ braced (pre ++ new.toList ++ post) := by
  rcases p.site?_cases old with ⟨hsite, hname⟩ | ⟨pre, post, hbody, hnaming, hsite⟩
  · exact Or.inl ⟨hname, by rw [renamed, hsite], by rw [renamedText, hsite]⟩
  · refine Or.inr ⟨pre, post, hbody, hnaming, ?_, ?_⟩
    · rw [renamed, hsite]
      dsimp only
      rw [NameSite.renamed_braced, body_braced]
    · rw [renamedText, hsite]
      dsimp only
      rw [NameSite.renamed_braced]

/-- The characters of a renamed piece. -/
theorem text_renamed (old new : String) (p : Piece) : (p.renamed old new).text = p.renamedText old new.toList := by
  rcases p.renamed_cases old new with ⟨-, hp, htext⟩ | ⟨pre, post, -, -, hp, htext⟩
  · rw [hp, htext]
  · rw [hp, htext]
    rfl

/-- The macro of a renamed piece opens and closes where that of the piece did. -/
theorem Tight.renamed {p : Piece} (h : p.Tight) (hnew : ValidName new) : (p.renamed old new).Tight := by
  rcases p.renamed_cases old new with ⟨-, hp, -⟩ | ⟨pre, post, hbody, -, hp, -⟩
  · rwa [hp]
  · rw [hp]
    refine ⟨h.gap, ?_⟩
    have hold := h.body
    rw [hbody, List.append_assoc] at hold
    dsimp only
    rw [List.append_assoc]
    exact cutPair_replace_eq_none hnew.toList_ne_nil (hnew.not_mem (by decide)) hold

/-- The kind of a renamed piece is that of the piece with the new name for the old. -/
theorem classify_renamed (hold : old ≠ "") (hnew : ValidName new) (p : Piece) :
    Kind.classify (trim (p.renamed old new).body) = (Kind.classify (trim p.body)).mapName (substitute old new) := by
  rcases p.renamed_cases old new with ⟨hname, hp, -⟩ | ⟨pre, post, hbody, hnaming, hp, -⟩
  · rw [hp, Kind.mapName_substitute_eq_self hold hname]
  · rw [hp, (hnaming.replace hnew).classify, Kind.mapName_substitute_of_varName? hnaming.varName?_toList]

end Piece

/-! ## Texts -/

namespace Layout

variable {old new : String}

/-- A layout with the variable `old` called `new`. -/
def renamed (old new : String) (l : Layout) : Layout :=
  { l with pieces := l.pieces.map (Piece.renamed old new) }

/-- The characters of a renamed layout. -/
theorem text_renamed (old new : String) (l : Layout) : (l.renamed old new).text = l.renamedText old new.toList := by
  rw [text, renamedText, renamed, List.flatMap_map]
  simp only [Piece.text_renamed]

/-- A layout stays well-formed. -/
theorem WellFormed.renamed {l : Layout} (h : l.WellFormed) (hnew : ValidName new) : (l.renamed old new).WellFormed := by
  refine ⟨fun p hp => ?_, h.tail⟩
  obtain ⟨q, hq, rfl⟩ := List.mem_map.mp hp
  exact (h.pieces q hq).renamed hnew

end Layout

namespace TextRenaming

variable {old new : String}

/-- The layout of a renamed text is that of the text, with its pieces renamed. -/
theorem layout_ofText (hnew : ValidName new) (text : String) :
    Layout.ofText (ofText text old new).text.toList = (Layout.ofText text.toList).renamed old new := by
  have htext : (ofText text old new).text.toList = ((Layout.ofText text.toList).renamed old new).text := by
    rw [ofText, String.toList_ofList, Layout.text_renamed]
  rw [htext]
  exact ((Layout.wellFormed_ofText text.toList).renamed hnew).ofText_text

/-- The macros of a renamed text are of the kinds of those of the text, with the new name for the old. -/
theorem kinds_ofText (hold : old ≠ "") (hnew : ValidName new) (document text : String) :
    (Macro.ofContent document (ofText text old new).text).map Macro.kind =
      (Macro.ofContent document text).map fun m => m.kind.mapName (substitute old new) := by
  have hkinds : (Macro.ofContent document text).map (fun m => m.kind.mapName (substitute old new)) =
      ((Macro.ofContent document text).map Macro.kind).map (Kind.mapName (substitute old new)) := by
    rw [List.map_map]
    rfl
  rw [hkinds, Macro.kinds_ofContent, Macro.kinds_ofContent, layout_ofText hnew, Layout.renamed, List.map_map,
    List.map_map]
  exact List.map_congr_left fun p _ => p.classify_renamed hold hnew

end TextRenaming

end PromptMacros
