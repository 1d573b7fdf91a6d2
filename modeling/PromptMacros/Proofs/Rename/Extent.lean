import PromptMacros.Proofs.Macro.Decomposition
import PromptMacros.Proofs.Rename.InText

/-!
# What a renaming changes in a text

A renaming changes the names of the macros that name the variable and nothing else (`changesOnlyNames_ofText`): the text outside
the macros stays, and so do the other macros; a macro moves by what the names before it have grown. The text is copied piece by
piece, and written only once a name has to be replaced (`Copy.Copied.foldl`), so a text without the name is never written.
-/

namespace PromptMacros

open Text

/-! ## Pieces -/

namespace Piece

variable {old new : String} {p : Piece}

/-- Whether the macro of a piece names the variable. -/
def names (old : String) (p : Piece) : Bool :=
  (Kind.classify (trim p.body)).varName? = some old

/-- A name is found in the pieces that name the variable. -/
theorem isSome_site? (old : String) (p : Piece) : (p.site? old).isSome = p.names old := by
  rcases p.site?_cases old with ⟨hsite, hname⟩ | ⟨pre, post, -, hnaming, hsite⟩
  · rw [hsite]
    exact (decide_eq_false hname).symm
  · rw [hsite]
    exact (decide_eq_true hnaming.varName?_toList).symm

/-- The text before a macro stays. -/
theorem gap_renamed (old new : String) (p : Piece) : (p.renamed old new).gap = p.gap := by
  unfold renamed
  split <;> rfl

/-- A piece grows by what its name grows. -/
theorem byteLength_text_renamed (old new : String) (p : Piece) :
    (byteLength (p.renamed old new).text : Int) =
      byteLength p.text + ((byteLength new.toList : Int) - byteLength old.toList) * (if p.names old then 1 else 0) := by
  rcases p.renamed_cases old new with ⟨hname, hp, -⟩ | ⟨pre, post, hbody, hnaming, hp, -⟩
  · rw [hp, names, decide_eq_false hname]
    simp
  · rw [hp, names, decide_eq_true hnaming.varName?_toList]
    simp [text, full, braced, hbody]
    omega

/-- Pieces in a row grow by what their names grow. -/
theorem byteLength_flatMap_renamed (old new : String) (ps : List Piece) :
    (byteLength ((ps.map (renamed old new)).flatMap text) : Int) =
      byteLength (ps.flatMap text) + ((byteLength new.toList : Int) - byteLength old.toList) * ps.countP (names old) := by
  induction ps with
  | nil => simp
  | cons p ps ih =>
    rw [List.map_cons, List.flatMap_cons, List.flatMap_cons, List.countP_cons, byteLength_append, byteLength_append]
    push_cast
    rw [ih, byteLength_text_renamed, Int.mul_add]
    split <;> omega

end Piece

/-! ## The macros of a text and its pieces -/

namespace Macro

/-- The macro in a place of a text is the piece in this place, behind the pieces before it. -/
theorem getElem?_ofContent (document content : String) (k : Nat) :
    (ofContent document content)[k]? = (Layout.ofText content.toList).pieces[k]?.map fun p =>
      ofToken document (Token.ofBody
        (byteLength (((Layout.ofText content.toList).pieces.take k).flatMap Piece.text ++ p.gap)) p.body) := by
  rw [ofContent_eq_map, List.getElem?_map, Piece.getElem?_located, Option.map_map]
  simp only [Nat.zero_add]
  rfl

/-- The macros before a place that name a variable are the pieces before it that do. -/
theorem countP_take_ofContent (document content old : String) (k : Nat) :
    ((ofContent document content).take k).countP (fun m => m.varName? = some old) =
      ((Layout.ofText content.toList).pieces.take k).countP (Piece.names old) := by
  have hkinds := congrArg (List.take k) (kinds_ofContent document content)
  rw [← List.map_take, ← List.map_take] at hkinds
  have hcount := congrArg (List.countP fun kind => kind.varName? = some old) hkinds
  rw [List.countP_map, List.countP_map] at hcount
  exact hcount

/-- The macros that name a variable are the pieces that do. -/
theorem countP_ofContent (document content old : String) :
    (ofContent document content).countP (fun m => m.varName? = some old) =
      (Layout.ofText content.toList).pieces.countP (Piece.names old) := by
  have hkinds := congrArg (List.countP fun kind => kind.varName? = some old) (kinds_ofContent document content)
  rw [List.countP_map, List.countP_map] at hkinds
  exact hkinds

end Macro

/-- A renaming replaces the name in every piece that names the variable. -/
theorem TextRenaming.count_ofText (text old new : String) :
    (ofText text old new).count = (Layout.ofText text.toList).pieces.countP (Piece.names old) := by
  have hsnd := Piece.map_snd_located 0 (Layout.ofText text.toList).pieces
  rw [count, ofText, Layout.nameRanges, List.length_filterMap_eq_countP]
  conv_rhs => rw [← hsnd, List.countP_map]
  refine List.countP_congr fun entry _ => ?_
  obtain ⟨offset, p⟩ := entry
  simp only [Option.isSome_map, Piece.isSome_site?, Function.comp_apply]

/-! ## Copying -/

/-- A text that is being copied with a name replaced: what has been written, if anything had to be, what was read since the last
name was written, and how many names were. -/
structure Copy where
  written? : Option (List Char) := none
  pending : List Char := []
  count : Nat := 0

namespace Copy

/-- Copies a piece. Its text waits until a name has to be written. -/
def step (old : String) (new : List Char) (c : Copy) (p : Piece) : Copy :=
  match p.site? old with
  | none => { c with pending := c.pending ++ p.text }
  | some s => ⟨some (c.written?.getD [] ++ c.pending ++ p.gap ++ s.before ++ new), s.after, c.count + 1⟩

/-- These pieces were copied, with the variable `old` called `new`. -/
structure Copied (old : String) (new : List Char) (ps : List Piece) (c : Copy) : Prop where
  text : c.written?.getD [] ++ c.pending = ps.flatMap (Piece.renamedText old new)
  count : c.count = ps.countP (Piece.names old)
  written : c.written? = none ↔ c.count = 0

variable {old : String} {new : List Char} {ps qs : List Piece} {c : Copy}

/-- Nothing was copied at the start. -/
theorem Copied.start (old : String) (new : List Char) : Copied old new [] {} :=
  ⟨rfl, rfl, iff_of_true rfl rfl⟩

/-- A step copies one piece more. -/
theorem Copied.step (h : Copied old new ps c) (p : Piece) : Copied old new (ps ++ [p]) (c.step old new p) := by
  have hcount : (ps ++ [p]).countP (Piece.names old) = ps.countP (Piece.names old) + if p.names old then 1 else 0 := by
    rw [List.countP_append, List.countP_singleton]
  have htext : (ps ++ [p]).flatMap (Piece.renamedText old new) =
      c.written?.getD [] ++ c.pending ++ p.renamedText old new := by
    rw [List.flatMap_append, ← h.text]
    simp
  have hsome := Piece.isSome_site? old p
  unfold Copy.step
  cases hsite : p.site? old with
  | none =>
    rw [hsite] at hsome
    refine ⟨?_, ?_, h.written⟩
    · rw [htext, Piece.renamedText, hsite]
      simp
    · rw [hcount, ← hsome, h.count]
      rfl
  | some s =>
    -- What was pending is written with the new name, and what follows the old one waits in its turn.
    rw [hsite] at hsome
    refine ⟨?_, ?_, ?_⟩
    · rw [htext, Piece.renamedText, hsite]
      simp [NameSite.renamed]
    · rw [hcount, ← hsome, h.count]
      rfl
    · exact iff_of_false (Option.some_ne_none _) (Nat.succ_ne_zero _)

/-- A run copies its pieces. -/
theorem Copied.foldl (h : Copied old new ps c) (qs : List Piece) :
    Copied old new (ps ++ qs) (qs.foldl (Copy.step old new) c) := by
  induction qs generalizing ps c with
  | nil => rwa [List.append_nil]
  | cons q qs ih =>
    rw [List.append_cons]
    exact ih (h.step q)

end Copy

/-- A text copied with the variable `old` called `new`, or nothing when there was nothing to write; and how many names were
replaced. -/
def TextRenaming.copy? (text old new : String) : Option String × Nat :=
  let layout := Layout.ofText text.toList
  let c := layout.pieces.foldl (Copy.step old new.toList) {}
  (c.written?.map fun cs => String.ofList (cs ++ c.pending ++ layout.tail), c.count)

/-- Copying a text writes the renamed text when a name is replaced in it, and else nothing. -/
theorem TextRenaming.copy?_eq (text old new : String) :
    copy? text old new =
      (if (ofText text old new).count = 0 then none else some (ofText text old new).text, (ofText text old new).count) := by
  obtain ⟨htext, hcount, hwritten⟩ :=
    (Copy.Copied.start old new.toList).foldl (Layout.ofText text.toList).pieces
  rw [List.nil_append] at htext hcount
  rw [← count_ofText text old new] at hcount
  unfold copy?
  dsimp only
  rw [hcount] at hwritten ⊢
  refine Prod.ext ?_ rfl
  split
  · next h => rw [hwritten.mpr h]; rfl
  · next h =>
    obtain ⟨cs, hcs⟩ := Option.ne_none_iff_exists'.mp (mt hwritten.mp h)
    rw [hcs] at htext ⊢
    rw [Option.map_some, ofText, Layout.renamedText, ← htext]
    rfl

/-! ## Texts -/

/-- The stretches of a text that stand in no macro: one before each macro, and one behind the last. -/
def outside (text : String) : List (List Char) :=
  (Layout.ofText text.toList).pieces.map Piece.gap ++ [(Layout.ofText text.toList).tail]

/-- `m'` is the macro `m` with `new` in the place where `m` has the name `old`. -/
structure Macro.NamedAnew (old new : String) (m m' : Macro) : Prop where
  full : ∃ before after, NameSite.find? m.kind m.full.toList = some ⟨before, old.toList, after⟩ ∧
    m.full.toList = before ++ old.toList ++ after ∧ m'.full.toList = before ++ new.toList ++ after
  kind : m'.kind = m.kind.mapName fun _ => new

/-- The renaming `r` of `old` to `new` changes the names of the macros of a text and nothing else. -/
structure ChangesOnlyNames (document text old new : String) (r : TextRenaming) : Prop where
  length : (Macro.ofContent document r.text).length = (Macro.ofContent document text).length
  outside : PromptMacros.outside r.text = PromptMacros.outside text
  /-- A macro that does not name the variable stays. -/
  kept : ∀ (k : Nat) (m m' : Macro), (Macro.ofContent document text)[k]? = some m →
    (Macro.ofContent document r.text)[k]? = some m' →
    m.varName? ≠ some old → m'.full = m.full ∧ m'.inner = m.inner ∧ m'.kind = m.kind
  /-- A macro that names it gets the new name. -/
  renamed : ∀ (k : Nat) (m m' : Macro), (Macro.ofContent document text)[k]? = some m →
    (Macro.ofContent document r.text)[k]? = some m' →
    m.varName? = some old → m.NamedAnew old new m'
  /-- Every macro moves by what the names before it have grown. -/
  offset : ∀ (k : Nat) (m m' : Macro), (Macro.ofContent document text)[k]? = some m →
    (Macro.ofContent document r.text)[k]? = some m' →
    (m'.id.offset : Int) = m.id.offset + ((byteLength new.toList : Int) - byteLength old.toList) *
      ((Macro.ofContent document text).take k).countP fun m => m.varName? = some old
  count : r.count = (Macro.ofContent document text).countP fun m => m.varName? = some old
  unchanged : r.count = 0 → r.text = text
  /-- The text is written anew exactly when a name was replaced. -/
  copied : TextRenaming.copy? text old new = (if r.count = 0 then none else some r.text, r.count)

namespace TextRenaming

variable {old new : String}

/-- The piece in a place of a text is, renamed, the piece in this place of the renamed text. -/
theorem getElem?_pieces_ofText (hnew : ValidName new) (text : String) (k : Nat) :
    (Layout.ofText (ofText text old new).text.toList).pieces[k]? =
      (Layout.ofText text.toList).pieces[k]?.map (Piece.renamed old new) := by
  rw [layout_ofText hnew, Layout.renamed, List.getElem?_map]

/-- The macros in one place of a text and of the renamed text come from one piece. -/
theorem exists_piece (hnew : ValidName new) {document text : String} {k : Nat} {m m' : Macro}
    (hm : (Macro.ofContent document text)[k]? = some m)
    (hm' : (Macro.ofContent document (ofText text old new).text)[k]? = some m') :
    ∃ p : Piece, m = .ofToken document (.ofBody
        (byteLength (((Layout.ofText text.toList).pieces.take k).flatMap Piece.text ++ p.gap)) p.body) ∧
      m' = .ofToken document (.ofBody
        (byteLength ((((Layout.ofText text.toList).pieces.take k).map (Piece.renamed old new)).flatMap Piece.text ++ p.gap))
        (p.renamed old new).body) := by
  rw [Macro.getElem?_ofContent] at hm hm'
  obtain ⟨p, hp, rfl⟩ := Option.map_eq_some_iff.mp hm
  rw [getElem?_pieces_ofText hnew, hp] at hm'
  rw [layout_ofText hnew, Layout.renamed, ← List.map_take] at hm'
  obtain rfl := Option.some.inj hm'
  exact ⟨p, rfl, congrArg (fun gap => Macro.ofToken document (.ofBody (byteLength (_ ++ gap)) _)) (p.gap_renamed old new)⟩

/-- A text in which no name is replaced stays. -/
theorem text_eq_of_count_eq_zero {text : String} (h : (ofText text old new).count = 0) : (ofText text old new).text = text := by
  rw [count_ofText, List.countP_eq_zero] at h
  have hsite : ∀ p ∈ (Layout.ofText text.toList).pieces, p.site? old = none := by
    intro p hp
    rw [← Option.not_isSome_iff_eq_none, Piece.isSome_site?]
    exact h p hp
  rw [ofText, Layout.renamedText_eq_self hsite, Layout.text_ofText, String.ofList_toList]

/-- Renaming a variable to a valid name changes the names of the macros that name it, and nothing else. -/
theorem changesOnlyNames_ofText (document text old : String) {new : String} (hnew : ValidName new) :
    ChangesOnlyNames document text old new (ofText text old new) where
  length := by
    have hlength : ∀ content, (Macro.ofContent document content).length = (Layout.ofText content.toList).pieces.length := by
      intro content
      have hkinds := congrArg List.length (Macro.kinds_ofContent document content)
      rwa [List.length_map, List.length_map] at hkinds
    rw [hlength, hlength, layout_ofText hnew, Layout.renamed, List.length_map]
  outside := by
    rw [outside, outside, layout_ofText hnew, Layout.renamed, List.map_map]
    exact congrArg (· ++ _) (List.map_congr_left fun p _ => p.gap_renamed old new)
  kept k m m' hm hm' hname := by
    obtain ⟨p, rfl, rfl⟩ := exists_piece hnew hm hm'
    rcases p.renamed_cases old new with ⟨-, hp, -⟩ | ⟨pre, post, -, hnaming, -, -⟩
    · rw [hp]
      exact ⟨rfl, rfl, rfl⟩
    · exact absurd hnaming.varName?_toList hname
  renamed k m m' hm hm' hname := by
    obtain ⟨p, rfl, rfl⟩ := exists_piece hnew hm hm'
    rcases p.renamed_cases old new with ⟨hold, -, -⟩ | ⟨pre, post, hbody, hnaming, hp, -⟩
    · exact absurd hname hold
    · have hfind := hnaming.find?
      rw [← hbody] at hfind
      have hfull : ∀ body offset, (Macro.ofToken document (Token.ofBody offset body)).full.toList = braced body :=
        fun body offset => String.toList_ofList
      refine ⟨⟨'{' :: '{' :: pre, post ++ ['}', '}'], ?_, ?_, ?_⟩, ?_⟩
      · rw [hfull]
        exact hfind
      · rw [hfull, hbody]
        simp [braced]
      · rw [hfull, hp]
        simp [braced]
      · rw [hp]
        exact (hnaming.replace hnew).classify
  offset k m m' hm hm' := by
    obtain ⟨p, rfl, rfl⟩ := exists_piece hnew hm hm'
    have hoffset : ∀ body offset, (Macro.ofToken document (Token.ofBody offset body)).id.offset = offset :=
      fun _ _ => rfl
    -- The gap before the macro stays, so it moves by what the pieces before it have grown.
    rw [hoffset, hoffset, Macro.countP_take_ofContent, byteLength_append, byteLength_append]
    push_cast
    rw [Piece.byteLength_flatMap_renamed]
    omega
  count := by rw [count_ofText, Macro.countP_ofContent]
  unchanged := text_eq_of_count_eq_zero
  copied := copy?_eq text old new

/-- White space around a name, the colons behind it and the value that is called like it stay; the name `x::1` is another one. -/
theorem changesOnlyNames_ofText_spaced :
    let text := "é\x7b\x7b  setvar::  x::: x \x7d\x7d \x7b\x7bgetvar:: x \x7d\x7d\x7b\x7bgetvar::x::1\x7d\x7d"
    let r := ofText text "x" "größe"
    ValidName "größe" ∧ ChangesOnlyNames "d" text "x" "größe" r ∧ r.count = 2 ∧
      r.text = "é\x7b\x7b  setvar::  größe::: x \x7d\x7d \x7b\x7bgetvar:: größe \x7d\x7d\x7b\x7bgetvar::x::1\x7d\x7d" :=
  have hnew : ValidName "größe" := by decide +kernel
  ⟨hnew, changesOnlyNames_ofText "d" _ "x" hnew, by decide +kernel, by decide +kernel⟩

end TextRenaming

end PromptMacros
