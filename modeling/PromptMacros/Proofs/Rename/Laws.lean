import PromptMacros.Proofs.Rename.Extent

/-!
# Renamings after each other

Where a piece named the variable it names the new one afterwards, in the same place (`Piece.names_renamed`). So a renaming to a
name that no macro had can be followed up (`Layout.renamed_renamed`) and taken back, whatever the name was before, and
renamings of two variables may change places (`Layout.renamed_comm`). The renamed text is cut into the renamed pieces, so this
holds of texts too (`TextRenaming.ofText_follow_cancel_comm`).
-/

namespace PromptMacros

open Text

/-! ## Pieces -/

namespace Piece

variable {a b c d : String} {p : Piece}

/-- In the body that names a variable the new name stands in the place of the old. -/
theorem renamed_of_naming {gap pre post : List Char} {kind : Kind} (h : Naming pre a.toList post kind) (b : String) :
    renamed a b ⟨gap, pre ++ a.toList ++ post⟩ = ⟨gap, pre ++ b.toList ++ post⟩ := by
  rw [renamed, site?_of_naming h]
  dsimp only
  rw [NameSite.renamed_braced, body_braced]

/-- A piece names a variable that its body names. -/
theorem names_of_naming {gap pre post : List Char} {kind : Kind} (h : Naming pre a.toList post kind) (x : String) :
    names x ⟨gap, pre ++ a.toList ++ post⟩ = decide (a = x) := by
  simp only [names, h.classify, h.varName?_toList, Option.some.injEq]

/-- A piece that does not name the variable stays. -/
theorem renamed_eq_self (h : p.names a = false) (b : String) : p.renamed a b = p := by
  rw [← isSome_site?, Option.isSome_eq_false_iff, Option.isNone_iff_eq_none] at h
  rw [renamed, h]

/-- Where a piece named the variable it names the new one, and else what it named. -/
theorem names_renamed (hb : ValidName b) (p : Piece) (x : String) :
    (p.renamed a b).names x = if p.names a then decide (b = x) else p.names x := by
  rcases p.renamed_cases a b with ⟨hname, hp, -⟩ | ⟨pre, post, hbody, hnaming, hp, -⟩
  · rw [hp, if_neg (by simpa [names] using hname)]
  · have ha : p.names a = true := decide_eq_true hnaming.varName?_toList
    rw [hp, names_of_naming (hnaming.replace hb), if_pos ha]

/-- Renaming to the same name changes nothing. -/
theorem renamed_self (a : String) (p : Piece) : p.renamed a a = p := by
  rcases p.renamed_cases a a with ⟨-, hp, -⟩ | ⟨pre, post, hbody, -, hp, -⟩
  · exact hp
  · rw [hp, ← hbody]

/-- A piece that does not name `b` may be renamed to `b` on the way. -/
theorem renamed_renamed (hb : ValidName b) (hp : p.names b = false) (c : String) :
    (p.renamed a b).renamed b c = p.renamed a c := by
  cases ha : p.names a with
  | false => rw [renamed_eq_self ha, renamed_eq_self ha, renamed_eq_self hp]
  | true =>
    obtain ⟨pre, post, hnaming, hbody⟩ := exists_naming (of_decide_eq_true ha)
    obtain ⟨gap, body⟩ := p
    obtain rfl : pre ++ a.toList ++ post = body := hbody
    rw [renamed_of_naming hnaming, renamed_of_naming hnaming, renamed_of_naming (hnaming.replace hb)]

/-- A piece names at most one variable. -/
theorem names_eq_false_of_ne (hne : a ≠ c) (ha : p.names a = true) : p.names c = false := by
  refine decide_eq_false fun hc => hne (Option.some.inj ?_)
  rw [← hc]
  exact (of_decide_eq_true ha).symm

/-- Renamings of two variables may change places when neither gets the old name of the other. -/
theorem renamed_comm (hb : ValidName b) (hd : ValidName d) (hac : a ≠ c) (hbc : b ≠ c) (hda : d ≠ a) (p : Piece) :
    (p.renamed a b).renamed c d = (p.renamed c d).renamed a b := by
  have hab := names_renamed (a := a) hb p c
  have hcd := names_renamed (a := c) hd p a
  cases ha : p.names a with
  | true =>
    -- Only the renaming of `a` finds its name, in either order.
    have hc := names_eq_false_of_ne hac ha
    rw [ha, if_pos rfl, decide_eq_false hbc] at hab
    rw [renamed_eq_self hab, renamed_eq_self hc]
  | false =>
    rw [renamed_eq_self ha]
    cases hc : p.names c with
    | true =>
      rw [hc, if_pos rfl, decide_eq_false hda] at hcd
      rw [renamed_eq_self hcd]
    | false => rw [renamed_eq_self hc, renamed_eq_self ha]

end Piece

/-! ## Layouts -/

namespace Layout

variable {a b c d : String}

/-- Renaming to the same name changes nothing. -/
theorem renamed_self (a : String) (l : Layout) : l.renamed a a = l := by
  have hid : Piece.renamed a a = id := funext (Piece.renamed_self a)
  rw [renamed, hid, List.map_id]

/-- A layout that does not name `b` may be renamed to `b` on the way. -/
theorem renamed_renamed (hb : ValidName b) {l : Layout} (hl : ∀ p ∈ l.pieces, p.names b = false) (c : String) :
    (l.renamed a b).renamed b c = l.renamed a c := by
  simp only [renamed, List.map_map]
  exact congrArg (Layout.mk · l.tail) (List.map_congr_left fun p hp => Piece.renamed_renamed hb (hl p hp) c)

/-- Renamings of two variables may change places when neither gets the old name of the other. -/
theorem renamed_comm (hb : ValidName b) (hd : ValidName d) (hac : a ≠ c) (hbc : b ≠ c) (hda : d ≠ a) (l : Layout) :
    (l.renamed a b).renamed c d = (l.renamed c d).renamed a b := by
  simp only [renamed, List.map_map]
  exact congrArg (Layout.mk · l.tail) (List.map_congr_left fun p _ => p.renamed_comm hb hd hac hbc hda)

/-- No piece of a text names a variable that the text does not have. -/
theorem names_eq_false_of_not_mem {text name : String} (h : name ∉ variableNames text) :
    ∀ p ∈ (ofText text.toList).pieces, p.names name = false := by
  have hzero : (ofText text.toList).pieces.countP (Piece.names name) = 0 := by
    rw [← Macro.countP_ofContent "" text name, List.countP_eq_zero]
    intro m hm hname
    exact h ((Macro.mem_variableNames_iff_exists "").mpr ⟨m, hm, of_decide_eq_true hname⟩)
  intro p hp
  exact eq_false_of_ne_true (List.countP_eq_zero.mp hzero p hp)

end Layout

/-! ## Texts -/

namespace TextRenaming

variable {a b : String}

/-- The renamed text is that of the renamed layout. -/
theorem text_ofText (text a b : String) :
    (ofText text a b).text = String.ofList ((Layout.ofText text.toList).renamed a b).text := by
  rw [ofText, Layout.text_renamed]

/-- The text of a second renaming is that of the layout renamed twice. -/
theorem text_ofText_ofText (hb : ValidName b) (text a c d : String) :
    (ofText (ofText text a b).text c d).text =
      String.ofList (((Layout.ofText text.toList).renamed a b).renamed c d).text := by
  rw [text_ofText, layout_ofText hb]

/-- A second renaming of the new name finds it where the first one found the old. -/
theorem count_ofText_ofText (hb : ValidName b) {text : String} (hfresh : b ∉ variableNames text) (a c : String) :
    (ofText (ofText text a b).text b c).count = (ofText text a c).count := by
  rw [count_ofText, count_ofText, layout_ofText hb, Layout.renamed, List.countP_map]
  refine List.countP_congr fun p hp => ?_
  rw [Function.comp_apply, Piece.names_renamed hb, Layout.names_eq_false_of_not_mem hfresh p hp]
  simp

/-- A renaming to a valid name `b` that no macro of the text has can be followed up by another of `b`, which comes to one
renaming, in the text and in the number of names replaced; renaming back restores the text; and the renamings of two variables
may change places, when neither gets the old name of the other. -/
theorem ofText_follow_cancel_comm (text : String) :
    (∀ a b c, ValidName b → b ∉ variableNames text →
      (ofText (ofText text a b).text b c).text = (ofText text a c).text ∧
      (ofText (ofText text a b).text b c).count = (ofText text a c).count) ∧
    (∀ a b, ValidName b → b ∉ variableNames text → (ofText (ofText text a b).text b a).text = text) ∧
    ∀ a b c d, ValidName b → ValidName d → a ≠ c → b ≠ c → d ≠ a →
      (ofText (ofText text a b).text c d).text = (ofText (ofText text c d).text a b).text := by
  have hfollow : ∀ a b c, ValidName b → b ∉ variableNames text →
      (ofText (ofText text a b).text b c).text = (ofText text a c).text := by
    intro a b c hb hfresh
    rw [text_ofText_ofText hb, text_ofText, Layout.renamed_renamed hb (Layout.names_eq_false_of_not_mem hfresh)]
  refine ⟨fun a b c hb hfresh => ⟨hfollow a b c hb hfresh, count_ofText_ofText hb hfresh a c⟩, fun a b hb hfresh => ?_,
    fun a b c d hb hd hac hbc hda => ?_⟩
  · rw [hfollow a b a hb hfresh, text_ofText, Layout.renamed_self, Layout.text_ofText, String.ofList_toList]
  · rw [text_ofText_ofText hb, text_ofText_ofText hd, Layout.renamed_comm hb hd hac hbc hda]

/-- A text whose names hold colons, spaces and a brace, as no new name may. -/
theorem ofText_follow_cancel_comm_typed :
    let text := "\x7b\x7b getvar:: a::b c \x7d\x7d\x7b\x7bsetvar::x\x7by::q\x7d\x7d"
    let r := ofText text "a::b c" "q"
    ValidName "q" ∧ "q" ∉ variableNames text ∧
      r.text = "\x7b\x7b getvar:: q \x7d\x7d\x7b\x7bsetvar::x\x7by::q\x7d\x7d" ∧
      ((ofText r.text "q" "x\x7by").text = (ofText text "a::b c" "x\x7by").text ∧
        (ofText r.text "q" "x\x7by").count = (ofText text "a::b c" "x\x7by").count) ∧
      (ofText r.text "q" "a::b c").text = text ∧
      (ofText r.text "x\x7by" "q").text = (ofText (ofText text "x\x7by" "q").text "a::b c" "q").text := by
  intro text r
  have hq : ValidName "q" := by decide +kernel
  have hfresh : "q" ∉ variableNames text := by decide +kernel
  obtain ⟨hfollow, hcancel, hcomm⟩ := ofText_follow_cancel_comm text
  exact ⟨hq, hfresh, by decide +kernel, hfollow "a::b c" "q" "x\x7by" hq hfresh, hcancel "a::b c" "q" hq hfresh,
    hcomm "a::b c" "q" "x\x7by" "q" hq hq (by decide) (by decide) (by decide)⟩

end TextRenaming

end PromptMacros
