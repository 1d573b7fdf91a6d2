import Mathlib.Data.Option.Basic
import PromptMacros.Proofs.Macro.Boundary
import PromptMacros.Proofs.Macro.ByteScan
import PromptMacros.Proofs.Macro.NameSpan
import PromptMacros.Proofs.Rename.Extent

/-!
# Renaming by positions

A renaming walks over the bytes of a text, copies what stands between the names it replaces, and keeps the position up to
which the text was copied (`Rewriter.step?`). It takes slices out of the text between positions that are sums and differences
of lengths, and fails when such a range is backward, leaves the text or cuts a character. It never does: one step copies a
piece of the layout as `Copy.step` does (`Rewriter.Follows.step`), so a run copies the text (`Rewriter.Follows.foldlM`), and
the bytes written are those of the renamed text (`Rewriter.exists_run?_sound`).
-/

namespace PromptMacros

open Text

/-- Whether a macro of this kind sets or reads a variable called `old`. -/
def Kind.targets (old : String) : Kind → Bool
  | setVar (some name) _ => name = old
  | getVar name => name = old
  | setVar none _ | comment | other _ _ => false

/-- A renaming on its way through a text: the bytes written, if any had to be, the position up to which the text was copied,
and how many names were replaced; and what ranges of the text were replaced and what ranges were taken out of it. -/
structure Rewriter where
  written? : Option (List UInt8) := none
  copied : Nat := 0
  count : Nat := 0
  names : List ByteRange := []
  slices : List ByteRange := []
  deriving DecidableEq, Repr

namespace Rewriter

/-- Copies the text up to a name and writes another name. -/
def replace? (text : String) (new : List Char) (r : Rewriter) (name : ByteRange) : Option Rewriter := do
  let kept ← sliceBytes? text ⟨r.copied, name.start⟩
  pure {
    written? := some (r.written?.getD [] ++ kept ++ utf8 new)
    copied := name.stop
    count := r.count + 1
    names := r.names ++ [name]
    slices := r.slices ++ [⟨r.copied, name.start⟩] }

/-- The macro between these bounds and its body were taken out of the text. -/
def take (r : Rewriter) (b : MacroBounds) : Rewriter :=
  { r with slices := r.slices ++ [b.full, b.body] }

/-- Takes a macro out of the text, and replaces its name if it names the variable `old`. -/
def step? (text old : String) (new : List Char) (r : Rewriter) (b : MacroBounds) : Option Rewriter := do
  let t ← b.token? text
  let kind := Kind.classify t.inner
  if kind.targets old then
    match NameSite.span? kind t.full with
    | none => pure (r.take b)
    | some span => (r.take b).replace? text new (span.shift b.opening)
  else pure (r.take b)

/-- Copies what follows the last name, if one was replaced. -/
def finish? (text : String) (r : Rewriter) : Option Rewriter :=
  match r.written? with
  | none => some r
  | some written => do
    let last : ByteRange := ⟨r.copied, text.utf8ByteSize⟩
    let rest ← sliceBytes? text last
    pure { r with written? := some (written ++ rest), slices := r.slices ++ [last] }

/-- Renames a variable in a text; nothing when a range could not be taken out of the text. -/
def run? (text old new : String) : Option Rewriter := do
  let bounds ← ByteScan.walk? (utf8 text.toList) 0
  let r ← bounds.foldlM (step? text old new.toList) {}
  r.finish? text

end Rewriter

/-! ## The names in a text -/

namespace Piece

/-- Where the macros of pieces name the variable, when the first piece starts at `offset`. -/
def nameRanges (old : String) (offset : Nat) (ps : List Piece) : List ByteRange :=
  (located offset ps).filterMap fun (offset, p) => (p.site? old).map fun s => s.range.shift offset

/-- The names in a piece and in those behind it. -/
theorem nameRanges_cons (old : String) (offset : Nat) (p : Piece) (ps : List Piece) :
    nameRanges old offset (p :: ps) = ((p.site? old).map fun s => s.range.shift (offset + byteLength p.gap)).toList ++
      nameRanges old (offset + byteLength p.text) ps := by
  rw [nameRanges, located, List.filterMap_cons]
  dsimp only
  cases p.site? old <;> rfl

/-- The name in one piece more. -/
theorem nameRanges_concat (old : String) (ps : List Piece) (p : Piece) :
    nameRanges old 0 (ps ++ [p]) = nameRanges old 0 ps ++
      ((p.site? old).map fun s => s.range.shift (byteLength (ps.flatMap text ++ p.gap))).toList := by
  have hlast := nameRanges_cons old (byteLength (ps.flatMap text)) p []
  rw [← byteLength_append] at hlast
  rw [nameRanges, located_append, List.filterMap_append, Nat.zero_add]
  exact congrArg (nameRanges old 0 ps ++ ·) (hlast.trans (List.append_nil _))

/-- The bounds of the macro of a piece that stands behind these pieces. -/
def boundsAfter (ps : List Piece) (p : Piece) : MacroBounds :=
  .ofBody (byteLength (ps.flatMap text ++ p.gap)) p.body

end Piece

namespace Kind

variable {old : String} {kind : Kind}

/-- A kind that names the variable sets or reads it. -/
theorem targets_of_varName? (h : kind.varName? = some old) : kind.targets old = true := by
  cases kind with
  | comment => cases h
  | other tag params => cases h
  | setVar name value =>
    obtain rfl : name = some old := h
    exact decide_eq_true rfl
  | getVar name =>
    obtain ⟨-, rfl⟩ : ¬name = "" ∧ name = old := by simpa [varName?] using h
    exact decide_eq_true rfl

/-- Only a macro that reads a variable without a name reads `old` and does not name it; it has no range for a name. -/
theorem span?_eq_none_of_targets (h : kind.varName? ≠ some old) (ht : kind.targets old = true) (full : List Char) :
    NameSite.span? kind full = none := by
  have hname : kind.varName? = none := by
    cases kind with
    | comment => rfl
    | other tag params => rfl
    | setVar name value =>
      cases name with
      | none => rfl
      | some name => exact absurd (congrArg some (of_decide_eq_true ht)) h
    | getVar name =>
      obtain rfl : name = old := of_decide_eq_true ht
      by_cases hempty : name = ""
      · exact if_pos hempty
      · exact absurd (if_neg hempty) h
  have hkeyword : NameSite.keyword? kind = none := by
    rw [← Option.not_isSome_iff_eq_none, NameSite.isSome_keyword?_iff, hname]
    exact Bool.false_ne_true
  rw [NameSite.span?, hkeyword]
  rfl

end Kind

/-! ## Steps -/

namespace Rewriter

/-- The renaming has gone through these pieces, and the copy of the pieces is where the renaming is: the position up to which
the text was copied is that of what the copy still has to write. -/
structure Follows (text old : String) (ps : List Piece) (c : Copy) (r : Rewriter) : Prop where
  copied : ∃ done, done ++ c.pending = ps.flatMap Piece.text ∧ r.copied = byteLength done
  written : r.written? = c.written?.map utf8
  count : r.count = c.count
  names : r.names = Piece.nameRanges old 0 ps
  slices : ∀ s ∈ r.slices, Sliceable text s

variable {text old : String} {new : List Char} {ps qs : List Piece} {p : Piece} {c : Copy} {r : Rewriter} {rest : List Char}

/-- At the start nothing was copied. -/
theorem Follows.start (text old : String) : Follows text old [] {} {} :=
  ⟨⟨[], rfl, rfl⟩, rfl, rfl, rfl, by simp⟩

/-- The text is copied from where the last copy ended to a name. -/
theorem replace?_eq {done kept : List Char} (hcopied : r.copied = byteLength done) (htext : text.toList = done ++ kept ++ rest)
    (stop : Nat) :
    r.replace? text new ⟨byteLength (done ++ kept), stop⟩ = some {
      written? := some (r.written?.getD [] ++ utf8 kept ++ utf8 new)
      copied := stop
      count := r.count + 1
      names := r.names ++ [⟨byteLength (done ++ kept), stop⟩]
      slices := r.slices ++ [⟨byteLength done, byteLength (done ++ kept)⟩] } := by
  rw [replace?, hcopied, sliceBytes?_of_append htext]
  rfl

/-- The macro of a piece behind others stands where they and the gap end. -/
theorem toList_eq_of_piece (htext : text.toList = ps.flatMap Piece.text ++ p.text ++ rest) :
    text.toList = (ps.flatMap Piece.text ++ p.gap) ++ braced p.body ++ rest := by
  rw [htext, Piece.text, Piece.full, ← List.append_assoc]

/-- Taking a macro of the text out of it copies nothing. -/
theorem Follows.take (h : Follows text old ps c r) {b : MacroBounds} (hb : b.Within text) : Follows text old ps c (r.take b) := by
  have htaken : ∀ s ∈ [b.full, b.body], Sliceable text s :=
    List.forall_mem_cons.mpr ⟨hb.full, List.forall_mem_singleton.mpr hb.body⟩
  exact ⟨h.copied, h.written, h.count, h.names, List.forall_mem_append.mpr ⟨h.slices, htaken⟩⟩

/-- A step passes over a piece that does not name the variable. -/
theorem Follows.skip (h : Follows text old ps c r) (htext : text.toList = ps.flatMap Piece.text ++ p.text ++ rest)
    (hsite : p.site? old = none) (hname : (Kind.classify (trim p.body)).varName? ≠ some old) :
    ∃ r', r.step? text old new (p.boundsAfter ps) = some r' ∧ Follows text old (ps ++ [p]) (c.step old new p) r' := by
  have hmacro := toList_eq_of_piece htext
  have htaken : Follows text old ps c (r.take (p.boundsAfter ps)) := h.take (MacroBounds.within_ofBody hmacro)
  have hstep : r.step? text old new (p.boundsAfter ps) = some (r.take (p.boundsAfter ps)) := by
    rw [step?, Piece.boundsAfter, MacroBounds.token?_ofBody hmacro]
    simp only [Option.bind_eq_bind, Option.bind_some, Token.ofBody]
    split
    · next ht => rw [Kind.span?_eq_none_of_targets hname ht]; rfl
    · rfl
  have hcopy : c.step old new p = { c with pending := c.pending ++ p.text } := by rw [Copy.step, hsite]
  obtain ⟨done, hdone, hcopied⟩ := htaken.copied
  refine ⟨_, hstep, hcopy ▸ ⟨⟨done, ?_, hcopied⟩, htaken.written, htaken.count, ?_, htaken.slices⟩⟩
  · rw [List.flatMap_append, ← hdone]
    simp
  · rw [Piece.nameRanges_concat, hsite, htaken.names]
    simp

/-- A step replaces the name in a piece that names the variable. -/
theorem Follows.replace (h : Follows text old ps c r) (htext : text.toList = ps.flatMap Piece.text ++ p.text ++ rest)
    {pre post : List Char} (hbody : p.body = pre ++ old.toList ++ post)
    (hnaming : Naming pre old.toList post (Kind.classify (trim p.body)))
    (hsite : p.site? old = some ⟨'{' :: '{' :: pre, old.toList, post ++ ['}', '}']⟩) :
    ∃ r', r.step? text old new (p.boundsAfter ps) = some r' ∧ Follows text old (ps ++ [p]) (c.step old new p) r' := by
  have hmacro := toList_eq_of_piece htext
  have htaken : Follows text old ps c (r.take (p.boundsAfter ps)) := h.take (MacroBounds.within_ofBody hmacro)
  obtain ⟨done, hdone, hcopied⟩ := htaken.copied
  -- What is copied goes on where the last copy ended, and reaches to the name behind the keyword.
  obtain ⟨kept, hkept⟩ : ∃ kept, kept = c.pending ++ p.gap ++ '{' :: '{' :: pre := ⟨_, rfl⟩
  have hfront : done ++ kept = ps.flatMap Piece.text ++ p.gap ++ '{' :: '{' :: pre := by
    rw [hkept, ← hdone]
    simp
  have hsplit : text.toList = done ++ kept ++ (old.toList ++ post ++ ['}', '}'] ++ rest) := by
    rw [hfront, hmacro, hbody]
    simp [braced]
  have hspan := NameSite.span?_of_naming hnaming
  rw [← hbody] at hspan
  have hrange : (NameSite.range ⟨'{' :: '{' :: pre, old.toList, post ++ ['}', '}']⟩).shift
      (byteLength (ps.flatMap Piece.text ++ p.gap)) = ⟨byteLength (done ++ kept), byteLength (done ++ kept ++ old.toList)⟩ := by
    rw [byteLength_append (done ++ kept), hfront, byteLength_append (_ ++ _), Nat.add_assoc]
    rfl
  have hstep : r.step? text old new (p.boundsAfter ps) =
      (r.take (p.boundsAfter ps)).replace? text new
        ⟨byteLength (done ++ kept), byteLength (done ++ kept ++ old.toList)⟩ := by
    rw [step?, Piece.boundsAfter, MacroBounds.token?_ofBody hmacro, ← hrange]
    simp only [Option.bind_eq_bind, Option.bind_some, Token.ofBody]
    rw [if_pos (Kind.targets_of_varName? hnaming.varName?_toList), hspan]
    rfl
  have hcopy : c.step old new p = ⟨some (c.written?.getD [] ++ kept ++ new), post ++ ['}', '}'], c.count + 1⟩ := by
    rw [Copy.step, hsite, hkept]
    simp
  rw [replace?_eq hcopied hsplit] at hstep
  refine ⟨_, hstep, hcopy ▸ ⟨⟨done ++ kept ++ old.toList, ?_, rfl⟩, ?_, ?_, ?_, ?_⟩⟩
  · rw [hfront, List.flatMap_append, List.flatMap_singleton, Piece.text, Piece.full, hbody]
    simp [braced]
  · dsimp only
    rw [htaken.written]
    cases c.written? <;> simp
  · exact congrArg (· + 1) htaken.count
  · dsimp only
    rw [Piece.nameRanges_concat, hsite, htaken.names, Option.map_some, hrange]
    rfl
  · exact List.forall_mem_append.mpr ⟨htaken.slices, List.forall_mem_singleton.mpr (.of_append hsplit)⟩

/-- A step goes through one piece more, and no range that it takes out of the text cuts a character or leaves the text. -/
theorem Follows.step (h : Follows text old ps c r) (htext : text.toList = ps.flatMap Piece.text ++ p.text ++ rest)
    (new : List Char) :
    ∃ r', r.step? text old new (p.boundsAfter ps) = some r' ∧ Follows text old (ps ++ [p]) (c.step old new p) r' := by
  rcases p.site?_cases old with ⟨hsite, hname⟩ | ⟨pre, post, hbody, hnaming, hsite⟩
  · exact h.skip htext hsite hname
  · exact h.replace htext hbody hnaming hsite

/-- A run goes through its pieces. -/
theorem Follows.foldlM (h : Follows text old ps c r)
    (htext : text.toList = ps.flatMap Piece.text ++ (qs.flatMap Piece.text ++ rest)) (new : List Char) :
    ∃ r', ((Piece.located (byteLength (ps.flatMap Piece.text)) qs).map fun (offset, p) => .ofBody offset p.body).foldlM
        (step? text old new) r = some r' ∧
      Follows text old (ps ++ qs) (qs.foldl (Copy.step old new) c) r' := by
  induction qs generalizing ps c r with
  | nil => exact ⟨r, rfl, by rwa [List.append_nil]⟩
  | cons q qs ih =>
    have hq : text.toList = ps.flatMap Piece.text ++ q.text ++ (qs.flatMap Piece.text ++ rest) := by simp [htext]
    obtain ⟨r', hr', h'⟩ := h.step hq new
    obtain ⟨r'', hr'', h''⟩ := ih h' (by simp [hq])
    refine ⟨r'', ?_, by rwa [← List.append_cons] at h''⟩
    rw [List.flatMap_append, List.flatMap_singleton, byteLength_append] at hr''
    rw [Piece.boundsAfter, byteLength_append] at hr'
    rw [Piece.located, List.map_cons, List.foldlM_cons, hr']
    exact hr''

/-- At the end of the text what is left is copied, if anything was written. -/
theorem Follows.finish (h : Follows text old ps c r) (htext : text.toList = ps.flatMap Piece.text ++ rest) :
    ∃ r', r.finish? text = some r' ∧ r'.written? = c.written?.map (fun cs => utf8 (cs ++ c.pending ++ rest)) ∧
      r'.count = c.count ∧ r'.names = r.names ∧ ∀ s ∈ r'.slices, Sliceable text s := by
  obtain ⟨done, hdone, hcopied⟩ := h.copied
  have hwritten := h.written
  cases hc : c.written? with
  | none =>
    rw [hc, Option.map_none] at hwritten
    exact ⟨r, by rw [finish?, hwritten], hwritten, h.count, rfl, h.slices⟩
  | some cs =>
    rw [hc, Option.map_some] at hwritten
    have hsplit : text.toList = done ++ (c.pending ++ rest) ++ [] := by
      rw [htext, ← hdone]
      simp
    have hlast : (⟨byteLength done, byteLength (done ++ (c.pending ++ rest))⟩ : ByteRange) = ⟨r.copied, text.utf8ByteSize⟩ := by
      rw [hcopied, ← byteLength_toList, hsplit, List.append_nil]
    have hbytes := sliceBytes?_of_append hsplit
    rw [hlast] at hbytes
    refine ⟨{ r with written? := some (utf8 cs ++ utf8 (c.pending ++ rest)),
                     slices := r.slices ++ [⟨r.copied, text.utf8ByteSize⟩] }, ?_, ?_, h.count, rfl, ?_⟩
    · rw [finish?, hwritten]
      simp only [hbytes]
      rfl
    · simp
    · exact List.forall_mem_append.mpr ⟨h.slices, List.forall_mem_singleton.mpr (hlast ▸ .of_append hsplit)⟩

end Rewriter

/-! ## The names that are replaced -/

/-- The place of the name in a piece makes up the macro. -/
theorem Piece.text_of_site?_eq_some {old : String} {p : Piece} {s : NameSite} (h : p.site? old = some s) : s.text = p.full := by
  unfold site? at h
  dsimp only at h
  split at h
  · exact NameSite.text_of_find?_eq_some h
  · cases h

/-- Where a text is renamed stands the old name. -/
theorem Layout.exists_append_of_mem_nameRanges {old : String} {l : Layout} {s : ByteRange} (h : s ∈ l.nameRanges old) :
    old ≠ "" ∧ ∃ before after, l.text = before ++ old.toList ++ after ∧
      s = ⟨byteLength before, byteLength before + byteLength old.toList⟩ := by
  obtain ⟨⟨offset, p⟩, hentry, hs⟩ := List.mem_filterMap.mp h
  obtain ⟨site, hsite, rfl⟩ := Option.map_eq_some_iff.mp hs
  obtain ⟨before, after, htext, hoffset⟩ := text_eq_of_mem_located hentry
  rcases p.site?_cases old with ⟨hnone, -⟩ | ⟨pre, post, hbody, hnaming, hsome⟩
  · rw [hsite] at hnone
    cases hnone
  · rw [hsite] at hsome
    obtain rfl := Option.some.inj hsome
    refine ⟨Kind.ne_empty_of_varName?_classify hnaming.varName?_toList,
      before ++ '{' :: '{' :: pre, post ++ ['}', '}'] ++ after, ?_, ?_⟩
    · rw [htext, Piece.full, hbody]
      simp [braced]
    · rw [byteLength_append before]
      dsimp only at hoffset
      rw [hoffset, Nat.add_assoc]
      rfl

/-- A name that is replaced ends before the next one starts. -/
theorem Layout.pairwise_nameRanges (old : String) (l : Layout) :
    (l.nameRanges old).Pairwise fun s s' => s.stop ≤ s'.start := by
  rw [nameRanges, List.pairwise_filterMap]
  refine (Piece.pairwise_located_stop 0 l.pieces).imp fun {entry entry'} hle s hs s' hs' => ?_
  obtain ⟨site, hsite, rfl⟩ := Option.map_eq_some_iff.mp hs
  obtain ⟨site', -, rfl⟩ := Option.map_eq_some_iff.mp hs'
  -- The name ends inside its macro.
  have hfull := congrArg byteLength (Piece.text_of_site?_eq_some hsite)
  rw [NameSite.text, byteLength_append, byteLength_append] at hfull
  dsimp only [ByteRange.shift, NameSite.range]
  omega

/-- Writing over the names gives the renamed text. -/
theorem TextRenaming.splice?_nameRanges (old : String) (new : List Char) (position : Nat) (pending tail : List Char)
    (ps : List Piece) :
    splice? new position (pending ++ (ps.flatMap Piece.text ++ tail)) (Piece.nameRanges old (position + byteLength pending) ps) =
      some (pending ++ (ps.flatMap (Piece.renamedText old new) ++ tail)) := by
  induction ps generalizing position pending with
  | nil => rfl
  | cons p ps ih =>
    rw [Piece.nameRanges_cons]
    cases hsite : p.site? old with
    | none =>
      have hlater := ih position (pending ++ p.text)
      rw [byteLength_append, ← Nat.add_assoc] at hlater
      simpa [Piece.renamedText, hsite] using hlater
    | some s =>
      have hfull : p.text = p.gap ++ (s.before ++ s.name ++ s.after) :=
        congrArg (p.gap ++ ·) (Piece.text_of_site?_eq_some hsite).symm
      have hsplit : pending ++ ((p :: ps).flatMap Piece.text ++ tail) =
          (pending ++ p.gap ++ s.before) ++ (s.name ++ (s.after ++ (ps.flatMap Piece.text ++ tail))) := by
        simp [hfull]
      obtain ⟨start, hstart⟩ : ∃ start, start = position + byteLength (pending ++ p.gap ++ s.before) := ⟨_, rfl⟩
      have hrange : s.range.shift (position + byteLength pending + byteLength p.gap) = ⟨start, start + byteLength s.name⟩ := by
        rw [ByteRange.shift, NameSite.range, hstart, byteLength_append, byteLength_append]
        simp only [Nat.add_assoc]
      have hlater := ih (start + byteLength s.name) s.after
      have hbehind : start + byteLength s.name + byteLength s.after = position + byteLength pending + byteLength p.text := by
        rw [hstart, hfull]
        simp only [byteLength_append]
        omega
      rw [hbehind] at hlater
      have hguard : position ≤ start ∧ start ≤ start + byteLength s.name := ⟨hstart ▸ Nat.le_add_right .., Nat.le_add_right ..⟩
      have hkept : start - position = byteLength (pending ++ p.gap ++ s.before) := by omega
      rw [Option.map_some, hrange, Option.toList_some, List.singleton_append, splice?, guard, if_pos hguard, hsplit]
      simp only [hkept, Nat.add_sub_cancel_left, cutAt_append, Option.bind_eq_bind, Option.pure_def, Option.bind_some, hlater]
      simp [Piece.renamedText, hsite, NameSite.renamed]

/-! ## The run -/

/-- What a renaming does with a text: the ranges that it takes out of the text and those of the names it replaces lie in the
text, in their order, and cut no character; the names are one behind the other; and the bytes that it writes are those of the
renamed text. -/
structure Rewriter.Sound (text old new : String) (r : Rewriter) : Prop where
  slices : ∀ s ∈ r.slices, Sliceable text s ∧ s.stop ≤ text.utf8ByteSize
  names : ∀ s ∈ r.names, Sliceable text s ∧ s.start < s.stop ∧ s.stop ≤ text.utf8ByteSize ∧
    slice? text.toList s = some old.toList
  increasing : r.names.Pairwise fun s s' => s.stop ≤ s'.start
  sites : r.names = (TextRenaming.ofText text old new).sites
  count : r.count = (TextRenaming.ofText text old new).count
  /-- Nothing is written when no name is replaced. -/
  written : r.written? =
    if (TextRenaming.ofText text old new).count = 0 then none else some (utf8 (TextRenaming.ofText text old new).text.toList)
  valid : ∀ bytes, r.written? = some bytes → bytes.toByteArray.IsValidUTF8
  /-- The same text comes of writing the new name over the ranges. -/
  splice : TextRenaming.splice? new.toList 0 text.toList r.names = some (TextRenaming.ofText text old new).text.toList

/-- Each range in which a text is renamed holds the old name. -/
theorem TextRenaming.sliceable_of_mem_sites {text old new : String} {s : ByteRange} (h : s ∈ (ofText text old new).sites) :
    Sliceable text s ∧ s.start < s.stop ∧ slice? text.toList s = some old.toList := by
  obtain ⟨hold, before, after, htext, rfl⟩ := Layout.exists_append_of_mem_nameRanges h
  rw [Layout.text_ofText] at htext
  have hpos : 0 < byteLength old.toList := by
    rw [Nat.pos_iff_ne_zero, Ne, byteLength_eq_zero, String.toList_eq_nil_iff]
    exact hold
  exact ⟨Sliceable.iff_exists_append.mpr ⟨_, _, _, htext, rfl⟩, Nat.lt_add_of_pos_right hpos,
    slice?_eq_some_iff.mpr ⟨_, _, htext, rfl⟩⟩

/-- A renaming of a text takes no range out of it that cuts a character or leaves the text, so it succeeds. -/
theorem Rewriter.exists_run?_sound (text old new : String) : ∃ r, run? text old new = some r ∧ r.Sound text old new := by
  have htext : text.toList = (Layout.ofText text.toList).pieces.flatMap Piece.text ++ (Layout.ofText text.toList).tail :=
    (Layout.text_ofText text.toList).symm
  obtain ⟨r, hrun, hfollows⟩ := (Follows.start text old).foldlM htext new.toList
  rw [List.nil_append] at hfollows
  have hcopy := TextRenaming.copy?_eq text old new
  rw [TextRenaming.copy?] at hcopy
  generalize (Layout.ofText text.toList).pieces.foldl (Copy.step old new.toList) {} = c at hfollows hcopy
  obtain ⟨hcopied, hcount⟩ := Prod.mk.inj hcopy
  obtain ⟨r', hfinish, hwritten, hcount', hnames, hslices⟩ := hfollows.finish htext
  have hsites : r'.names = (TextRenaming.ofText text old new).sites := hnames.trans hfollows.names
  have hbytes : r'.written? = if (TextRenaming.ofText text old new).count = 0 then none
      else some (utf8 (TextRenaming.ofText text old new).text.toList) := by
    have hmap := congrArg (Option.map fun s : String => utf8 s.toList) hcopied
    rw [Option.map_map, apply_ite (Option.map _), Option.map_none, Option.map_some] at hmap
    rw [hwritten, ← hmap]
    exact congrArg (Option.map · c.written?) (funext fun cs => congrArg utf8 String.toList_ofList.symm)
  refine ⟨r', ?_, ?_, ?_, ?_, hsites, hcount'.trans hcount, hbytes, ?_, ?_⟩
  · have hfold : (macroBounds text).foldlM (step? text old new.toList) {} = some r := hrun
    rw [run?, walk?_utf8, Option.bind_eq_bind, Option.bind_some, hfold, Option.bind_eq_bind, Option.bind_some, hfinish]
  · exact fun s hs => ⟨hslices s hs, (hslices s hs).le_utf8ByteSize⟩
  · intro s hs
    obtain ⟨hs, hlt, hslice⟩ := TextRenaming.sliceable_of_mem_sites (hsites ▸ hs)
    exact ⟨hs, hlt, hs.le_utf8ByteSize, hslice⟩
  · rw [hsites]
    exact Layout.pairwise_nameRanges old _
  · intro bytes hw
    rw [hbytes] at hw
    split at hw
    · cases hw
    · obtain rfl := Option.some.inj hw
      exact isValidUTF8_utf8 _
  · have hsplice := TextRenaming.splice?_nameRanges old new.toList 0 [] (Layout.ofText text.toList).tail
      (Layout.ofText text.toList).pieces
    rw [List.nil_append, ← htext] at hsplice
    rw [hsites, TextRenaming.ofText, String.toList_ofList]
    exact hsplice

/-- A walk over the bytes of a text stays among them, and the bounds that it finds lie in the text, in their order and one
macro behind the other, and cut no character; between them stand the macros of the text. A renaming of a text takes only such
ranges out of it, so it succeeds, and what it writes is the renamed text. -/
theorem walk?_and_run?_sound (text : String) :
    (ByteScan.walk? (utf8 text.toList) 0 = some (macroBounds text) ∧ (∀ b ∈ macroBounds text, b.Within text) ∧
      ((macroBounds text).Pairwise fun b b' => b.stop ≤ b'.opening) ∧
      (macroBounds text).map (MacroBounds.token? text) = (Token.ofText text.toList).map some) ∧
    ∀ old new : String, ∃ r, Rewriter.run? text old new = some r ∧ r.Sound text old new :=
  ⟨⟨walk?_utf8 text, fun _ => within_of_mem_macroBounds, pairwise_macroBounds text, map_token?_macroBounds text⟩,
    Rewriter.exists_run?_sound text⟩

/-- A wide space stands before the keyword, the name has letters of two bytes, and behind it there are three colons. -/
theorem walk?_and_run?_sound_wide :
    let text := "é\x7b\x7b\u2003setvar::größe :::x\x7d\x7d"
    let b : MacroBounds := ⟨2, 4, 27, 29⟩
    let r : Rewriter := {
      written? := some (utf8 "é\x7b\x7b\u2003setvar::y :::x\x7d\x7d".toList)
      copied := 22
      count := 1
      names := [⟨15, 22⟩]
      slices := [⟨2, 29⟩, ⟨4, 27⟩, ⟨0, 15⟩, ⟨22, 29⟩] }
    b ∈ macroBounds text ∧ b.Within text ∧ Rewriter.run? text "größe" "y" = some r ∧ r.Sound text "größe" "y" := by
  intro text b r
  have hb : b ∈ macroBounds text := by decide +kernel
  have hr : Rewriter.run? text "größe" "y" = some r := by decide +kernel
  obtain ⟨⟨-, hwithin, -, -⟩, hsound⟩ := walk?_and_run?_sound text
  obtain ⟨r', hr', h⟩ := hsound "größe" "y"
  obtain rfl : r' = r := Option.some.inj (hr'.symm.trans hr)
  exact ⟨hb, hwithin b hb, hr', h⟩

end PromptMacros
