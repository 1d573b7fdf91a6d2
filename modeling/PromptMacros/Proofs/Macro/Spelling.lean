import PromptMacros.Proofs.Macro.Layout
import PromptMacros.Proofs.Macro.Naming
import PromptMacros.Proofs.Text.Segments

/-!
# The plainest spelling of a kind

A macro that says what a kind says and nothing else has the parts of the kind behind its keyword, each between spaces
(`Kind.spelling`). The parts that a body has are trimmed, and hold neither the separator of parts nor the end of a macro
(`Kind.regular_classify`); so the spelling closes at its end and falls into the same parts again (`Kind.classify_spelledBody`).
These are all the kinds that a macro can be of (`Kind.regular_iff_exists_mem`).
-/

namespace PromptMacros

open Text

namespace Kind

/-! ## The parts of a kind -/

/-- A text that can stand in a body, without white space at its ends. -/
structure Enclosed (s : String) : Prop where
  trimmed : trim s.toList = s.toList
  /-- No macro that holds the text closes in it. -/
  unclosed : ¬['}', '}'] <:+: s.toList

/-- A text that can stand between two separators in a body, without white space at its ends. -/
structure Segment (s : String) : Prop extends Enclosed s where
  undivided : ¬[':', ':'] <:+: s.toList

/-- Nothing, or a text with characters that can stand between two separators. -/
def Filled (part? : Option String) : Prop :=
  ∀ s, part? = some s → Segment s ∧ s ≠ ""

/-- The parts of a kind are trimmed and can stand where a body has them; what is there has characters. -/
def Regular : Kind → Prop
  | comment => True
  | setVar name value => Filled name ∧ Filled value
  | getVar name => Enclosed name
  | other tag params => (Segment tag ∧ tag ≠ "" ∧ ¬commentMark <+: tag.toList) ∧ ∀ p ∈ params, Segment p

/-- The body that says what a kind says, its parts between spaces. -/
def spelledBody : Kind → List Char
  | comment => padded commentMark
  | setVar name value => ' ' :: setKeyword ++ (padded (name.getD "").toList ++ listed (value.toList.map String.toList))
  | getVar name => ' ' :: getKeyword ++ padded name.toList
  | other tag params => padded tag.toList ++ listed (params.map String.toList)

/-- The macro that says what a kind says, its parts between spaces. -/
def spelling (k : Kind) : String :=
  String.ofList (braced k.spelledBody)

/-! ## What a body has -/

variable {body part : List Char}

/-- A text in which a macro does not close is enclosed once it is trimmed. -/
theorem enclosed_trim (h : cutPair '}' part = none) : Enclosed (String.ofList (trim part)) := by
  refine ⟨?_, ?_⟩
  · rw [String.toList_ofList, trim_trim]
  · rw [String.toList_ofList, ← cutPair_eq_none_iff]
    exact cutPair_eq_none_of_isInfix (trim_isInfix part) h

/-- A segment of a body in which its macro does not close is one once it is trimmed. -/
theorem segment_trim (hbody : cutPair '}' body = none) (hpart : part ∈ segments body) :
    Segment (String.ofList (trim part)) := by
  refine ⟨enclosed_trim (cutPair_eq_none_of_isInfix (infix_of_mem_segments hpart) hbody), ?_⟩
  rw [String.toList_ofList, ← cutPair_eq_none_iff]
  exact cutPair_eq_none_of_isInfix (trim_isInfix part) (cutPair_eq_none_of_mem_segments hpart)

/-- What is not blank is what trimming leaves. -/
theorem eq_ofList_trim_of_nonBlank? {s : String} (h : nonBlank? part = some s) :
    s = String.ofList (trim part) ∧ s ≠ "" := by
  obtain ⟨hs, hne⟩ := nonBlank?_eq_some_iff.mp h
  exact ⟨by rw [← hs, String.ofList_toList], hne⟩

/-- A segment of a body that is not blank. -/
theorem segment_of_nonBlank? (hbody : cutPair '}' body = none) {i : Nat} {s : String}
    (h : (segments body)[i]?.bind nonBlank? = some s) : Segment s ∧ s ≠ "" := by
  obtain ⟨part, hpart, hs⟩ := Option.bind_eq_some_iff.mp h
  obtain ⟨rfl, hne⟩ := eq_ofList_trim_of_nonBlank? hs
  exact ⟨segment_trim hbody (List.mem_of_getElem? hpart), hne⟩

/-- The tag of a body that is no comment does not start like one. -/
theorem not_commentMark_isPrefix {s : String} (htrim : trim body = body) (hmark : ¬commentMark <+: body)
    (h : (segments body).head?.bind nonBlank? = some s) : ¬commentMark <+: s.toList := by
  obtain ⟨part, hpart, hs⟩ := Option.bind_eq_some_iff.mp h
  obtain ⟨rfl, -⟩ := eq_ofList_trim_of_nonBlank? hs
  have hstarts := prefix_of_mem_head?_segments hpart
  -- A trimmed body starts with no white space, so neither does its first segment.
  have hhead : ∀ c ∈ part.head?, isBlank c = false := by
    intro c hc
    have hbody : Trimmed (trim body) := by
      refine trimmed_trim fun hnil => ?_
      rw [htrim] at hnil
      rw [hnil, List.prefix_nil] at hstarts
      rw [hstarts] at hc
      cases hc
    rw [htrim] at hbody
    obtain ⟨more, rfl⟩ := hstarts
    refine hbody.head c ?_
    rw [List.head?_append, Option.mem_def.mp hc]
    rfl
  rw [String.toList_ofList, trim, trimStart_eq_self hhead]
  obtain ⟨trail, htrail, -⟩ := exists_trimEnd_append part
  exact fun hp => hmark (hp.trans (List.IsPrefix.trans ⟨trail, htrail⟩ hstarts))

/-- A text starts with `lead` when something follows `lead` in it. -/
theorem isSome_after?_iff {lead cs : List Char} : (after? lead cs).isSome ↔ lead <+: cs := by
  simp only [Option.isSome_iff_exists, after?_eq_some_iff]
  exact ⟨fun ⟨rest, h⟩ => ⟨rest, h.symm⟩, fun ⟨rest, h⟩ => ⟨rest, h.symm⟩⟩

theorem after?_eq_none_iff {lead cs : List Char} : after? lead cs = none ↔ ¬lead <+: cs := by
  rw [← isSome_after?_iff, Option.not_isSome_iff_eq_none]

/-- The tag that stands for a blank one is a segment. -/
theorem segment_unknownTag : Segment unknownTag ∧ unknownTag ≠ "" ∧ ¬commentMark <+: unknownTag.toList := by
  refine ⟨⟨⟨?_, ?_⟩, ?_⟩, ?_, ?_⟩ <;> decide +kernel

/-- The kind of a trimmed body in which its macro does not close has regular parts. -/
theorem regular_classify (htrim : trim body = body) (hbody : cutPair '}' body = none) : (classify body).Regular := by
  unfold classify
  split
  · trivial
  · next hmark =>
    rw [isSome_after?_iff] at hmark
    have hrest : ∀ {keyword rest : List Char}, after? keyword body = some rest → cutPair '}' rest = none := by
      intro keyword rest h
      refine cutPair_eq_none_of_isInfix (List.IsSuffix.isInfix ⟨keyword, ?_⟩) hbody
      exact (after?_eq_some_iff.mp h).symm
    split
    · next rest hset =>
      exact ⟨fun s hs => segment_of_nonBlank? (hrest hset) hs, fun s hs => segment_of_nonBlank? (hrest hset) hs⟩
    · split
      · next rest hget => exact enclosed_trim (hrest hget)
      · refine ⟨?_, fun p hp => ?_⟩
        · cases htag : (segments body).head?.bind nonBlank? with
          | none => exact segment_unknownTag
          | some tag =>
            have hsegment : (segments body)[0]?.bind nonBlank? = some tag := by rwa [← List.head?_eq_getElem?]
            obtain ⟨h, hne⟩ := segment_of_nonBlank? hbody hsegment
            exact ⟨h, hne, not_commentMark_isPrefix htrim hmark htag⟩
        · obtain ⟨part, hpart, rfl⟩ := List.mem_map.mp hp
          exact segment_trim hbody (List.mem_of_mem_tail hpart)

/-! ## What the spelling says -/

/-- A part of one body that is not blank is that of another whose parts are the same once they are trimmed. -/
theorem bind_nonBlank?_congr {ps qs : List (List Char)} (h : ps.map trim = qs.map trim) (i : Nat) :
    ps[i]?.bind nonBlank? = qs[i]?.bind nonBlank? := by
  have htrim : ∀ part? : Option (List Char), part?.bind nonBlank? =
      (part?.map trim).bind fun cs => if cs = [] then none else some (String.ofList cs) := by
    intro part?
    cases part? <;> rfl
  rw [htrim, htrim, ← List.getElem?_map, ← List.getElem?_map, h]

/-- A trimmed part is there when it has characters. -/
theorem nonBlank?_toList {s : String} (h : Enclosed s) (hne : s ≠ "") : nonBlank? s.toList = some s :=
  nonBlank?_eq_some_iff.mpr ⟨h.trimmed.symm, hne⟩

theorem Segment.cutPair {s : String} (h : Segment s) : Text.cutPair ':' s.toList = none :=
  cutPair_eq_none_iff.mpr h.undivided

theorem Enclosed.cutPair {s : String} (h : Enclosed s) : Text.cutPair '}' s.toList = none :=
  cutPair_eq_none_iff.mpr h.unclosed

/-- Nothing is spelled as a blank part. -/
theorem Filled.nonBlank?_getD {part? : Option String} (h : Filled part?) : nonBlank? (part?.getD "").toList = part? := by
  cases part? with
  | none => rfl
  | some s => exact nonBlank?_toList (h s rfl).1.toEnclosed (h s rfl).2

/-- A part that may be absent is spelled as a segment. -/
theorem Filled.segment_getD {part? : Option String} (h : Filled part?) : Segment (part?.getD "") := by
  cases part? with
  | none => exact ⟨⟨by decide +kernel, by decide +kernel⟩, by decide +kernel⟩
  | some s => exact (h s rfl).1

theorem Filled.segment_of_mem {part? : Option String} (h : Filled part?) : ∀ s ∈ part?.toList, Segment s :=
  fun s hs => (h s (Option.mem_toList.mp hs)).1

/-- Parts spelled between spaces are the parts that a body has. -/
theorem map_trim_segments_spelled {first : String} {more : List String} (h : ∀ s ∈ first :: more, Segment s) :
    (segments (padded first.toList ++ listed (more.map String.toList))).map trim = (first :: more).map String.toList := by
  have hparts : ∀ p ∈ first.toList :: more.map String.toList, cutPair ':' p = none ∧ trim p = p := by
    rw [← List.map_cons]
    intro p hp
    obtain ⟨s, hs, rfl⟩ := List.mem_map.mp hp
    exact ⟨(h s hs).cutPair, (h s hs).trimmed⟩
  exact map_trim_segments_listed (fun p hp => (hparts p hp).1) fun p hp => (hparts p hp).2

/-- A text starts with a lead that does not have a character of it when it does so up to this character. -/
theorem prefix_of_prefix_append_cons {lead xs ys : List Char} {c : Char} (hc : c ∉ lead) (h : lead <+: xs ++ c :: ys) :
    lead <+: xs := by
  rcases List.prefix_or_prefix_of_prefix h (List.prefix_append xs _) with hlead | ⟨more, rfl⟩
  · exact hlead
  · cases more with
    | nil => exact (List.append_nil xs).symm ▸ List.prefix_rfl
    | cons d more =>
      obtain rfl : d = c := by
        have hstarts := (List.prefix_append_right_inj xs).mp h
        exact (List.cons_prefix_cons.mp hstarts).1
      exact absurd (by simp) hc

/-- White space in front of a keyword, and behind what follows it, is trimmed off. -/
theorem trim_keyword {keyword : List Char} (hk : Trimmed keyword) (hlast : keyword.getLast? = some ':') (rest : List Char) :
    trim (' ' :: keyword ++ rest) = keyword ++ trimEnd rest := by
  obtain ⟨front, rfl⟩ : ∃ front, keyword = front ++ [':'] := by
    rcases List.eq_nil_or_concat keyword with rfl | ⟨front, c, rfl⟩
    · cases hlast
    · simp only [List.concat_eq_append, List.getLast?_concat, Option.some.injEq] at hlast
      exact ⟨front, by rw [List.concat_eq_append, hlast]⟩
  have hhead : ∀ c ∈ (front ++ [':'] ++ rest).head?, isBlank c = false := by
    intro c hc
    refine hk.head c ?_
    obtain ⟨a, as, has⟩ := List.exists_cons_of_ne_nil hk.ne_nil
    rw [has] at hc ⊢
    exact hc
  have htext : ' ' :: (front ++ [':']) ++ rest = [' '] ++ (front ++ [':'] ++ rest) := rfl
  rw [htext, trim, trimStart_append blanks_space hhead, List.append_assoc, List.singleton_append,
    trimEnd_append_cons isBlank_colon]
  simp

/-- A body that does not start with what marks the other kinds is split into its tag and parameters. -/
theorem classify_of_not_isPrefix (hmark : ¬commentMark <+: body) (hset : ¬setKeyword <+: body) (hget : ¬getKeyword <+: body) :
    classify body = .other (((segments body).head?.bind nonBlank?).getD unknownTag)
      ((segments body).tail.map fun p => String.ofList (trim p)) := by
  simp only [classify, after?_eq_none_iff.mpr hmark, after?_eq_none_iff.mpr hset, after?_eq_none_iff.mpr hget,
    Option.isSome_none, Bool.false_eq_true, ite_false]

/-- A body that sets a variable says so, with its name and its value. -/
theorem classify_spelledBody_setVar {name value : Option String} (hname : Filled name) (hvalue : Filled value) :
    classify (trim (setVar name value).spelledBody) = .setVar name value := by
  have hparts : (segments (trimEnd (padded (name.getD "").toList ++ listed (value.toList.map String.toList)))).map trim =
      ((name.getD "" :: value.toList).map String.toList).map trim := by
    have hsegment : ∀ s ∈ name.getD "" :: value.toList, Segment s :=
      List.forall_mem_cons.mpr ⟨hname.segment_getD, hvalue.segment_of_mem⟩
    rw [map_trim_segments_trimEnd, map_trim_segments_spelled hsegment, List.map_map]
    exact List.map_congr_left fun s hs => (hsegment s hs).trimmed.symm
  rw [spelledBody, trim_keyword Naming.trimmed_setKeyword rfl, classify_setKeyword, bind_nonBlank?_congr hparts,
    bind_nonBlank?_congr hparts, List.map_cons, List.getElem?_cons_zero, List.getElem?_cons_succ, Option.bind_some,
    hname.nonBlank?_getD]
  cases value with
  | none => rfl
  | some s => exact congrArg (setVar name) (Filled.nonBlank?_getD hvalue)

/-- A body that reads a variable says so, with its name. -/
theorem classify_spelledBody_getVar {name : String} (h : Enclosed name) :
    classify (trim (getVar name).spelledBody) = .getVar name := by
  rw [spelledBody, trim_keyword Naming.trimmed_getKeyword rfl, classify_getKeyword, trim_trimEnd, trim_padded, h.trimmed,
    String.ofList_toList]

/-- Any other body says so, with its tag and its parameters. -/
theorem classify_spelledBody_other {tag : String} {params : List String} (htag : Segment tag) (hne : tag ≠ "")
    (hmark : ¬commentMark <+: tag.toList) (hparams : ∀ p ∈ params, Segment p) :
    classify (trim (other tag params).spelledBody) = .other tag params := by
  have htrimmed : Trimmed tag.toList := by
    rw [← htag.trimmed]
    refine trimmed_trim ?_
    rwa [htag.trimmed, Ne, String.toList_eq_nil_iff]
  -- The trimmed body starts with the tag and a space, so with no mark or keyword that the tag does not start with.
  have hlead : ∀ lead : List Char, ' ' ∉ lead → ¬lead <+: tag.toList → ¬lead <+: trim (other tag params).spelledBody := by
    intro lead hspace hlead hp
    have htext : (other tag params).spelledBody = [' '] ++ (tag.toList ++ ' ' :: listed (params.map String.toList)) := by
      simp [spelledBody, padded]
    have hhead : ∀ c ∈ (tag.toList ++ ' ' :: listed (params.map String.toList)).head?, isBlank c = false := by
      rw [List.head?_append_of_ne_nil _ htrimmed.ne_nil]
      exact htrimmed.head
    rw [htext, trim, trimStart_append blanks_space hhead] at hp
    obtain ⟨trail, htrail, -⟩ := exists_trimEnd_append (tag.toList ++ ' ' :: listed (params.map String.toList))
    exact hlead (prefix_of_prefix_append_cons hspace (hp.trans ⟨trail, htrail⟩))
  have hkeyword : ∀ keyword : List Char, [':', ':'] <:+: keyword → ¬keyword <+: tag.toList := fun keyword hcolons hp =>
    htag.undivided (hcolons.trans hp.isInfix)
  have hparts : (segments (trim (other tag params).spelledBody)).map trim = (tag :: params).map String.toList := by
    rw [map_trim_segments_trim, spelledBody, map_trim_segments_spelled (List.forall_mem_cons.mpr ⟨htag, hparams⟩)]
  rw [classify_of_not_isPrefix (hlead _ (by decide) hmark) (hlead _ (by decide) (hkeyword _ (by decide)))
    (hlead _ (by decide) (hkeyword _ (by decide)))]
  generalize segments (trim (other tag params).spelledBody) = parts at hparts
  cases parts with
  | nil => cases hparts
  | cons first more =>
    obtain ⟨hfirst, hmore⟩ := List.cons.inj hparts
    have hblank : nonBlank? first = some tag := nonBlank?_eq_some_iff.mpr ⟨hfirst.symm, hne⟩
    have hmap : more.map (fun p => String.ofList (trim p)) = params := by
      have h := congrArg (List.map String.ofList) hmore
      rw [List.map_map, List.map_map] at h
      refine h.trans ((List.map_congr_left fun s _ => ?_).trans (List.map_id _))
      exact String.ofList_toList
    rw [List.head?_cons, Option.bind_some, hblank, Option.getD_some, List.tail_cons, hmap]

/-- The plainest body says what the kind says. -/
theorem classify_spelledBody {k : Kind} (h : k.Regular) : classify (trim k.spelledBody) = k := by
  cases k with
  | comment =>
    rw [spelledBody, trim_padded]
    rfl
  | setVar name value => exact classify_spelledBody_setVar h.1 h.2
  | getVar name => exact classify_spelledBody_getVar h
  | other tag params =>
    obtain ⟨⟨htag, hne, hmark⟩, hparams⟩ := h
    exact classify_spelledBody_other htag hne hmark hparams

/-- The macro of the plainest body closes at its end. -/
theorem cutPair_spelledBody {k : Kind} (h : k.Regular) : cutPair '}' (k.spelledBody ++ ['}']) = none := by
  have hbrace : cutPair '}' ['}'] = none := by simp [cutPair]
  have hlisted : ∀ {first : String} {more : List String}, Enclosed first → (∀ p ∈ more, Segment p) →
      cutPair '}' (padded first.toList ++ listed (more.map String.toList) ++ ['}']) = none := by
    intro first more hfirst hmore
    rw [List.append_assoc, cutPair_padded_append_eq_none_iff (by decide),
      cutPair_listed_append_eq_none_iff (by decide) (by decide)]
    refine ⟨hfirst.cutPair, fun p hp => ?_, hbrace⟩
    obtain ⟨s, hs, rfl⟩ := List.mem_map.mp hp
    exact (hmore s hs).toEnclosed.cutPair
  have hkeyword : ∀ {keyword rest : List Char}, '}' ∉ keyword → cutPair '}' (rest ++ ['}']) = none →
      cutPair '}' (' ' :: keyword ++ rest ++ ['}']) = none := by
    intro keyword rest hkeyword hrest
    have htext : ' ' :: keyword ++ rest ++ ['}'] = [] ++ ' ' :: keyword ++ (rest ++ ['}']) := by simp
    rw [htext, cutPair_around_eq_none_iff (by simp) (by simpa using hkeyword)]
    exact ⟨rfl, hrest⟩
  cases k with
  | comment => exact (cutPair_padded_append_eq_none_iff (by decide)).mpr ⟨by decide, hbrace⟩
  | setVar name value => exact hkeyword (by decide) (hlisted h.1.segment_getD.toEnclosed h.2.segment_of_mem)
  | getVar name => exact hkeyword (by decide) ((cutPair_padded_append_eq_none_iff (by decide)).mpr ⟨h.cutPair, hbrace⟩)
  | other tag params => exact hlisted h.1.1.toEnclosed h.2

end Kind

/-! ## Spellings and macros -/

namespace Macro

/-- A body that closes at its end makes up a document of one macro. -/
theorem ofContent_braced {body : List Char} (h : cutPair '}' (body ++ ['}']) = none) (document : String) :
    ofContent document (String.ofList (braced body)) = [ofToken document (Token.ofBody 0 body)] := by
  have hlayout : (Layout.mk [⟨[], body⟩] []).WellFormed := by
    refine ⟨fun p hp => ?_, rfl⟩
    rw [List.mem_singleton.mp hp]
    exact ⟨by simp [cutPair], h⟩
  have htext : (Layout.mk [⟨[], body⟩] []).text = braced body := by simp [Layout.text, Piece.text, Piece.full]
  rw [ofContent_eq_map, String.toList_ofList, ← htext, hlayout.ofText_text]
  rfl

/-- The kind of a macro of a document has regular parts. -/
theorem regular_kind {document content : String} {m : Macro} (hm : m ∈ ofContent document content) : m.kind.Regular := by
  rw [ofContent_eq_map] at hm
  obtain ⟨entry, hentry, rfl⟩ := List.mem_map.mp hm
  have hpiece : entry.2 ∈ (Layout.ofText content.toList).pieces := by
    rw [← Piece.map_snd_located 0 (Layout.ofText content.toList).pieces]
    exact List.mem_map_of_mem hentry
  have hbody := ((Layout.wellFormed_ofText content.toList).pieces _ hpiece).body
  exact Kind.regular_classify (trim_trim _)
    (cutPair_eq_none_of_isInfix (trim_isInfix _) (cutPair_append_eq_none_iff.mp hbody).1)

end Macro

/-- A document that consists of the plainest spelling of a kind has one macro, which is all of it and is of this kind. -/
theorem Kind.exists_ofContent_spelling {k : Kind} (h : k.Regular) (document : String) :
    ∃ m, Macro.ofContent document k.spelling = [m] ∧ m.full = k.spelling ∧
      m.range = ⟨0, byteLength k.spelling.toList⟩ ∧ m.kind = k := by
  refine ⟨.ofToken document (.ofBody 0 k.spelledBody), Macro.ofContent_braced (k.cutPair_spelledBody h) document, rfl, ?_,
    k.classify_spelledBody h⟩
  rw [spelling, String.toList_ofList]
  exact congrArg (ByteRange.mk 0) (Nat.zero_add _)

/-- The kinds with regular parts are those that macros are of. -/
theorem Kind.regular_iff_exists_mem {k : Kind} :
    k.Regular ↔ ∃ document content, ∃ m ∈ Macro.ofContent document content, m.kind = k := by
  constructor
  · intro h
    obtain ⟨m, hm, -, -, hkind⟩ := k.exists_ofContent_spelling h ""
    exact ⟨"", k.spelling, m, by simp [hm], hkind⟩
  · rintro ⟨document, content, m, hm, rfl⟩
    exact Macro.regular_kind hm

/-- The kind of a macro has regular parts and loses nothing when it is spelled out: a document that consists of its plainest
spelling has one macro, which is all of it and is of the same kind. -/
theorem regular_and_respelled {document content : String} {m : Macro} (hm : m ∈ Macro.ofContent document content) :
    m.kind.Regular ∧ ∀ id, ∃ m', Macro.ofContent id m.kind.spelling = [m'] ∧ m'.full = m.kind.spelling ∧
      m'.range = ⟨0, byteLength m.kind.spelling.toList⟩ ∧ m'.kind = m.kind :=
  ⟨Macro.regular_kind hm, Kind.exists_ofContent_spelling (Macro.regular_kind hm)⟩

/-- Colons and braces at the ends of a name and of a value stay apart from the separators and from the end of the macro. -/
theorem regular_and_respelled_colons :
    let content := "\x7b\x7bsetvar:::a\x7d :\x7d::: :b:\x7d\x7d"
    let kind := Kind.setVar (some ":a\x7d :\x7d") (some ": :b:")
    let m : Macro := ⟨⟨"d", 0⟩, content, "setvar:::a\x7d :\x7d::: :b:", ⟨0, 25⟩, kind⟩
    m ∈ Macro.ofContent "d" content ∧ kind.spelling = "\x7b\x7b setvar:: :a\x7d :\x7d :: : :b: \x7d\x7d" ∧
      kind.Regular ∧ ∀ id, ∃ m', Macro.ofContent id kind.spelling = [m'] ∧ m'.full = kind.spelling ∧
        m'.range = ⟨0, byteLength kind.spelling.toList⟩ ∧ m'.kind = kind := by
  intro content kind m
  have hm : m ∈ Macro.ofContent "d" content := by decide +kernel
  exact ⟨hm, by decide +kernel, regular_and_respelled hm⟩

end PromptMacros
