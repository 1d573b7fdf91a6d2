import PromptMacros.Proofs.Macro.Decomposition
import PromptMacros.Proofs.Macro.Naming

/-!
# The range of a name

The range of bytes in which a macro names its variable follows from lengths alone: what trimming takes off the start of the
body and of the segment with the name, and the length of the keyword between them (`NameSite.span?`). It is the range of the
place that is found by its characters (`NameSite.span?_braced`). So a macro has a range exactly when its kind names a
variable, and in the range stands the name, behind the keyword and before a separator or the end of the macro
(`span?_of_mem_ofText`).
-/

namespace PromptMacros

open Text

namespace NameSite

/-- Where a macro of this kind names its variable, in bytes from the opening of the macro; nothing when it names none. -/
def span? (kind : Kind) (full : List Char) : Option ByteRange := do
  let keyword ← keyword? kind
  guard (2 ≤ byteLength full)
  let body ← slice? full ⟨2, byteLength full - 2⟩
  let innerStart := 2 + byteLength body - byteLength (trimStart body)
  let rest ← after? keyword (trim body)
  let segment := segmentOf kind rest
  let start := innerStart + byteLength keyword + byteLength segment - byteLength (trimStart segment)
  pure ⟨start, start + byteLength (trim segment)⟩

/-- The kind names the variable in the range `r` of the macro `full`. -/
structure Locates (kind : Kind) (full : List Char) (r : ByteRange) (name : String) : Prop where
  named : kind.varName? = some name
  slice : slice? full r = some name.toList
  /-- Before the name stand the opening braces and the keyword, behind it a separator or the closing braces, and otherwise white
  space. A macro that reads a variable has nothing but the closing braces behind the name. -/
  around : ∃ keyword lead pad trail rest, Blanks lead ∧ Blanks pad ∧ Blanks trail ∧
    full = ['{', '{'] ++ lead ++ keyword ++ pad ++ name.toList ++ trail ++ rest ∧
    r.start = byteLength (['{', '{'] ++ lead ++ keyword ++ pad) ∧
    ((∃ value, kind = .setVar (some name) value ∧ keyword = Kind.setKeyword ∧
        (rest = ['}', '}'] ∨ ∃ more, rest = ':' :: ':' :: more)) ∨
      (kind = .getVar name ∧ keyword = Kind.getKeyword ∧ rest = ['}', '}']))

/-! ## Lengths -/

/-- What trimming takes off the start is what the text is longer than what is left. -/
theorem byteLength_takeWhile (cs : List Char) :
    byteLength cs = byteLength (cs.takeWhile isBlank) + byteLength (trimStart cs) := by
  rw [← byteLength_append, takeWhile_append_trimStart]

/-- The segment with the name starts what follows the keyword. -/
theorem exists_segmentOf_append (kind : Kind) (rest : List Char) : ∃ more, segmentOf kind rest ++ more = rest := by
  unfold segmentOf
  split
  · next hcut => exact ⟨_, (eq_of_cutPair_eq_some hcut).symm⟩
  · exact ⟨[], List.append_nil rest⟩

/-- The body lies between the second byte of its macro and the last but two. -/
theorem slice?_body (body : List Char) :
    slice? (braced body) ⟨2, byteLength (braced body) - 2⟩ = some body := by
  rw [byteLength_braced, Nat.add_sub_cancel]
  exact slice?_append ['{', '{'] body ['}', '}']

/-- A body is its keyword and the name in the segment behind it, with white space before each, and what follows the name. -/
theorem exists_body_eq_append {body keyword rest : List Char} (h : after? keyword (trim body) = some rest) (kind : Kind) :
    ∃ more, body = body.takeWhile isBlank ++ keyword ++ (segmentOf kind rest).takeWhile isBlank ++
      trim (segmentOf kind rest) ++ more := by
  obtain ⟨trail, htrail, -⟩ := exists_trimEnd_append (trimStart body)
  obtain ⟨more, hmore⟩ := exists_segmentOf_append kind rest
  generalize segmentOf kind rest = segment at hmore ⊢
  obtain ⟨back, hback, -⟩ := exists_trimEnd_append (trimStart segment)
  have hkeyword : trimEnd (trimStart body) = keyword ++ rest := after?_eq_some_iff.mp h
  refine ⟨back ++ more ++ trail, ?_⟩
  conv_lhs => rw [← takeWhile_append_trimStart body, ← htrail, hkeyword, ← hmore]
  conv_lhs => rw [← takeWhile_append_trimStart segment, ← hback]
  simp [trim]

/-- The lengths give the place that is found by its characters. -/
theorem span?_braced (kind : Kind) (body : List Char) : span? kind (braced body) = (find? kind (braced body)).map range := by
  have hlength : 2 ≤ byteLength (braced body) := by
    rw [byteLength_braced]
    omega
  have hguard : (guard (2 ≤ byteLength (braced body)) : Option Unit) = some () := if_pos hlength
  unfold span? find?
  rw [body_braced, slice?_body, hguard]
  simp only [Option.bind_eq_bind, Option.bind_some]
  cases keyword? kind with
  | none => rfl
  | some keyword =>
    simp only [Option.bind_some]
    cases hrest : after? keyword (trim body) with
    | none => rfl
    | some rest =>
      simp only [Option.bind_some]
      obtain ⟨more, hbody⟩ := exists_body_eq_append hrest kind
      generalize segmentOf kind rest = segment at hbody ⊢
      have hafter : after? ((braced body).take 2 ++ body.takeWhile isBlank ++ keyword ++ segment.takeWhile isBlank ++
          trim segment) (braced body) = some (more ++ ['}', '}']) := by
        rw [after?_eq_some_iff]
        conv_lhs => rw [hbody]
        simp [braced]
      have hbefore : byteLength ((braced body).take 2 ++ body.takeWhile isBlank ++ keyword ++ segment.takeWhile isBlank) =
          2 + byteLength (body.takeWhile isBlank) + byteLength keyword + byteLength (segment.takeWhile isBlank) := by
        rw [byteLength_append, byteLength_append, byteLength_append]
        rfl
      have hstart : 2 + byteLength body - byteLength (trimStart body) + byteLength keyword + byteLength segment -
          byteLength (trimStart segment) =
            2 + byteLength (body.takeWhile isBlank) + byteLength keyword + byteLength (segment.takeWhile isBlank) := by
        have hb := byteLength_takeWhile body
        have hs := byteLength_takeWhile segment
        omega
      rw [hafter]
      simp only [Option.bind_some, Option.pure_def, Option.map_some, range, hbefore, hstart]

/-! ## Names -/

/-- A kind has a keyword before a name exactly when it names a variable. -/
theorem isSome_keyword?_iff {kind : Kind} : (keyword? kind).isSome ↔ kind.varName?.isSome := by
  cases kind with
  | comment => exact Iff.rfl
  | other tag params => exact Iff.rfl
  | setVar name value => cases name <;> exact Iff.rfl
  | getVar name => by_cases h : name = "" <;> simp [keyword?, Kind.varName?, h]

/-- Only a kind that names a variable has a place for the name. -/
theorem isSome_varName?_of_find? {kind : Kind} {full : List Char} {s : NameSite} (h : find? kind full = some s) :
    kind.varName?.isSome := by
  obtain ⟨keyword, hkeyword, -⟩ := Option.bind_eq_some_iff.mp h
  rw [← isSome_keyword?_iff, hkeyword]
  rfl

/-- The range of the name in a body that names a variable. -/
theorem span?_of_naming {pre name post : List Char} {kind : Kind} (h : Naming pre name post kind) :
    span? kind (braced (pre ++ name ++ post)) = some (range ⟨'{' :: '{' :: pre, name, post ++ ['}', '}']⟩) := by
  rw [span?_braced, h.find?]
  rfl

/-- The place in a body that names a variable. -/
theorem locates_of_naming {pre name post : List Char} {kind : Kind} (h : Naming pre name post kind) :
    Locates kind (braced (pre ++ name ++ post)) ⟨byteLength ('{' :: '{' :: pre), byteLength ('{' :: '{' :: pre) + byteLength name⟩
      (String.ofList name) where
  named := h.varName?
  slice := by
    have htext : braced (pre ++ name ++ post) = ('{' :: '{' :: pre) ++ name ++ (post ++ ['}', '}']) := by simp [braced]
    rw [htext, slice?_append, String.toList_ofList]
  around := by
    rw [String.toList_ofList]
    cases h with
    | @read lead pad _ _ hl hp _ ht =>
      exact ⟨Kind.getKeyword, lead, pad, post, ['}', '}'], hl, hp, ht, by simp [braced], rfl, Or.inr ⟨rfl, rfl, rfl⟩⟩
    | @set lead pad _ _ hl hp _ ht =>
      exact ⟨Kind.setKeyword, lead, pad, post, ['}', '}'], hl, hp, ht, by simp [braced], rfl,
        Or.inl ⟨_, rfl, rfl, Or.inl rfl⟩⟩
    | @setTo lead pad _ trail hl hp _ ht _ rest =>
      exact ⟨Kind.setKeyword, lead, pad, trail, ':' :: ':' :: (rest ++ ['}', '}']), hl, hp, ht, by simp [braced], rfl,
        Or.inl ⟨_, rfl, rfl, Or.inr ⟨_, rfl⟩⟩⟩

end NameSite

/-- Every token of a text is that of a body. -/
theorem Token.exists_ofBody_of_mem_ofText {text : List Char} {t : Token} (ht : t ∈ ofText text) :
    ∃ offset body, t = ofBody offset body := by
  rw [← Layout.tokens_ofText] at ht
  obtain ⟨entry, -, rfl⟩ := List.mem_map.mp ht
  exact ⟨entry.1, entry.2.body, rfl⟩

/-- In every macro of a text a range is found for a name exactly when the kind of the macro names a variable; the range is that of
the place where a renaming writes, and the variable is named there. -/
theorem span?_of_mem_ofText {text : String} {t : Token} (ht : t ∈ Token.ofText text.toList) :
    ((NameSite.span? (Kind.classify t.inner) t.full).isSome ↔ (Kind.classify t.inner).varName?.isSome) ∧
      ∀ r, NameSite.span? (Kind.classify t.inner) t.full = some r →
        (NameSite.find? (Kind.classify t.inner) t.full).map NameSite.range = some r ∧
        ∃ name, NameSite.Locates (Kind.classify t.inner) t.full r name := by
  obtain ⟨offset, body, rfl⟩ := Token.exists_ofBody_of_mem_ofText ht
  dsimp only [Token.ofBody]
  rw [NameSite.span?_braced]
  generalize hkind : Kind.classify (trim body) = kind
  have hlocates : ∀ name, kind.varName? = some name → ∃ r,
      (NameSite.find? kind (braced body)).map NameSite.range = some r ∧ NameSite.Locates kind (braced body) r name := by
    rintro name hname
    subst hkind
    obtain ⟨pre, post, hnaming, hbody⟩ := exists_naming hname
    have hfound := hnaming.find?
    have h := NameSite.locates_of_naming hnaming
    rw [hbody] at hfound h
    rw [String.ofList_toList] at h
    exact ⟨_, congrArg (Option.map NameSite.range) hfound, h⟩
  have hnamed : ∀ r, (NameSite.find? kind (braced body)).map NameSite.range = some r → ∃ name, kind.varName? = some name := by
    intro r hr
    obtain ⟨s, hs, -⟩ := Option.map_eq_some_iff.mp hr
    exact Option.isSome_iff_exists.mp (NameSite.isSome_varName?_of_find? hs)
  refine ⟨?_, fun r hr => ⟨hr, ?_⟩⟩
  · rw [Option.isSome_iff_exists, Option.isSome_iff_exists]
    exact ⟨fun ⟨r, hr⟩ => hnamed r hr, fun ⟨name, hname⟩ => (hlocates name hname).imp fun _ h => h.1⟩
  · obtain ⟨name, hname⟩ := hnamed r hr
    obtain ⟨r', hr', h⟩ := hlocates name hname
    obtain rfl : r' = r := Option.some.inj (hr'.symm.trans hr)
    exact ⟨name, h⟩

/-- Wide spaces before the keyword and the name, a space behind it, and then three colons. -/
theorem span?_of_mem_ofText_spaced :
    let text := "é\x7b\x7b\u2003setvar::\u3000größe :::x\x7d\x7d"
    let t := Token.ofBody 2 "\u2003setvar::\u3000größe :::x".toList
    let kind := Kind.classify t.inner
    t ∈ Token.ofText text.toList ∧ NameSite.span? kind t.full = some ⟨16, 23⟩ ∧
      ((NameSite.span? kind t.full).isSome ↔ kind.varName?.isSome) ∧
      ∀ r, NameSite.span? kind t.full = some r →
        (NameSite.find? kind t.full).map NameSite.range = some r ∧ ∃ name, NameSite.Locates kind t.full r name := by
  intro text t kind
  have ht : t ∈ Token.ofText text.toList := by decide +kernel
  exact ⟨ht, by decide +kernel, span?_of_mem_ofText ht⟩

end PromptMacros
