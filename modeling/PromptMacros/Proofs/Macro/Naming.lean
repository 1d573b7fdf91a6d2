import PromptMacros.Macro.NameSite
import PromptMacros.Proofs.Text.Blank
import PromptMacros.Proofs.Text.Pair
import PromptMacros.Rename.NewName

/-!
# Bodies that name a variable

The three ways in which the body of a macro names a variable (`Naming`): it reads the variable, sets it, or sets it to a value.
A body names a variable in one of these ways exactly when its kind has the name (`exists_naming`, `Naming.classify`), the place
of the name is found (`Naming.find?`), and any valid name may stand there instead, which changes the kind in nothing but the
name (`Naming.replace`).
-/

namespace PromptMacros

open Text

/-- A name that may be given to a variable: not empty, without white space and without the characters that delimit macros and
their parts. -/
structure ValidName (name : String) : Prop where
  ne_empty : name ≠ ""
  blank : ∀ c ∈ name.toList, isBlank c = false
  reserved : ∀ c ∈ name.toList, isReserved c = false

/-- A name is valid exactly when the checks of its characters find nothing. -/
theorem validName_iff {name : String} :
    ValidName name ↔ name ≠ "" ∧ name.toList.any isBlank = false ∧ name.toList.any isReserved = false := by
  simp only [List.any_eq_false, Bool.not_eq_true]
  exact ⟨fun ⟨hne, hblank, hreserved⟩ => ⟨hne, hblank, hreserved⟩, fun ⟨hne, hblank, hreserved⟩ => ⟨hne, hblank, hreserved⟩⟩

instance (name : String) : Decidable (ValidName name) :=
  decidable_of_iff' _ validName_iff

namespace ValidName

variable {name : String}

theorem toList_ne_nil (h : ValidName name) : name.toList ≠ [] := by
  intro hn
  exact h.ne_empty (String.toList_eq_nil_iff.mp hn)

theorem trimmed (h : ValidName name) : Trimmed name.toList :=
  .of_forall h.toList_ne_nil h.blank

theorem not_mem (h : ValidName name) {c : Char} (hc : isReserved c = true) : c ∉ name.toList := by
  intro hm
  rw [h.reserved c hm] at hc
  cases hc

/-- A name that passes the checks is a valid one. -/
theorem of_check {known : String → Bool} {old new : String} (h : checkNewName known old new = .ok name) :
    ValidName name := by
  obtain ⟨-, -, hne, hblank, hreserved, -⟩ := checkNewName_eq_ok_iff.mp h
  exact ⟨hne, hblank, hreserved⟩

end ValidName

theorem Text.Trimmed.ofList_ne_empty {cs : List Char} (h : Trimmed cs) : String.ofList cs ≠ "" := by
  intro he
  refine h.ne_nil ?_
  rw [← String.toList_ofList (l := cs), he]
  rfl

/-- The kind with the names that it has, each changed by `f`. -/
def Kind.mapName (f : String → String) : Kind → Kind
  | setVar name value => setVar (name.map f) value
  | getVar name => getVar (f name)
  | comment => comment
  | other tag params => other tag params

/-- The body `pre ++ name ++ post` names a variable where it says so, and is of this kind. -/
inductive Naming : (pre name post : List Char) → Kind → Prop
  /-- The body reads the variable. -/
  | read {lead pad name trail : List Char} (hl : Blanks lead) (hp : Blanks pad) (hn : Trimmed name) (ht : Blanks trail) :
      Naming (lead ++ Kind.getKeyword ++ pad) name trail (.getVar (String.ofList name))
  /-- The body sets the variable and gives no value. -/
  | set {lead pad name trail : List Char} (hl : Blanks lead) (hp : Blanks pad) (hn : Trimmed name) (ht : Blanks trail)
      (hc : cutPair ':' name = none) :
      Naming (lead ++ Kind.setKeyword ++ pad) name trail (.setVar (some (String.ofList name)) none)
  /-- The body sets the variable, and has something behind the name. -/
  | setTo {lead pad name trail : List Char} (hl : Blanks lead) (hp : Blanks pad) (hn : Trimmed name) (ht : Blanks trail)
      (hc : cutPair ':' (name ++ trail ++ [':']) = none) (rest : List Char) :
      Naming (lead ++ Kind.setKeyword ++ pad) name (trail ++ ':' :: ':' :: rest)
        (.setVar (some (String.ofList name)) ((segments (trimEnd rest))[0]?.bind Kind.nonBlank?))

/-! ## What a body says -/

namespace Kind

/-- The colon is no white space. -/
theorem isBlank_colon : isBlank ':' = false := by decide

theorem classify_setKeyword (rest : List Char) :
    classify (setKeyword ++ rest) =
      .setVar ((segments rest)[0]?.bind nonBlank?) ((segments rest)[1]?.bind nonBlank?) := by
  have hmark : after? commentMark (setKeyword ++ rest) = none := rfl
  have hset : after? setKeyword (setKeyword ++ rest) = some rest := after?_eq_some_iff.mpr rfl
  simp only [classify, hmark, hset, Option.isSome_none, Bool.false_eq_true, ite_false]

theorem classify_getKeyword (rest : List Char) :
    classify (getKeyword ++ rest) = .getVar (String.ofList (trim rest)) := by
  have hmark : after? commentMark (getKeyword ++ rest) = none := rfl
  have hset : after? setKeyword (getKeyword ++ rest) = none := rfl
  have hget : after? getKeyword (getKeyword ++ rest) = some rest := after?_eq_some_iff.mpr rfl
  simp only [classify, hmark, hset, hget, Option.isSome_none, Bool.false_eq_true, ite_false]

/-- Only a body that starts with one of the two keywords names a variable. -/
theorem keyword_of_varName?_classify {body : List Char} {name : String} (h : (classify body).varName? = some name) :
    (∃ rest, body = setKeyword ++ rest) ∨ ∃ rest, body = getKeyword ++ rest := by
  unfold classify at h
  split at h
  · cases h
  · split at h
    · next rest hset => exact Or.inl ⟨rest, after?_eq_some_iff.mp hset⟩
    · split at h
      · next rest hget => exact Or.inr ⟨rest, after?_eq_some_iff.mp hget⟩
      · cases h

/-- A trimmed text with white space around it is not blank. -/
theorem nonBlank?_append {pad name trail : List Char} (hp : Blanks pad) (hn : Trimmed name) (ht : Blanks trail) :
    nonBlank? (pad ++ name ++ trail) = some (String.ofList name) := by
  rw [nonBlank?, hn.trim_append hp ht]
  exact if_neg hn.ne_nil

/-- A segment that is not blank is its trimmed text between white space. -/
theorem exists_pad_of_nonBlank? {segment : List Char} {name : String} (h : nonBlank? segment = some name) :
    ∃ pad back, Blanks pad ∧ Blanks back ∧ Trimmed name.toList ∧ pad ++ name.toList ++ back = segment := by
  obtain ⟨hname, hne⟩ := nonBlank?_eq_some_iff.mp h
  obtain ⟨pad, back, hp, hb, hpad⟩ := exists_trim_append segment
  have hn : Trimmed (trim segment) := trimmed_trim (by rwa [← hname, Ne, String.toList_eq_nil_iff])
  rw [← hname] at hpad hn
  exact ⟨pad, back, hp, hb, hn, hpad⟩

/-- The name of the variable that a body names has no white space at its ends. -/
theorem trimmed_of_varName?_classify {body : List Char} {name : String} (h : (classify body).varName? = some name) :
    Trimmed name.toList := by
  rcases keyword_of_varName?_classify h with ⟨rest, rfl⟩ | ⟨rest, rfl⟩
  · rw [classify_setKeyword] at h
    obtain ⟨segment, -, hname⟩ := Option.bind_eq_some_iff.mp h
    obtain ⟨-, -, -, -, hn, -⟩ := exists_pad_of_nonBlank? hname
    exact hn
  · rw [classify_getKeyword] at h
    have hname : nonBlank? rest = some name := by simpa [varName?, nonBlank?] using h
    obtain ⟨-, -, -, -, hn, -⟩ := exists_pad_of_nonBlank? hname
    exact hn

/-- The variable that a body names has a name. -/
theorem ne_empty_of_varName?_classify {body : List Char} {name : String} (h : (classify body).varName? = some name) :
    name ≠ "" := by
  rintro rfl
  exact (trimmed_of_varName?_classify h).ne_nil rfl

end Kind

namespace Naming

theorem trimmed_getKeyword : Trimmed Kind.getKeyword :=
  .of_forall (by simp [Kind.getKeyword]) (by simp [Kind.getKeyword, isBlank])

theorem trimmed_setKeyword : Trimmed Kind.setKeyword :=
  .of_forall (by simp [Kind.setKeyword]) (by simp [Kind.setKeyword, isBlank])

/-! ## Helpers: the parts of a body -/

section Parts

variable {keyword lead pad name trail : List Char}

/-- White space behind the name is trimmed off the body. -/
theorem trim_blank (hk : Trimmed keyword) (hl : Blanks lead) (hn : Trimmed name) (ht : Blanks trail) :
    trim (lead ++ keyword ++ pad ++ name ++ trail) = keyword ++ (pad ++ name) := by
  have h := (hk.append hn pad).trim_append hl ht
  simpa only [List.append_assoc] using h

/-- Of a body that goes on behind the name only the end is trimmed. -/
theorem trim_rest (hk : Trimmed keyword) (hl : Blanks lead) (rest : List Char) :
    trim (lead ++ keyword ++ pad ++ name ++ (trail ++ ':' :: ':' :: rest)) =
      keyword ++ (pad ++ name ++ trail ++ ':' :: ':' :: trimEnd rest) := by
  obtain ⟨a, as, rfl⟩ := List.exists_cons_of_ne_nil hk.ne_nil
  have hassoc : lead ++ a :: as ++ pad ++ name ++ (trail ++ ':' :: ':' :: rest) =
      lead ++ (a :: as ++ (pad ++ name ++ trail) ++ ':' :: ':' :: rest) := by simp
  rw [hassoc, trim, trimStart_append hl (by exact hk.head), trimEnd_append_cons Kind.isBlank_colon,
    ← List.singleton_append, ← List.nil_append (':' :: rest), ← List.nil_append (trimEnd _),
    trimEnd_append_cons Kind.isBlank_colon]
  simp

/-- White space before a text has no colon. -/
theorem cutPair_pad_eq_none_iff (hp : Blanks pad) {cs : List Char} :
    cutPair ':' (pad ++ cs) = none ↔ cutPair ':' cs = none := by
  have hm : ':' ∉ pad := hp.not_mem Kind.isBlank_colon
  have hlast : pad.getLast? ≠ some ':' := fun h => hm (List.mem_of_mem_getLast? h)
  rw [cutPair_append_eq_none_iff]
  simp [hlast, cutPair_eq_none_of_not_mem hm]

/-- The segment with the name ends where the first `::` stands. -/
theorem cutPair_segment (hp : Blanks pad) (hc : cutPair ':' (name ++ trail ++ [':']) = none) {rest : List Char} :
    cutPair ':' (pad ++ name ++ trail ++ ':' :: ':' :: rest) = some (pad ++ name ++ trail, rest) := by
  refine cutPair_append_of_eq_none ?_ rest
  rw [List.append_assoc, List.append_assoc, cutPair_pad_eq_none_iff hp, ← List.append_assoc]
  exact hc

end Parts

/-- The kind of a body that names a variable has the name. -/
theorem varName? {pre name post : List Char} {kind : Kind} (h : Naming pre name post kind) :
    kind.varName? = some (String.ofList name) := by
  cases h with
  | read _ _ hn => exact if_neg hn.ofList_ne_empty
  | set => rfl
  | setTo => rfl

/-- The variable named is the one whose characters stand in the body. -/
theorem varName?_toList {pre post : List Char} {name : String} {kind : Kind} (h : Naming pre name.toList post kind) :
    kind.varName? = some name := by
  rw [h.varName?, String.ofList_toList]

/-- A body that names a variable is of the kind it is said to be of. -/
theorem classify {pre name post : List Char} {kind : Kind} (h : Naming pre name post kind) :
    Kind.classify (trim (pre ++ name ++ post)) = kind := by
  cases h with
  | @read lead pad _ _ hl hp hn ht =>
    have htrim : trim (pad ++ name) = name := by
      have h := hn.trim_append hp .nil
      rwa [List.append_nil] at h
    rw [trim_blank trimmed_getKeyword hl hn ht, Kind.classify_getKeyword, htrim]
  | @set lead pad _ _ hl hp hn ht hc =>
    have hblank := Kind.nonBlank?_append hp hn .nil
    rw [List.append_nil] at hblank
    rw [trim_blank trimmed_setKeyword hl hn ht, Kind.classify_setKeyword,
      segments_of_cutPair_eq_none ((cutPair_pad_eq_none_iff hp).mpr hc)]
    simp [hblank]
  | @setTo lead pad _ trail hl hp hn ht hc rest =>
    rw [trim_rest trimmed_setKeyword hl, Kind.classify_setKeyword, segments_of_cutPair_eq_some (cutPair_segment hp hc),
      List.getElem?_cons_zero, List.getElem?_cons_succ, Option.bind_some, Kind.nonBlank?_append hp hn ht]

/-- Another valid name in its place changes the kind in the name only. -/
theorem replace {pre name post : List Char} {kind : Kind} (h : Naming pre name post kind) {new : String}
    (hnew : ValidName new) : Naming pre new.toList post (kind.mapName fun _ => new) := by
  have hcolon : ':' ∉ new.toList := hnew.not_mem (by decide)
  cases h with
  | read hl hp _ ht =>
    rw [Kind.mapName, ← String.ofList_toList (s := new)]
    simpa using Naming.read hl hp hnew.trimmed ht
  | set hl hp _ ht _ =>
    simpa [Kind.mapName] using Naming.set hl hp hnew.trimmed ht (cutPair_eq_none_of_not_mem hcolon)
  | @setTo _ _ _ trail hl hp _ ht _ rest =>
    have hmem : ':' ∉ new.toList ++ trail := by
      rw [List.mem_append, not_or]
      exact ⟨hcolon, ht.not_mem Kind.isBlank_colon⟩
    simpa [Kind.mapName] using Naming.setTo hl hp hnew.trimmed ht (cutPair_concat_eq_none hmem) rest

end Naming

/-- A body whose kind has a name is one that names it. -/
theorem exists_naming {body : List Char} {name : String} (h : (Kind.classify (trim body)).varName? = some name) :
    ∃ pre post, Naming pre name.toList post (Kind.classify (trim body)) ∧ pre ++ name.toList ++ post = body := by
  obtain ⟨lead, trail, hl, ht, hbody⟩ := exists_trim_append body
  rcases Kind.keyword_of_varName?_classify h with ⟨rest, hrest⟩ | ⟨rest, hrest⟩
  · have hkind := Kind.classify_setKeyword rest
    cases hcut : cutPair ':' rest with
    | none =>
      -- No `::` behind the keyword: the rest of the body is the name between white space.
      rw [segments_of_cutPair_eq_none hcut] at hkind
      rw [hrest, hkind] at h
      have hname : Kind.nonBlank? rest = some name := h
      obtain ⟨pad, back, hp, hb, hn, rfl⟩ := Kind.exists_pad_of_nonBlank? hname
      have hc : cutPair ':' name.toList = none := by
        rw [List.append_assoc, Naming.cutPair_pad_eq_none_iff hp] at hcut
        exact (cutPair_append_eq_none_iff.mp hcut).1
      refine ⟨lead ++ Kind.setKeyword ++ pad, back ++ trail, ?_, ?_⟩
      · have hnaming := Naming.set hl hp hn (hb.append ht) hc
        rwa [hrest, hkind, List.getElem?_cons_zero, Option.bind_some, hname, ← String.ofList_toList (s := name),
          String.toList_ofList]
      · rw [← hbody, hrest]
        simp
    | some parts =>
      -- The name stands before the first `::`, and the value, trimmed with the body, behind it.
      obtain ⟨first, more⟩ := parts
      rw [segments_of_cutPair_eq_some hcut] at hkind
      rw [hrest, hkind] at h
      have hname : Kind.nonBlank? first = some name := h
      obtain ⟨pad, back, hp, hb, hn, rfl⟩ := Kind.exists_pad_of_nonBlank? hname
      obtain rfl := eq_of_cutPair_eq_some hcut
      have hc : cutPair ':' (name.toList ++ back ++ [':']) = none := by
        have hsnoc := cutPair_snoc_eq_none hcut
        rwa [List.append_assoc, List.append_assoc, Naming.cutPair_pad_eq_none_iff hp, ← List.append_assoc] at hsnoc
      have hmore : trimEnd (more ++ trail) = more := by
        refine trimEnd_append (fun c hc => ?_) ht
        have htrimmed : Trimmed (trim body) := trimmed_trim (by rw [hrest]; simp [Kind.setKeyword])
        refine htrimmed.last c ?_
        have hassoc : trim body = (Kind.setKeyword ++ (pad ++ name.toList ++ back) ++ [':', ':']) ++ more := by
          rw [hrest]
          simp
        rw [hassoc]
        exact List.mem_getLast?_append_of_mem_getLast? hc
      refine ⟨lead ++ Kind.setKeyword ++ pad, back ++ ':' :: ':' :: (more ++ trail), ?_, ?_⟩
      · have hnaming := Naming.setTo hl hp hn hb hc (more ++ trail)
        rw [hmore, String.ofList_toList] at hnaming
        rwa [hrest, hkind, List.getElem?_cons_zero, List.getElem?_cons_succ, Option.bind_some, hname]
      · rw [← hbody, hrest]
        simp
  · have hkind := Kind.classify_getKeyword rest
    rw [hrest, hkind] at h
    have hname : Kind.nonBlank? rest = some name := by
      simpa [Kind.varName?, Kind.nonBlank?] using h
    obtain ⟨pad, back, hp, hb, hn, rfl⟩ := Kind.exists_pad_of_nonBlank? hname
    refine ⟨lead ++ Kind.getKeyword ++ pad, back ++ trail, ?_, ?_⟩
    · rw [hrest, hkind, hn.trim_append hp hb]
      exact Naming.read hl hp hn (hb.append ht)
    · rw [← hbody, hrest]
      simp

/-! ## Where the name stands -/

/-- The body stands between the two doubled braces of its macro. -/
theorem body_braced (body : List Char) : ((braced body).drop 2).dropLast.dropLast = body := by
  have h : (braced body).drop 2 = body ++ ['}'] ++ ['}'] := by simp [braced]
  rw [h, List.dropLast_concat, List.dropLast_concat]

/-- The place is found when the body is the keyword and the name behind it, each with white space before it. -/
theorem NameSite.find?_braced {kind : Kind} {keyword lead pad name post rest : List Char} (hkind : keyword? kind = some keyword)
    (hk : Trimmed keyword) (hl : Blanks lead) (hp : Blanks pad) (hn : Trimmed name) {trail : List Char} (ht : Blanks trail)
    (htrim : trim (lead ++ keyword ++ pad ++ name ++ post) = keyword ++ rest)
    (hsegment : segmentOf kind rest = pad ++ name ++ trail) :
    find? kind (braced (lead ++ keyword ++ pad ++ name ++ post)) =
      some ⟨'{' :: '{' :: (lead ++ keyword ++ pad), name, post ++ ['}', '}']⟩ := by
  have hlead : (lead ++ keyword ++ pad ++ name ++ post).takeWhile isBlank = lead := by
    obtain ⟨a, as, rfl⟩ := List.exists_cons_of_ne_nil hk.ne_nil
    have hhead : ∀ c ∈ (a :: as ++ pad ++ name ++ post).head?, isBlank c = false := hk.head
    simpa using takeWhile_append hl hhead
  have hpad : (pad ++ name ++ trail).takeWhile isBlank = pad := by
    obtain ⟨a, as, rfl⟩ := List.exists_cons_of_ne_nil hn.ne_nil
    have hhead : ∀ c ∈ (a :: as ++ trail).head?, isBlank c = false := hn.head
    simpa using takeWhile_append hp hhead
  have hafter : after? ('{' :: '{' :: (lead ++ keyword ++ pad) ++ name)
      (braced (lead ++ keyword ++ pad ++ name ++ post)) = some (post ++ ['}', '}']) := by
    rw [after?_eq_some_iff]
    simp [braced]
  have htake : (braced (lead ++ keyword ++ pad ++ name ++ post)).take 2 = ['{', '{'] := rfl
  have hbefore : ['{', '{'] ++ lead ++ keyword ++ pad = '{' :: '{' :: (lead ++ keyword ++ pad) := by simp
  simp only [find?, hkind, body_braced, htrim, after?_eq_some_iff.mpr rfl, hsegment, hn.trim_append hp ht, hlead, hpad,
    htake, hbefore, hafter, Option.bind_eq_bind, Option.bind_some, Option.pure_def]

/-- The place where a body names its variable is found in its macro. -/
theorem Naming.find? {pre name post : List Char} {kind : Kind} (h : Naming pre name post kind) :
    NameSite.find? kind (braced (pre ++ name ++ post)) = some ⟨'{' :: '{' :: pre, name, post ++ ['}', '}']⟩ := by
  cases h with
  | @read lead pad _ _ hl hp hn ht =>
    have hkind : NameSite.keyword? (.getVar (String.ofList name)) = some Kind.getKeyword :=
      if_neg hn.ofList_ne_empty
    refine NameSite.find?_braced hkind trimmed_getKeyword hl hp hn .nil (trim_blank trimmed_getKeyword hl hn ht) ?_
    simp [NameSite.segmentOf]
  | @set lead pad _ _ hl hp hn ht hc =>
    refine NameSite.find?_braced rfl trimmed_setKeyword hl hp hn .nil (trim_blank trimmed_setKeyword hl hn ht) ?_
    simp [NameSite.segmentOf, (cutPair_pad_eq_none_iff hp).mpr hc]
  | @setTo lead pad _ trail hl hp hn ht hc rest =>
    refine NameSite.find?_braced rfl trimmed_setKeyword hl hp hn ht (trim_rest trimmed_setKeyword hl rest) ?_
    simp only [NameSite.segmentOf, cutPair_segment hp hc]

end PromptMacros
