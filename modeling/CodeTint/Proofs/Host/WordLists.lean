import Mathlib.Data.List.Forall2
import CodeTint.Text.Chars
import CodeTint.Proofs.Host.Groups

/-!
# Lists of words and spaced texts

A list of words is written as an array or as one text with blanks between the words
(`Json.ListsWords`). What a host object is read as depends on the words only
(`Grammar.ofHost_of_relisted`): neither the way in which a list is written nor the blanks in it
count. With other keywords a host object gives another keyword set, and nothing else but the shape
can change (`Grammar.ofHost_putMember_keywords`).
-/

namespace CodeTint

/-! ## Words between blanks

`IsSpacedOut text words` says that a text consists of the given words, with blanks around them and
at least one between any two. Every text is spaced out in exactly one way
(`blankWords_eq_iff_isSpacedOut`). -/

/-- The text consists of the words and of blanks. A word is not empty and has no blank in it, and
between two words is at least one blank; before the first word and behind the last one there may be
some. -/
inductive IsSpacedOut : (text : List Char) → (words : List (List Char)) → Prop
  | blanks {blanks : List Char} : (∀ c ∈ blanks, isBlank c) → IsSpacedOut blanks []
  | word {blanks word rest : List Char} {words : List (List Char)} :
      (∀ c ∈ blanks, isBlank c) → word ≠ [] → (∀ c ∈ word, isBlank c = false) →
      (∀ c ∈ rest.head?, isBlank c) → IsSpacedOut rest words →
      IsSpacedOut (blanks ++ word ++ rest) (word :: words)

section Blanks

variable {c : Char} {blanks word rest text opened : List Char} {words : List (List Char)}

theorem blankWords_cons (c : Char) (text opened : List Char) :
    blankWords (c :: text) opened =
      if isBlank c then
        match opened with
        | [] => blankWords text []
        | opened => opened.reverse :: blankWords text []
      else blankWords text (c :: opened) :=
  rfl

theorem IsSpacedOut.cons_blank (h : IsSpacedOut text words) (hc : isBlank c) :
    IsSpacedOut (c :: text) words := by
  cases h with
  | blanks hblanks => exact .blanks (List.forall_mem_cons.mpr ⟨hc, hblanks⟩)
  | word hblanks hne hword hrest hwords =>
      exact .word (List.forall_mem_cons.mpr ⟨hc, hblanks⟩) hne hword hrest hwords

/-- What is split off are the words: the characters of the word that is being read stand before the
text that is left. -/
theorem isSpacedOut_blankWords (hopened : ∀ c ∈ opened, isBlank c = false) :
    IsSpacedOut (opened.reverse ++ text) (blankWords text opened) := by
  induction text generalizing opened with
  | nil =>
      cases opened with
      | nil => exact .blanks (List.forall_mem_nil _)
      | cons last opened =>
          have hend : IsSpacedOut [] [] := .blanks (List.forall_mem_nil _)
          have hword : ∀ c ∈ (last :: opened).reverse, isBlank c = false :=
            fun c hmem => hopened c (List.mem_reverse.mp hmem)
          exact .word (List.forall_mem_nil _) (by simp) hword (by simp) hend
  | cons c text ih =>
      rw [blankWords_cons]
      by_cases hc : isBlank c
      · have hrest : IsSpacedOut (c :: text) (blankWords text []) :=
          (ih (List.forall_mem_nil _)).cons_blank hc
        rw [if_pos hc]
        cases opened with
        | nil => exact hrest
        | cons last opened =>
            have hword : ∀ c ∈ (last :: opened).reverse, isBlank c = false :=
              fun c hmem => hopened c (List.mem_reverse.mp hmem)
            exact .word (List.forall_mem_nil _) (by simp) hword (by simp [hc]) hrest
      · have hread := ih (List.forall_mem_cons.mpr ⟨eq_false_of_ne_true hc, hopened⟩)
        rw [if_neg hc]
        rwa [List.reverse_cons, List.append_assoc] at hread

theorem blankWords_blanks_append (hblanks : ∀ c ∈ blanks, isBlank c) (text : List Char) :
    blankWords (blanks ++ text) [] = blankWords text [] := by
  induction blanks with
  | nil => rfl
  | cons c blanks ih =>
      obtain ⟨hc, hblanks⟩ := List.forall_mem_cons.mp hblanks
      rw [List.cons_append, blankWords_cons, if_pos hc]
      exact ih hblanks

theorem blankWords_word_append (hword : ∀ c ∈ word, isBlank c = false) (text opened : List Char) :
    blankWords (word ++ text) opened = blankWords text (word.reverse ++ opened) := by
  induction word generalizing opened with
  | nil => rfl
  | cons c word ih =>
      obtain ⟨hc, hword⟩ := List.forall_mem_cons.mp hword
      rw [List.cons_append, blankWords_cons, if_neg (Bool.eq_false_iff.mp hc), ih hword,
        List.reverse_cons, List.append_assoc]
      rfl

/-- A word that is being read is closed at the end of the text or at a blank. -/
theorem blankWords_eq_cons (hopened : opened ≠ []) (hrest : ∀ c ∈ rest.head?, isBlank c) :
    blankWords rest opened = opened.reverse :: blankWords rest [] := by
  obtain ⟨last, opened, rfl⟩ := List.exists_cons_of_ne_nil hopened
  cases rest with
  | nil => rfl
  | cons c rest =>
      have hc : isBlank c := hrest c rfl
      rw [blankWords_cons, if_pos hc, blankWords_cons, if_pos hc]

theorem IsSpacedOut.blankWords_eq (h : IsSpacedOut text words) : blankWords text [] = words := by
  induction h with
  | @blanks blanks hblanks =>
      have hskip := blankWords_blanks_append hblanks []
      rwa [List.append_nil] at hskip
  | @word blanks word rest words hblanks hne hword hrest _ ih =>
      rw [List.append_assoc, blankWords_blanks_append hblanks, blankWords_word_append hword,
        List.append_nil, blankWords_eq_cons (List.reverse_ne_nil_iff.mpr hne) hrest,
        List.reverse_reverse, ih]

/-- A text is spaced out in exactly one way. -/
theorem blankWords_eq_iff_isSpacedOut : blankWords text [] = words ↔ IsSpacedOut text words := by
  constructor
  · rintro rfl
    exact isSpacedOut_blankWords (List.forall_mem_nil _)
  · exact IsSpacedOut.blankWords_eq

end Blanks

theorem splitOnBlanks_eq_iff_isSpacedOut {text : String} {words : List String} :
    splitOnBlanks text = words ↔ IsSpacedOut text.toList (words.map String.toList) := by
  rw [← blankWords_eq_iff_isSpacedOut, splitOnBlanks]
  constructor
  · rintro rfl
    rw [List.map_map]
    exact (List.map_id'' (fun word => String.toList_ofList) _).symm
  · intro h
    rw [h, List.map_map]
    exact List.map_id'' (fun word => String.ofList_toList) words

/-! ## Host objects with other keywords -/

section Keywords

variable {members lists others : List (String × Json)} {value : Json}

/-- The shape is told by one label of the keywords, and by the modes. -/
theorem HostShape.detect_putMember_keywords (hlookup : members.lookup "keywords" = some value)
    {other : Json} (htype : (other.get? "type").isSome = (value.get? "type").isSome) :
    detect (.object (putMember "keywords" other members)) = detect (.object members) := by
  have hkeywords : (Json.object (putMember "keywords" other members)).get? "keywords" =
      some other := Json.get?_putMember _ _ _ _
  have hcontains : (Json.object (putMember "keywords" other members)).get? "contains" =
      (Json.object members).get? "contains" := Json.get?_putMember _ _ _ _
  have hvalue : (Json.object members).get? "keywords" = some value := hlookup
  simp only [detect, hkeywords, hcontains, hvalue, Option.bind_some, htype]

theorem Grammar.map_shape_ofHost (value : Json) :
    (ofHost value).map ({ · with shape := .detect value }) = ofHost value := by
  cases hgrammar : ofHost value with
  | error => rfl
  | ok grammar => rw [← shape_of_ofHost hgrammar]; rfl

/-- If other keywords give the same keyword set, at most the shape of the grammar changes. -/
theorem Grammar.ofHost_putMember_keywords
    (hlookup : members.lookup "keywords" = some (.object lists))
    (hread : (HostKeywords.ofMembers? others).map HostKeywords.toKeywordSet =
      (HostKeywords.ofMembers? lists).map HostKeywords.toKeywordSet) :
    ofHost (.object (putMember "keywords" (.object others) members)) =
      (ofHost (.object members)).map
        ({ · with
          shape := .detect (.object (putMember "keywords" (.object others) members)) }) := by
  have hlookup : (Json.object members).get? "keywords" = some (.object lists) := hlookup
  rw [ofHost, ofHost, HostGrammar.ofJson?_object, HostGrammar.ofJson?_object, Json.get?_putMember,
    Json.get?_putMember, Json.get?_putMember, if_neg (by decide), if_pos rfl, if_neg (by decide),
    hlookup]
  cases text? (((Json.object members).get? "name").getD .null) with
  | none => rfl
  | some name =>
      rw [Option.getD_some, Option.getD_some, HostKeywords.ofJson?, HostKeywords.ofJson?]
      cases hlists : HostKeywords.ofMembers? lists with
      | none =>
          rw [hlists, Option.map_none, Option.map_eq_none_iff] at hread
          rw [hread]
          rfl
      | some keywords =>
          rw [hlists, Option.map_some, Option.map_eq_some_iff] at hread
          obtain ⟨keywords', hothers, hset⟩ := hread
          rw [hothers]
          cases ((Json.object members).get? "contains").getD (.array []) with
          | array items =>
              cases hmodes : hostModes? items with
              | none => simp [hmodes, Except.map]
              | some modes =>
                  simp only [hmodes, hset, HostGrammar.toGrammar, Option.map_some, Option.pure_def,
                    Option.bind_eq_bind, Option.bind_some, bind_pure_comp]
                  cases rulesOfModes name 0 modes <;> rfl
          | _ => rfl

end Keywords

/-! ## Ways to write a list of words -/

/-- The value lists the words: as the texts of an array, or between the blanks of a text. -/
inductive Json.ListsWords : Json → List String → Prop
  | array (words : List String) : ListsWords (.ofStrings words) words
  | text {text : String} {words : List String} :
      IsSpacedOut text.toList (words.map String.toList) → ListsWords (.string text) words

/-- The members are the same, or lists of the same words under the same label. -/
inductive MemberRelisted : String × Json → String × Json → Prop
  | same (member : String × Json) : MemberRelisted member member
  | relisted {label : String} {value other : Json} {words : List String} :
      label ≠ keywordPatternKey → value.ListsWords words → other.ListsWords words →
      MemberRelisted (label, value) (label, other)

section ListsWords

variable {value : Json} {text : String} {words : List String} {member other : String × Json}
  {members others : List (String × Json)}

theorem Json.listsWords_string_iff : (string text).ListsWords words ↔ splitOnBlanks text = words :=
  ⟨fun | .text h => splitOnBlanks_eq_iff_isSpacedOut.mpr h,
    fun h => .text (splitOnBlanks_eq_iff_isSpacedOut.mp h)⟩

namespace Json.ListsWords

theorem words_eq (h : value.ListsWords words) : value.words = words := by
  cases h with
  | array words => exact filterMap_eq_of_mapM (mapM_text?_map_string words)
  | text h => exact splitOnBlanks_eq_iff_isSpacedOut.mpr h

theorem isSome_ofJson? (h : value.ListsWords words) : (WordList.ofJson? value).isSome := by
  cases h with
  | array words => rw [WordList.ofJson?_ofStrings, Option.isSome_some]
  | text => rfl

end Json.ListsWords

namespace MemberRelisted

theorem name_eq (h : MemberRelisted member other) : other.1 = member.1 := by
  cases h <;> rfl

theorem isMember_iff (h : MemberRelisted member other) :
    HostKeywords.IsMember other.1 other.2 ↔ HostKeywords.IsMember member.1 member.2 := by
  cases h with
  | same => rfl
  | relisted hlabel hvalue hother =>
      rw [HostKeywords.IsMember, if_neg hlabel, HostKeywords.IsMember, if_neg hlabel]
      exact iff_of_true hother.isSome_ofJson? hvalue.isSome_ofJson?

end MemberRelisted

/-- What is looked up is the same, or a list of the same words. -/
theorem lookup_of_relisted (h : List.Forall₂ MemberRelisted members others) (label : String) :
    others.lookup label = members.lookup label ∨
      label ≠ keywordPatternKey ∧ ∃ value other words, members.lookup label = some value ∧
        others.lookup label = some other ∧ value.ListsWords words ∧ other.ListsWords words := by
  induction h with
  | nil => exact .inl rfl
  | @cons member other members others hmember _ ih =>
      cases hmember with
      | same member =>
          obtain ⟨name, value⟩ := member
          rw [lookup_cons_eq_ite, lookup_cons_eq_ite]
          split
          · exact .inl rfl
          · exact ih
      | @relisted name value other words hname hvalue hother =>
          rw [lookup_cons_eq_ite, lookup_cons_eq_ite]
          split
          next heq => exact .inr ⟨heq ▸ hname, value, other, words, rfl, rfl, hvalue, hother⟩
          next => exact ih

theorem isSome_get?_of_relisted (h : List.Forall₂ MemberRelisted members others) (label : String) :
    ((Json.object others).get? label).isSome = ((Json.object members).get? label).isSome := by
  rw [Json.get?, Json.get?]
  rcases lookup_of_relisted h label with heq | ⟨-, value, other, words, hvalue, hother, -⟩
  · rw [heq]
  · rw [hvalue, hother, Option.isSome_some, Option.isSome_some]

theorem wordsAt_of_relisted (h : List.Forall₂ MemberRelisted members others) (label : String) :
    (Json.object others).wordsAt label = (Json.object members).wordsAt label := by
  rw [Json.wordsAt, Json.wordsAt, Json.get?, Json.get?]
  rcases lookup_of_relisted h label with heq | ⟨-, value, other, words, hvalue, hother, hl, hl'⟩
  · rw [heq]
  · rw [hvalue, hother, Option.map_some, Option.map_some, hl.words_eq, hl'.words_eq]

theorem keywordSet_of_relisted (h : List.Forall₂ MemberRelisted members others) :
    (Json.object others).keywordSet = (Json.object members).keywordSet := by
  refine Json.keywordSet_congr ?_ fun label _ =>
    ⟨isSome_get?_of_relisted h label, wordsAt_of_relisted h label⟩
  rcases lookup_of_relisted h keywordPatternKey with heq | ⟨hne, -⟩
  · rw [Json.textAt, Json.get?, heq]
    rfl
  · exact absurd rfl hne

/-- Either both objects can be read as keywords or none of them, and they declare the same. -/
theorem HostKeywords.toKeywordSet_of_relisted (h : List.Forall₂ MemberRelisted members others) :
    (ofMembers? others).map toKeywordSet = (ofMembers? members).map toKeywordSet := by
  have hsome : (ofMembers? others).isSome = (ofMembers? members).isSome := by
    rw [Bool.eq_iff_iff, ofMembers?_isSome_iff, ofMembers?_isSome_iff]
    induction h with
    | nil => rfl
    | cons hmember _ ih =>
        rw [List.forall_mem_cons, List.forall_mem_cons, ih, hmember.isMember_iff]
  cases hmembers : ofMembers? members with
  | none =>
      rw [hmembers, Option.isSome_none, Option.isSome_eq_false_iff, Option.isNone_iff_eq_none]
        at hsome
      rw [hsome]
  | some keywords =>
      rw [hmembers, Option.isSome_some, Option.isSome_iff_exists] at hsome
      obtain ⟨keywords', hothers⟩ := hsome
      rw [hothers, Option.map_some, Option.map_some, toKeywordSet_eq_keywordSet hothers,
        toKeywordSet_eq_keywordSet hmembers, keywordSet_of_relisted h]

end ListsWords

namespace Grammar

/-- A text lists the words between its blanks and no others, and it counts as much as an array of
these words: if lists of words are written in other ways, the host object gives the same grammar, or
fails to give one for the same reason. -/
theorem ofHost_of_relisted :
    (∀ text : String, ∃! words, (Json.string text).ListsWords words) ∧
      ∀ members lists others : List (String × Json),
        members.lookup "keywords" = some (.object lists) →
        List.Forall₂ MemberRelisted lists others →
        ofHost (.object (putMember "keywords" (.object others) members)) =
          ofHost (.object members) := by
  refine ⟨fun text => ?_, fun members lists others hlookup hlists => ?_⟩
  · simp only [Json.listsWords_string_iff]
    exact ⟨_, rfl, fun words h => h.symm⟩
  · rw [ofHost_putMember_keywords hlookup (HostKeywords.toKeywordSet_of_relisted hlists),
      HostShape.detect_putMember_keywords hlookup (isSome_get?_of_relisted hlists "type"),
      map_shape_ofHost]

/-- Texts become arrays and an array becomes a text, with all kinds of blanks. -/
theorem ofHost_of_relisted_mixed :
    let lists := [("$pattern", Json.string "a b"), ("keyword", .string "\u00a0if  else\t"),
      ("literal", .ofStrings ["true"]), ("number", .string " \n"),
      ("type", .ofStrings ["int", "bool"])]
    let others := [("$pattern", Json.string "a b"), ("keyword", .ofStrings ["if", "else"]),
      ("literal", .string "true\r\n"), ("number", .ofStrings []),
      ("type", .string "int\u2003\u3000bool")]
    let members := [("contains", Json.array []), ("keywords", .object lists), ("name", .string "A")]
    (∃! words, (Json.string "\u00a0if  else\t").ListsWords words) ∧
      members.lookup "keywords" = some (.object lists) ∧ List.Forall₂ MemberRelisted lists others ∧
      ofHost (.object (putMember "keywords" (.object others) members)) =
        ofHost (.object members) ∧
      ∃ grammar, ofHost (.object members) = .ok grammar ∧
        grammar.keywords.wordsOf .keyword = ["if", "else"] := by
  intro lists others members
  have hlists : List.Forall₂ MemberRelisted lists others := by
    refine .cons (.same _) (.cons ?_ (.cons ?_ (.cons ?_ (.cons ?_ .nil))))
    · exact .relisted (by decide) (Json.listsWords_string_iff.mpr rfl) (.array ["if", "else"])
    · exact .relisted (by decide) (.array ["true"]) (Json.listsWords_string_iff.mpr rfl)
    · exact .relisted (by decide) (Json.listsWords_string_iff.mpr rfl) (.array [])
    · exact .relisted (by decide) (.array ["int", "bool"]) (Json.listsWords_string_iff.mpr rfl)
  exact ⟨ofHost_of_relisted.1 _, rfl, hlists, ofHost_of_relisted.2 _ _ _ rfl hlists, _, rfl, rfl⟩

end Grammar

end CodeTint
