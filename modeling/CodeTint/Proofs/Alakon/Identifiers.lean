import Mathlib.Data.List.TakeWhile
import CodeTint.Proofs.Alakon.NumberMatches
import CodeTint.Proofs.Alakon.Tokens

/-!
# Identifiers

The pattern of words takes a letter and all word characters that follow it, whatever stands before
the letter. What words a part of the text has is therefore told by its characters alone
(`wordsFrom_eq_wordSpans`), the words of two parts are those of the whole unless the cut is between
two word characters (`wordSpans_append`), and a run of word characters has one word, from its first
letter on (`wordSpans_run`).
-/

namespace CodeTint

namespace Alakon

/-- The words `[A-Za-z][A-Za-z0-9_]*`. -/
def identifiers : Language Char :=
  oneOf isAsciiLetter * anyOf isAsciiWord

theorem cons_mem_identifiers {x : Char} {more : List Char} :
    x :: more ∈ identifiers ↔ isAsciiLetter x ∧ ∀ y ∈ more, isAsciiWord y := by
  constructor
  · rintro ⟨_, ⟨y, hy, rfl⟩, rest, hrest, heq⟩
    obtain ⟨rfl, rfl⟩ := List.cons.inj heq
    exact ⟨hy, hrest⟩
  · rintro ⟨hx, hmore⟩
    exact ⟨[x], ⟨x, hx, rfl⟩, more, hmore, rfl⟩

theorem exists_cons_of_mem_identifiers {word : List Char} (h : word ∈ identifiers) :
    ∃ x more, word = x :: more ∧ isAsciiLetter x ∧ ∀ y ∈ more, isAsciiWord y := by
  obtain ⟨_, ⟨x, hx, rfl⟩, more, hmore, rfl⟩ := h
  exact ⟨x, more, rfl, hx, hmore⟩

theorem ne_nil_of_mem_identifiers {word : List Char} (h : word ∈ identifiers) : word ≠ [] :=
  fun hnil => nil_notMem_mul (nil_notMem_oneOf _) (hnil ▸ h)

theorem isAsciiWord_of_mem_identifiers {word : List Char} (h : word ∈ identifiers) :
    ∀ x ∈ word, isAsciiWord x := by
  obtain ⟨x, more, rfl, hx, hmore⟩ := exists_cons_of_mem_identifiers h
  exact List.forall_mem_cons.mpr ⟨isAsciiWord_of_isAsciiLetter hx, hmore⟩

/-- A text has no letter, or a first one that begins an identifier. -/
theorem exists_first_identifier (text : List Char) :
    (∀ x ∈ text, isAsciiLetter x = false) ∨
      ∃ lead word rest, text = lead ++ (word ++ rest) ∧ (∀ x ∈ lead, isAsciiLetter x = false) ∧
        word ∈ identifiers ∧ rest.head?.any isAsciiWord = false := by
  induction text with
  | nil => exact .inl fun x hx => absurd hx List.not_mem_nil
  | cons y text ih =>
      by_cases hy : isAsciiLetter y
      · right
        have hnil : [] ∈ anyOf isAsciiWord := fun x hx => absurd hx List.not_mem_nil
        obtain ⟨run, rest, hrun⟩ : ∃ run rest, IsLongest (anyOf isAsciiWord) text run rest :=
          exists_isLongest hnil List.nil_prefix
        obtain ⟨rfl, hword, hrest⟩ := isLongest_anyOf_iff.mp hrun
        exact ⟨[], y :: run, rest, rfl, fun x hx => absurd hx List.not_mem_nil,
          cons_mem_identifiers.mpr ⟨hy, hword⟩, hrest⟩
      · have hnot : isAsciiLetter y = false := Bool.eq_false_iff.mpr hy
        rcases ih with hnone | ⟨lead, word, rest, rfl, hlead, hword, hrest⟩
        · exact .inl (List.forall_mem_cons.mpr ⟨hnot, hnone⟩)
        · exact .inr ⟨y :: lead, word, rest, rfl, List.forall_mem_cons.mpr ⟨hnot, hlead⟩, hword,
            hrest⟩

/-! ## Where words are found -/

variable {c d : Cursor} {lead word rest : List Char}

theorem mem_letterSet : letterSet.mem = isAsciiLetter := by
  funext x
  exact Bool.or_comm _ _

theorem mem_wordSet : wordSet.mem = isAsciiWord := by
  funext x
  rw [wordSet, CharSet.mem, CharSet.mem, mem_letterSet, mem_single]
  rfl

theorem munches_wordSet : (anyNode wordSet).Munches (anyOf isAsciiWord) :=
  mem_wordSet ▸ Node.munches_anyOf wordSet

theorem choose_identifier :
    identifierNode.choose some =
      (Node.one letterSet).choose ((anyNode wordSet).choose some) := by
  simp only [identifierNode, Node.seqOf, List.foldl, Node.choose_seq_eq]

/-- A letter and all word characters that follow it are taken. -/
theorem matchEnd_identifier (hc : c.rest = word ++ rest) (hword : word ∈ identifiers)
    (hrest : rest.head?.any isAsciiWord = false) :
    identifier.matchEnd c = some (c.pass word rest) := by
  obtain ⟨x, more, rfl, hx, hmore⟩ := exists_cons_of_mem_identifiers hword
  have hcons : c.rest = x :: (more ++ rest) := hc
  have hletter : letterSet.mem x := by rwa [mem_letterSet]
  have hlongest : IsLongest (anyOf isAsciiWord) (more ++ rest) more rest :=
    isLongest_anyOf_iff.mpr ⟨rfl, hmore, hrest⟩
  rw [Node.matchEnd_pattern, ← Node.choose_some, choose_identifier,
    Node.choose_one_of_mem hcons hletter,
    munches_wordSet.choose_eq _ some more rest hlongest (stuckBehind_some _ _ _ _),
    Cursor.pass_pass]
  rfl

theorem exists_of_takes_identifier {s : Stretch} (hs : identifier.Takes s) :
    ∃ word rest, s.start.rest = word ++ rest ∧ word ∈ identifiers ∧
      s.stop = s.start.pass word rest := by
  have hletter : s.start.rest.head?.any isAsciiLetter := by
    by_contra hnone
    have hfail : (Node.one letterSet).choose ((anyNode wordSet).choose some) s.start = none := by
      rw [Node.choose_one, mem_letterSet]
      exact if_neg hnone
    have hends := hs.ends
    rw [Node.matchEnd_pattern, ← Node.choose_some, choose_identifier, hfail] at hends
    cases hends
  obtain ⟨x, text, htext, hx⟩ := exists_cons_of_any_head? hletter
  rcases exists_first_identifier (x :: text) with
    hnone | ⟨lead, word, rest, heq, hlead, hword, hrest⟩
  · rw [hnone x List.mem_cons_self] at hx
    cases hx
  · -- The first letter is the first character.
    obtain rfl : lead = [] := by
      cases lead with
      | nil => rfl
      | cons y lead =>
          obtain rfl := (List.cons.inj heq).1
          rw [hlead x List.mem_cons_self] at hx
          cases hx
    have hc : s.start.rest = word ++ rest := htext.trans heq
    refine ⟨word, rest, hc, hword, ?_⟩
    exact Option.some.inj (hs.ends.symm.trans (matchEnd_identifier hc hword hrest))

theorem findNonEmpty_identifier_eq_none (hnone : ∀ x ∈ c.rest, isAsciiLetter x = false) :
    identifier.findNonEmpty c = none := by
  refine Pattern.findNonEmpty_eq_none_iff.mpr fun t hct ht => ?_
  obtain ⟨word, rest, hrest, hword, -⟩ := exists_of_takes_identifier ht
  obtain ⟨x, more, rfl, hx, -⟩ := exists_cons_of_mem_identifiers hword
  have hmem : x ∈ t.start.rest := hrest ▸ List.mem_cons_self
  rw [hnone x (Cursor.rest_subset hct hmem)] at hx
  cases hx

theorem findNonEmpty_identifier (hc : c.rest = lead ++ (word ++ rest))
    (hlead : ∀ x ∈ lead, isAsciiLetter x = false) (hword : word ∈ identifiers)
    (hrest : rest.head?.any isAsciiWord = false) :
    identifier.findNonEmpty c =
      some ⟨c.pass lead (word ++ rest), c.pass (lead ++ word) rest⟩ := by
  have hstop := Cursor.pass_pass c lead word (word ++ rest) rest
  refine Pattern.findNonEmpty_eq_some_iff.mpr ⟨c.le_pass hc, ⟨?_, ?_⟩, fun t hct ht => ?_⟩
  · rw [← hstop]
    exact matchEnd_identifier rfl hword hrest
  · rw [← hstop]
    exact Cursor.lt_pass _ rfl (ne_nil_of_mem_identifiers hword)
  · -- A match begins with a letter, and there is none before the word.
    refine Cursor.pass_le_of_rest (p := fun x => !isAsciiLetter x) (fun x hx => ?_) hc hct ?_
    · simp [hlead x hx]
    · obtain ⟨word', rest', hrest', hword', -⟩ := exists_of_takes_identifier ht
      obtain ⟨x, more, rfl, hx, -⟩ := exists_cons_of_mem_identifiers hword'
      simp [hrest', hx]

/-! ## Words of a part of the text -/

variable {options : AlakonOptions} {offset : Nat} {a b run : List Char}

/-- The words of a text that begins at the offset. -/
def wordSpans (options : AlakonOptions) (offset : Nat) (text : List Char) : List Span :=
  (highlighter options).wordsFrom (.atStart text offset)

/-- The span of a word that begins at the offset, if the word has a category and is not empty. -/
def wordSpan (options : AlakonOptions) (offset : Nat) (word : List Char) : List Span :=
  [⟨wordCategory options (String.ofList word), offset, offset + byteSize word⟩].filter Span.isToken

/-- What stands before the first letter of a run. -/
def beforeLetter (run : List Char) : List Char :=
  run.takeWhile (!isAsciiLetter ·)

/-- The part of a run from its first letter on. -/
def fromLetter (run : List Char) : List Char :=
  run.dropWhile (!isAsciiLetter ·)

theorem beforeLetter_append_fromLetter (run : List Char) :
    beforeLetter run ++ fromLetter run = run :=
  List.takeWhile_append_dropWhile

theorem wordsFrom_of_no_letter (hnone : ∀ x ∈ c.rest, isAsciiLetter x = false) :
    (highlighter options).wordsFrom c = [] :=
  Highlighter.wordsFrom_of_eq_none (findNonEmpty_identifier_eq_none hnone)

theorem wordsFrom_of_word (hc : c.rest = lead ++ (word ++ rest))
    (hlead : ∀ x ∈ lead, isAsciiLetter x = false) (hword : word ∈ identifiers)
    (hrest : rest.head?.any isAsciiWord = false) :
    (highlighter options).wordsFrom c =
      wordSpan options (c.offset + byteSize lead) word ++
        (highlighter options).wordsFrom (c.pass (lead ++ word) rest) := by
  have htext : (c.pass lead (word ++ rest)).textTo (c.pass (lead ++ word) rest) = word := by
    rw [← Cursor.pass_pass c lead word (word ++ rest) rest, Cursor.textTo_pass rfl]
  have hoffset : (c.pass (lead ++ word) rest).offset =
      c.offset + byteSize lead + byteSize word := by
    rw [Cursor.pass, byteSize_append, Nat.add_assoc]
  rw [Highlighter.wordsFrom_of_eq_some (findNonEmpty_identifier hc hlead hword hrest), wordSpan,
    (isHighlighter_highlighter options).classifyWord_eq, Stretch.text, htext, hoffset]
  rfl

theorem length_lt_of_word (hword : word ∈ identifiers) :
    rest.length < (lead ++ (word ++ rest)).length := by
  have hpos := List.length_pos_iff.mpr (ne_nil_of_mem_identifiers hword)
  simp only [List.length_append]
  omega

/-- The words from a place on do not depend on what stands before it. -/
theorem wordsFrom_eq_wordSpans (c : Cursor) :
    (highlighter options).wordsFrom c = wordSpans options c.offset c.rest := by
  induction hn : c.rest.length using Nat.strongRecOn generalizing c with
  | ind n ih =>
      have hstart : (Cursor.atStart c.rest c.offset).rest = c.rest := rfl
      rcases exists_first_identifier c.rest with
        hnone | ⟨lead, word, rest, hc, hlead, hword, hrest⟩
      · rw [wordSpans, wordsFrom_of_no_letter hnone, wordsFrom_of_no_letter (hstart ▸ hnone)]
      · have hlength : rest.length < n := hn ▸ hc ▸ length_lt_of_word hword
        rw [wordSpans, wordsFrom_of_word hc hlead hword hrest,
          wordsFrom_of_word (hstart.trans hc) hlead hword hrest, ih _ hlength _ rfl,
          ih _ hlength (Cursor.pass _ _ _) rfl]
        rfl

theorem wordSpans_of_no_letter (hnone : ∀ x ∈ a, isAsciiLetter x = false) :
    wordSpans options offset a = [] :=
  wordsFrom_of_no_letter hnone

theorem wordSpans_of_word (hlead : ∀ x ∈ lead, isAsciiLetter x = false)
    (hword : word ∈ identifiers) (hrest : rest.head?.any isAsciiWord = false) :
    wordSpans options offset (lead ++ (word ++ rest)) =
      wordSpan options (offset + byteSize lead) word ++
        wordSpans options (offset + byteSize (lead ++ word)) rest := by
  rw [wordSpans, wordsFrom_of_word rfl hlead hword hrest, wordsFrom_eq_wordSpans]
  rfl

theorem wordSpans_of_mem_identifiers (hword : word ∈ identifiers) :
    wordSpans options offset word = wordSpan options offset word := by
  conv_lhs => rw [← List.append_nil word, ← List.nil_append (word ++ [])]
  rw [wordSpans_of_word (fun x hx => absurd hx List.not_mem_nil) hword rfl,
    wordSpans_of_no_letter (fun x hx => absurd hx List.not_mem_nil), List.append_nil]
  rfl

/-- What has no letter has no words either, and may as well be left out. -/
theorem wordSpans_skip (hnone : ∀ x ∈ a, isAsciiLetter x = false) :
    wordSpans options offset (a ++ b) = wordSpans options (offset + byteSize a) b := by
  rcases exists_first_identifier b with hnone' | ⟨lead, word, rest, rfl, hlead, hword, hrest⟩
  · rw [wordSpans_of_no_letter hnone',
      wordSpans_of_no_letter (List.forall_mem_append.mpr ⟨hnone, hnone'⟩)]
  · rw [wordSpans_of_word hlead hword hrest, ← List.append_assoc,
      wordSpans_of_word (List.forall_mem_append.mpr ⟨hnone, hlead⟩) hword hrest]
    simp only [byteSize_append, Nat.add_assoc]

/-- A cut that is not between two word characters cuts no word. -/
theorem wordSpans_append
    (hcut : a.getLast?.any isAsciiWord = false ∨ b.head?.any isAsciiWord = false) :
    wordSpans options offset (a ++ b) =
      wordSpans options offset a ++ wordSpans options (offset + byteSize a) b := by
  induction hn : a.length using Nat.strongRecOn generalizing a offset with
  | ind n ih =>
      rcases exists_first_identifier a with hnone | ⟨lead, word, rest, rfl, hlead, hword, hrest⟩
      · rw [wordSpans_skip hnone, wordSpans_of_no_letter hnone, List.nil_append]
      · -- The word ends where it does without what follows the cut.
        have hlast : rest.getLast?.any isAsciiWord = false ∨ b.head?.any isAsciiWord = false := by
          cases rest with
          | nil => exact .inl rfl
          | cons y rest => simpa [List.getLast?_append, List.getLast?_cons] using hcut
        have hrest' : (rest ++ b).head?.any isAsciiWord = false := by
          cases rest with
          | cons y rest => exact hrest
          | nil =>
              refine hcut.resolve_left fun hnot => ?_
              have hne := ne_nil_of_mem_identifiers hword
              rw [List.append_nil, List.getLast?_append, List.getLast?_eq_some_getLast hne,
                Option.some_or, Option.any_some,
                isAsciiWord_of_mem_identifiers hword _ (List.getLast_mem hne)] at hnot
              cases hnot
        have hlength : rest.length < n := hn ▸ length_lt_of_word hword
        rw [List.append_assoc, List.append_assoc, wordSpans_of_word hlead hword hrest',
          wordSpans_of_word hlead hword hrest, ih _ hlength hlast rfl, List.append_assoc]
        simp only [byteSize_append, Nat.add_assoc]

/-- A run of word characters has one word, from its first letter on. -/
theorem wordSpans_run (hrun : ∀ x ∈ run, isAsciiWord x) :
    wordSpans options offset run =
      wordSpan options (offset + byteSize (beforeLetter run)) (fromLetter run) := by
  have hlead : ∀ x ∈ beforeLetter run, isAsciiLetter x = false := fun x hx => by
    simpa using List.mem_takeWhile_imp hx
  have hsplit := beforeLetter_append_fromLetter run
  cases hword : fromLetter run with
  | nil =>
      rw [hword, List.append_nil] at hsplit
      rw [wordSpans_of_no_letter (hsplit ▸ hlead), wordSpan]
      simp [Span.isToken, Span.isEmpty]
  | cons x more =>
      have hx : isAsciiLetter x := by
        have hhead := List.head?_dropWhile_not (!isAsciiLetter ·) run
        rw [← fromLetter, hword] at hhead
        simpa using hhead
      have hmore : ∀ y ∈ more, isAsciiWord y := fun y hy =>
        hrun y ((List.dropWhile_suffix _).subset (hword ▸ List.mem_cons_of_mem _ hy))
      rw [hword] at hsplit
      conv_lhs => rw [← hsplit]
      rw [wordSpans_skip hlead,
        wordSpans_of_mem_identifiers (cons_mem_identifiers.mpr ⟨hx, hmore⟩)]

/-- The words of a text are those before a maximal run of word characters, that of the run, and
those behind it. -/
theorem wordSpans_eq_of_isMaximalRun {front back : List Char}
    (hrun : IsMaximalRun isAsciiWord a front run back) :
    wordSpans options offset a =
      wordSpans options offset front ++
        (wordSpan options (offset + byteSize (front ++ beforeLetter run)) (fromLetter run) ++
          wordSpans options (offset + byteSize (front ++ run)) back) := by
  rw [hrun.text_eq, List.append_assoc, wordSpans_append (.inl hrun.before),
    wordSpans_append (.inr hrun.behind), wordSpans_run hrun.all]
  simp only [byteSize_append, Nat.add_assoc]

theorem bounds_of_mem_wordSpans {span : Span} (hspan : span ∈ wordSpans options offset a) :
    offset ≤ span.start ∧ span.stop ≤ offset + byteSize a := by
  have hcovers := ((highlighter options).classifyGap_spec (Cursor.le_atEnd (.atStart a offset))).1
  rw [Cursor.alone, Cursor.textTo_atEnd] at hcovers
  obtain ⟨d, e, hd, -, he, hplaces⟩ := hcovers.exists_places (List.mem_of_mem_filter hspan)
  rw [hplaces]
  exact ⟨Cursor.offset_le hd, Cursor.offset_le he⟩

end Alakon

end CodeTint
