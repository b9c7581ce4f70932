import Mathlib.Data.String.Basic
import CodeTint.Highlight.Basic
import CodeTint.Highlight.Scan
import CodeTint.Pattern.Reader
import CodeTint.Proofs.Grammar.KeywordSet

/-!
# The table of words

Putting words into the table keeps what is there, so that a word has the category of the first group
that lists it (`getElem?_wordTable`). A highlighter, which looks words up in its table, therefore
agrees with the keyword set of its grammar, which searches the groups
(`Highlighter.classifyWord_eq_categoryOf?`).
-/

namespace CodeTint

variable (table : Std.TreeMap String Category) (category : Category) (word : String)

theorem getElem?_insertIfNew (first : String) :
    (table.insertIfNew first category)[word]? =
      table[word]?.or (if first = word then some category else none) := by
  rw [Std.TreeMap.getElem?_insertIfNew]
  by_cases hfirst : first = word
  · subst hfirst
    by_cases hmem : first ∈ table
    · simp [hmem]
    · simp [hmem]
  · simp [hfirst]

theorem getElem?_foldl_insertIfNew (words : List String) :
    (words.foldl (fun table word => table.insertIfNew word category) table)[word]? =
      table[word]?.or (if words.contains word then some category else none) := by
  induction words generalizing table with
  | nil => simp
  | cons first words ih =>
      rw [List.foldl_cons, ih, getElem?_insertIfNew, Option.or_assoc]
      by_cases hfirst : first = word
      · simp [hfirst]
      · simp [hfirst, Ne.symm hfirst]

/-- Further groups only give categories to words that have none yet, each that of the first of them
that lists the word. -/
theorem getElem?_foldl_groups (groups : List KeywordGroup) :
    (groups.foldl (fun table group => group.words.foldl
      (fun table word => table.insertIfNew word group.category) table) table)[word]? =
        table[word]?.or ((groups.find? (·.words.contains word)).map (·.category)) := by
  induction groups generalizing table with
  | nil => simp
  | cons group groups ih =>
      rw [List.foldl_cons, ih, getElem?_foldl_insertIfNew, Option.or_assoc, List.find?_cons]
      cases group.words.contains word <;> simp

/-- A word has the category of the first group that lists it. -/
theorem getElem?_wordTable (groups : List KeywordGroup) :
    (wordTable groups)[word]? = (groups.find? (·.words.contains word)).map (·.category) := by
  rw [wordTable, getElem?_foldl_groups]
  simp

namespace Highlighter

/-! ## Highlighters from grammars -/

variable {read : String → Option Pattern}

/-- The groups of words have no part in what can be wrong with a grammar. -/
theorem ofGrammar_eq_map (read : String → Option Pattern) (grammar other : Grammar)
    (hname : other.name = grammar.name)
    (hpattern : other.keywords.pattern = grammar.keywords.pattern)
    (hrules : other.rules = grammar.rules) :
    ofGrammar read other =
      (ofGrammar read grammar).map ({ · with words := wordTable other.keywords.groups }) := by
  rw [ofGrammar, ofGrammar, hname, hpattern, hrules]
  cases grammar.rules.mapM (Rule.compile read) with
  | error invalid => rfl
  | ok rules =>
      cases compilePattern read .keyword grammar.keywords.pattern with
      | error invalid => rfl
      | ok pattern => rfl

theorem words_of_ofGrammar {grammar : Grammar} {h : Highlighter}
    (hread : ofGrammar read grammar = .ok h) :
    h.words = wordTable grammar.keywords.groups := by
  rw [ofGrammar_eq_map read grammar grammar rfl rfl rfl] at hread
  cases hgrammar : ofGrammar read grammar with
  | error invalid => rw [hgrammar] at hread; cases hread
  | ok h' =>
      rw [hgrammar] at hread
      exact Except.ok.inj hread ▸ rfl

/-- A highlighter gives a word the category that the grammar has for it. -/
theorem classifyWord_of_ofGrammar {grammar : Grammar} {h : Highlighter}
    (hread : ofGrammar read grammar = .ok h) (word : String) :
    h.classifyWord word = grammar.keywords.categoryOf? word := by
  rw [classifyWord, words_of_ofGrammar hread, getElem?_wordTable, KeywordSet.categoryOf?]

/-- A word is looked up in the table of a highlighter, or in the groups of its grammar, with the
same result: it has the category of the first group that lists it, however often it is listed there
or in later groups, and none if no group lists it. -/
theorem classifyWord_eq_categoryOf? {grammar : Grammar} {h : Highlighter}
    (hread : ofGrammar read grammar = .ok h) (word : String) :
    h.classifyWord word = grammar.keywords.categoryOf? word ∧
      (∀ category, h.classifyWord word = some category ↔ ∃ front group back,
        grammar.keywords.groups = front ++ group :: back ∧ group.category = category ∧
          word ∈ group.words ∧ ∀ other ∈ front, word ∉ other.words) ∧
      (h.classifyWord word = none ↔ ∀ group ∈ grammar.keywords.groups, word ∉ group.words) := by
  have hclassify := classifyWord_of_ofGrammar hread word
  refine ⟨hclassify, fun category => ?_, ?_⟩
  · rw [hclassify, KeywordSet.categoryOf?_eq_some_iff]
  · rw [hclassify, KeywordSet.categoryOf?_eq_none_iff]

/-- A word that is listed under two categories, and again under the one that comes later. -/
def repeatedWords : Grammar :=
  ⟨"repeated", ⟨"x", [⟨.keyword, ["if", "if"]⟩, ⟨.builtIn, ["num", "if"]⟩, ⟨.keyword, ["num"]⟩]⟩,
    [], .legacy⟩

theorem classifyWord_eq_categoryOf?_repeatedWords :
    ∃ h, ofGrammar Pattern.ofString? repeatedWords = .ok h ∧
      h.classifyWord "num" = repeatedWords.keywords.categoryOf? "num" ∧
      h.classifyWord "num" = some .builtIn := by
  obtain ⟨h, hread⟩ : ∃ h, ofGrammar Pattern.ofString? repeatedWords = .ok h := ⟨_, rfl⟩
  have hnum := (classifyWord_eq_categoryOf? hread "num").1
  exact ⟨h, hread, hnum, hnum⟩

end Highlighter

/-! ## Highlighters that know the same words

A highlighter uses its table of words only to look up single words. Two highlighters with the same
rules whose tables give every word the same category therefore highlight every text alike
(`SameWords.highlight_eq`), however the tables were filled. -/

namespace Highlighter

/-- The words of a gap depend on nothing but the pattern of words and the categories of words. -/
theorem classifyFrom_congr {h h' : Highlighter} (hpattern : h.wordPattern = h'.wordPattern)
    (hwords : ∀ word, h.classifyWord word = h'.classifyWord word) (fuel : Nat) (c : Cursor) :
    h.classifyFrom fuel c = h'.classifyFrom fuel c := by
  induction fuel generalizing c with
  | zero => rfl
  | succ fuel ih =>
      rw [classifyFrom, classifyFrom, hpattern]
      split
      · rfl
      · rw [hwords, ih]

/-- The highlighters have the same rules, and give every word the same category. -/
structure SameWords (h h' : Highlighter) : Prop where
  rules : h.rules = h'.rules
  wordPattern : h.wordPattern = h'.wordPattern
  classifyWord : ∀ word, h.classifyWord word = h'.classifyWord word

namespace SameWords

variable {h h' : Highlighter}

theorem classifyFrom_eq (hsame : h.SameWords h') (fuel : Nat) (c : Cursor) :
    h.classifyFrom fuel c = h'.classifyFrom fuel c :=
  classifyFrom_congr hsame.wordPattern hsame.classifyWord fuel c

theorem scanPart_eq (hsame : h.SameWords h') (c : Cursor) (candidate : Option Candidate) :
    h.scanPart c candidate = h'.scanPart c candidate := by
  cases candidate with
  | none => simp only [scanPart, classifyGap, hsame.classifyFrom_eq]
  | some candidate => simp only [scanPart, classifyGap, hsame.classifyFrom_eq]

/-- What is remembered concerns the rules only, so that both scans go the same way. -/
theorem scanFrom_eq (hsame : h.SameWords h') (fuel : Nat) (watches : List Watch) (c : Cursor) :
    h.scanFrom fuel watches c = h'.scanFrom fuel watches c := by
  induction fuel generalizing watches c with
  | zero => rfl
  | succ fuel ih =>
      rw [scanFrom, scanFrom]
      split
      · rfl
      · simp only [hsame.scanPart_eq, ih]

theorem highlight_eq (hsame : h.SameWords h') (text : String) :
    h.highlight text = h'.highlight text := by
  rw [highlight, highlight, hsame.rules]
  simp only [hsame.scanFrom_eq]

end SameWords

end Highlighter

end CodeTint
