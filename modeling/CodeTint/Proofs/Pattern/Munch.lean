import CodeTint.Proofs.Pattern.Choice
import CodeTint.Proofs.Text.Longest

/-!
# Patterns that take the longest word

A search by trial and error takes the longest word of a language if the pattern is put together from
parts that cannot be taken for each other: then an earlier end of a part leaves the following part
nothing to begin with (`Node.Munches`). What follows the pattern need not succeed, as long as it
does not succeed behind a shorter word only.
-/

namespace CodeTint

/-- If it is not possible to go on behind the word `taken` of the language, then it is not possible
behind any other one with which the text begins. -/
def StuckBehind (L : Language Char) (goOn : Cursor → Option Cursor) (c : Cursor)
    (taken back : List Char) : Prop :=
  goOn (c.pass taken back) = none →
    ∀ word rest, c.rest = word ++ rest → word ∈ L → goOn (c.pass word rest) = none

theorem stuckBehind_some (L : Language Char) (c : Cursor) (taken back : List Char) :
    StuckBehind L some c taken back :=
  nofun

namespace Node

variable {K L : Language Char} {first second body : Node}

/-- From every place the pattern takes the longest word of the language, and has no match where the
text does not begin with any. -/
structure Munches (node : Node) (L : Language Char) : Prop where
  choose_eq_none : ∀ (c : Cursor) (goOn : Cursor → Option Cursor),
    (∀ word ∈ L, ¬word <+: c.rest) → node.choose goOn c = none
  choose_eq : ∀ (c : Cursor) (goOn : Cursor → Option Cursor) (taken back : List Char),
    IsLongest L c.rest taken back → StuckBehind L goOn c taken back →
      node.choose goOn c = goOn (c.pass taken back)

/-! ## Characters -/

theorem choose_one_of_mem {set : CharSet} {c : Cursor} {x : Char} {rest : List Char}
    (hc : c.rest = x :: rest) (hx : set.mem x) (goOn : Cursor → Option Cursor) :
    (one set).choose goOn c = goOn (c.pass [x] rest) := by
  obtain ⟨before, text, offset⟩ := c
  obtain rfl : text = x :: rest := hc
  rw [choose_one, List.head?_cons, Option.any_some, if_pos hx]
  rfl

theorem munches_one (set : CharSet) : (one set).Munches (oneOf set.mem) := by
  constructor
  · intro c goOn hnone
    rw [choose_one, if_neg]
    intro hany
    obtain ⟨x, rest, hrest, hx⟩ := exists_cons_of_any_head? hany
    exact hnone [x] (singleton_mem_oneOf.mpr hx) ⟨rest, hrest.symm⟩
  · intro c goOn taken back hlongest _
    obtain ⟨x, hx, rfl, hc⟩ := isLongest_oneOf_iff.mp hlongest
    exact choose_one_of_mem hc hx goOn

/-! ## Runs -/

theorem munches_anyOf (set : CharSet) :
    (repetition (one set) 0 none true).Munches (anyOf set.mem) := by
  constructor
  · intro c goOn hnone
    exact absurd List.nil_prefix (hnone [] fun x hx => absurd hx List.not_mem_nil)
  · intro c goOn taken back hlongest hstuck
    obtain ⟨hc, hrun, hstop⟩ := isLongest_anyOf_iff.mp hlongest
    exact choose_run hrun hstop hc hstuck

theorem munches_someOf (set : CharSet) :
    (repetition (one set) 1 none true).Munches (someOf set.mem) := by
  constructor
  · intro c goOn hnone
    rw [choose_run_succ]
    refine (munches_one set).choose_eq_none c _ fun word hword => hnone word ?_
    obtain ⟨x, hx, rfl⟩ := hword
    exact ⟨List.cons_ne_nil x [], List.forall_mem_singleton.mpr hx⟩
  · intro c goOn taken back hlongest hstuck
    obtain ⟨hc, hne, hrun, hstop⟩ := isLongest_someOf_iff.mp hlongest
    obtain ⟨x, run, rfl⟩ := List.exists_cons_of_ne_nil hne
    obtain ⟨hx, hrun⟩ := List.forall_mem_cons.mp hrun
    -- Behind the first character the run may be of any length.
    have hbehind : (repetition (one set) 0 none true).choose goOn (c.pass [x] (run ++ back)) =
        goOn (c.pass (x :: run) back) := by
      rw [choose_run hrun hstop rfl, Cursor.pass_pass]
      · rfl
      · rw [Cursor.pass_pass]
        intro hend part rest' hrest hpart
        rw [Cursor.pass_pass]
        refine hstuck hend (x :: part) rest' ?_ (cons_mem_someOf.mpr ⟨hx, hpart⟩)
        rw [hc, List.cons_append, List.cons_append]
        exact congrArg (x :: ·) hrest
    rw [choose_run_succ, choose_one_of_mem hc hx]
    exact hbehind

/-! ## Options, sequences and alternatives -/

theorem Munches.option (hbody : body.Munches L) :
    (repetition body 0 (some 1) true).Munches (optionally L) := by
  constructor
  · intro c goOn hnone
    exact absurd List.nil_prefix (hnone [] (.inl rfl))
  · intro c goOn taken back hlongest hstuck
    have hleft : goOn (c.pass taken back) = none → goOn c = none := fun hend => by
      have hnil := hstuck hend [] c.rest rfl (.inl rfl)
      rwa [Cursor.pass_nil] at hnil
    rw [choose_option]
    rcases isLongest_optionally_iff.mp hlongest with hlongest | ⟨hnone, rfl, rfl⟩
    · rw [hbody.choose_eq c goOn taken back hlongest fun hend word rest hc hword =>
        hstuck hend word rest hc (.inr hword)]
      cases hend : goOn (c.pass taken back) with
      | none => rw [hleft hend, Option.none_or]
      | some result => rfl
    · rw [hbody.choose_eq_none c goOn hnone, Option.none_or, Cursor.pass_nil]

/-- Where the text begins with no word of the language but the empty one, the pattern does not help
to go on. -/
theorem Munches.choose_eq_none_of_nil {node : Node} (hnode : node.Munches L) {c : Cursor}
    {goOn : Cursor → Option Cursor} (hnil : ∀ word ∈ L, word <+: c.rest → word = [])
    (hgoOn : [] ∈ L → goOn c = none) : node.choose goOn c = none := by
  by_cases hempty : [] ∈ L
  · have hlongest : IsLongest L c.rest [] c.rest :=
      ⟨rfl, hempty, fun word hword hpre => by rw [hnil word hword hpre]⟩
    rw [hnode.choose_eq c goOn [] c.rest hlongest, Cursor.pass_nil, hgoOn hempty]
    intro hend word rest hrest hword
    obtain rfl := hnil word hword ⟨rest, hrest.symm⟩
    obtain rfl : c.rest = rest := hrest
    exact hend
  · refine hnode.choose_eq_none c goOn fun word hword hpre => hempty ?_
    rw [← hnil word hword hpre]
    exact hword

/-- What is stuck behind the words of a product is stuck behind those of the second factor. -/
theorem stuckBehind_of_mul {c : Cursor} {goOn : Cursor → Option Cursor} {a b rest back : List Char}
    (hstuck : StuckBehind (K * L) goOn c (a ++ b) back) (hc : c.rest = a ++ rest) (ha : a ∈ K) :
    StuckBehind L goOn (c.pass a rest) b back := by
  rw [StuckBehind, Cursor.pass_pass]
  intro hend word rest' hrest hword
  rw [Cursor.pass_pass]
  refine hstuck hend _ _ ?_ (Language.append_mem_mul ha hword)
  rw [hc, List.append_assoc]
  exact congrArg (a ++ ·) hrest

theorem Munches.seq (hfirst : first.Munches K) (hsecond : second.Munches L) (hapart : Apart K L) :
    (seq first second).Munches (K * L) := by
  constructor
  · intro c goOn hnone
    rw [choose_seq]
    by_cases hword : ∃ word ∈ K, word <+: c.rest
    · obtain ⟨word, hword, hpre⟩ := hword
      obtain ⟨a, rest, ha⟩ := exists_isLongest hword hpre
      -- Nowhere behind a word of the first factor is there one of the second.
      have hbehind : ∀ word rest', c.rest = word ++ rest' → word ∈ K →
          second.choose goOn (c.pass word rest') = none := by
        intro word rest' hc hword
        refine hsecond.choose_eq_none _ goOn fun b hb ⟨back, hrest⟩ => ?_
        refine hnone (word ++ b) (Language.append_mem_mul hword hb) ⟨back, ?_⟩
        rw [List.append_assoc, hc]
        exact congrArg (word ++ ·) hrest
      rw [hfirst.choose_eq c _ a rest ha fun _ => hbehind]
      exact hbehind a rest ha.text_eq ha.mem
    · exact hfirst.choose_eq_none c _ fun word hmem hpre => hword ⟨word, hmem, hpre⟩
  · intro c goOn taken back hlongest hstuck
    obtain ⟨a, b, rest, rfl, ha, hb⟩ := hlongest.exists_of_mul hapart
    have hsecond_eq : second.choose goOn (c.pass a rest) = goOn (c.pass (a ++ b) back) := by
      rw [hsecond.choose_eq _ goOn b back hb (stuckBehind_of_mul hstuck ha.text_eq ha.mem),
        Cursor.pass_pass]
    rw [choose_seq, hfirst.choose_eq c _ a rest ha, hsecond_eq]
    rw [StuckBehind, hsecond_eq]
    intro hend word rest' hc hword
    rcases ha.eq_or_head? hword hc with ⟨rfl, rfl⟩ | ⟨x, hx, hhead⟩
    · rw [hsecond_eq, hend]
    · -- Behind a shorter word the second part finds a character of the longest one.
      refine hsecond.choose_eq_none_of_nil
        (fun b hb hpre => hapart.eq_nil ha.mem hx hhead hb hpre) fun hempty => ?_
      have hmem := Language.append_mem_mul hword hempty
      rw [List.append_nil] at hmem
      exact hstuck hend word rest' hc hmem

theorem Munches.alt {p : Char → Bool} (hfirst : first.Munches K) (hsecond : second.Munches L)
    (hK : BeginsWith p K) (hL : BeginsWith (fun x => !p x) L) (hnilK : [] ∉ K) (hnilL : [] ∉ L) :
    (alt first second).Munches (K + L) := by
  have hexcl : ∀ text : List Char, ∀ a ∈ K, a <+: text → ∀ b ∈ L, ¬b <+: text :=
    fun text a ha hatext b hb => not_prefix_of_beginsWith hK hL hnilK hnilL ha hatext hb
  constructor
  · intro c goOn hnone
    rw [choose_alt, hfirst.choose_eq_none c goOn fun word hword => hnone word (.inl hword),
      hsecond.choose_eq_none c goOn fun word hword => hnone word (.inr hword), Option.none_or]
  · intro c goOn taken back hlongest hstuck
    have hpre : taken <+: c.rest := ⟨back, hlongest.text_eq.symm⟩
    rw [choose_alt]
    rcases hlongest.mem with hmem | hmem
    · rw [hsecond.choose_eq_none c goOn (hexcl _ taken hmem hpre), Option.or_none]
      exact hfirst.choose_eq c goOn taken back
        ⟨hlongest.text_eq, hmem, fun word hword => hlongest.longest word (.inl hword)⟩
        fun hend word rest hc hword => hstuck hend word rest hc (.inl hword)
    · rw [hfirst.choose_eq_none c goOn fun word hword hbegins =>
        hexcl _ word hword hbegins taken hmem hpre, Option.none_or]
      exact hsecond.choose_eq c goOn taken back
        ⟨hlongest.text_eq, hmem, fun word hword => hlongest.longest word (.inr hword)⟩
        fun hend word rest hc hword => hstuck hend word rest hc (.inr hword)

end Node

end CodeTint
