import Mathlib.Computability.Language

/-!
# The longest word that a text begins with

A text may begin with several words of a language, and the longest of them is what is left of them
by a reader that never stops too early (`IsLongest`). The longest word of a product is the longest
one of the first factor and behind it the longest one of the second, if no word of the second can
begin inside of a word of the first (`Apart`, `IsLongest.mul`).
-/

namespace CodeTint

/-! ## Languages -/

def oneOf (p : Char → Bool) : Language Char :=
  {word | ∃ x, p x ∧ word = [x]}

def anyOf (p : Char → Bool) : Language Char :=
  {word | ∀ x ∈ word, p x}

def someOf (p : Char → Bool) : Language Char :=
  {word | word ≠ [] ∧ ∀ x ∈ word, p x}

/-- The words of a language, and the empty one. -/
def optionally (L : Language Char) : Language Char :=
  1 + L

section Languages

variable {p : Char → Bool} {K L : Language Char} {word : List Char}

theorem mem_oneOf : word ∈ oneOf p ↔ ∃ x, p x ∧ word = [x] :=
  Iff.rfl

theorem mem_anyOf : word ∈ anyOf p ↔ ∀ x ∈ word, p x :=
  Iff.rfl

theorem mem_someOf : word ∈ someOf p ↔ word ≠ [] ∧ ∀ x ∈ word, p x :=
  Iff.rfl

theorem mem_optionally : word ∈ optionally L ↔ word = [] ∨ word ∈ L :=
  Iff.rfl

theorem cons_mem_someOf {x : Char} : x :: word ∈ someOf p ↔ p x ∧ word ∈ anyOf p := by
  simp [mem_someOf, mem_anyOf]

theorem singleton_mem_oneOf {x : Char} : [x] ∈ oneOf p ↔ p x := by
  simp [mem_oneOf]

theorem exists_cons_of_any_head? {text : List Char} (h : text.head?.any p) :
    ∃ x rest, text = x :: rest ∧ p x := by
  cases text with
  | nil => cases h
  | cons x rest => exact ⟨x, rest, rfl, h⟩

/-- No word of `L` begins with a character that a word of `K` holds. -/
def Apart (K L : Language Char) : Prop :=
  ∀ a ∈ K, ∀ x ∈ a, ∀ b ∈ L, b.head? ≠ some x

end Languages

/-! ## Characters of words -/

section Characters

variable {p q : Char → Bool} {K L : Language Char}

/-- The words of the language consist of characters of the class. -/
def ConsistsOf (p : Char → Bool) (L : Language Char) : Prop :=
  ∀ word ∈ L, ∀ x ∈ word, p x

/-- The words of the language begin with characters of the class, unless they are empty. -/
def BeginsWith (p : Char → Bool) (L : Language Char) : Prop :=
  ∀ word ∈ L, word.head?.all p

theorem apart_of_consistsOf (hK : ConsistsOf p K) (hL : BeginsWith (fun x => !p x) L) :
    Apart K L := by
  intro a ha x hx b hb hhead
  have hnot := hL b hb
  rw [hhead, Option.all_some, hK a ha x hx] at hnot
  cases hnot

theorem apart_of_beginsWith (hK : ConsistsOf (fun x => !p x) K) (hL : BeginsWith p L) :
    Apart K L := by
  refine apart_of_consistsOf hK fun word hword => ?_
  simpa using hL word hword

/-- No text begins with words of both languages if their words begin with different characters. -/
theorem not_prefix_of_beginsWith (hK : BeginsWith p K) (hL : BeginsWith (fun x => !p x) L)
    (hnilK : [] ∉ K) (hnilL : [] ∉ L) {text a b : List Char} (ha : a ∈ K) (hatext : a <+: text)
    (hb : b ∈ L) : ¬b <+: text := by
  rintro ⟨more', rfl⟩
  obtain ⟨more, htext⟩ := hatext
  obtain ⟨x, a, rfl⟩ := List.exists_cons_of_ne_nil fun hnil => hnilK (hnil ▸ ha)
  obtain ⟨y, b, rfl⟩ := List.exists_cons_of_ne_nil fun hnil => hnilL (hnil ▸ hb)
  obtain rfl : x = y := (List.cons.inj htext).1
  have hx : p x := hK (x :: a) ha
  have hnot : (!p x) = true := hL (x :: b) hb
  rw [hx] at hnot
  cases hnot

theorem consistsOf_anyOf (h : ∀ x, p x → q x) : ConsistsOf q (anyOf p) :=
  fun _ hword x hx => h x (hword x hx)

theorem consistsOf_someOf (h : ∀ x, p x → q x) : ConsistsOf q (someOf p) :=
  fun _ hword x hx => h x (hword.2 x hx)

theorem consistsOf_oneOf (h : ∀ x, p x → q x) : ConsistsOf q (oneOf p) := by
  rintro _ ⟨x, hx, rfl⟩
  exact List.forall_mem_singleton.mpr (h x hx)

theorem ConsistsOf.optionally (h : ConsistsOf p L) : ConsistsOf p (optionally L) := by
  rintro word (rfl | hword)
  · exact fun x hx => absurd hx List.not_mem_nil
  · exact h word hword

theorem ConsistsOf.mul (hK : ConsistsOf p K) (hL : ConsistsOf p L) : ConsistsOf p (K * L) := by
  rintro _ ⟨a, ha, b, hb, rfl⟩
  exact List.forall_mem_append.mpr ⟨hK a ha, hL b hb⟩

theorem ConsistsOf.add (hK : ConsistsOf p K) (hL : ConsistsOf p L) : ConsistsOf p (K + L) := by
  rintro word (hword | hword)
  · exact hK word hword
  · exact hL word hword

theorem ConsistsOf.beginsWith (h : ConsistsOf p L) : BeginsWith p L := by
  intro word hword
  cases word with
  | nil => rfl
  | cons x word => exact h _ hword x List.mem_cons_self

theorem BeginsWith.optionally (h : BeginsWith p L) : BeginsWith p (optionally L) := by
  rintro word (rfl | hword)
  · rfl
  · exact h word hword

/-- A word of a product begins as a word of the first factor does, unless that one is empty. -/
theorem BeginsWith.mul (hK : BeginsWith p K) (hL : [] ∉ K ∨ BeginsWith p L) :
    BeginsWith p (K * L) := by
  rintro _ ⟨a, ha, b, hb, rfl⟩
  cases a with
  | nil => exact (hL.resolve_left fun h => h ha) b hb
  | cons x a => exact hK (x :: a) ha

theorem nil_notMem_oneOf (p : Char → Bool) : [] ∉ oneOf p := by
  rintro ⟨x, -, hnil⟩
  cases hnil

theorem nil_notMem_someOf (p : Char → Bool) : [] ∉ someOf p :=
  fun h => h.1 rfl

theorem nil_notMem_mul (h : [] ∉ K) : [] ∉ K * L := by
  rintro ⟨a, ha, b, hb, hnil⟩
  obtain ⟨rfl, -⟩ := List.append_eq_nil_iff.mp hnil
  exact h ha

theorem nil_notMem_add (hK : [] ∉ K) (hL : [] ∉ L) : [] ∉ K + L :=
  fun h => h.elim hK hL

end Characters

/-! ## Longest words -/

section Longest

variable {K L : Language Char} {text a b rest back : List Char}

/-- Of the words of the language with which the text begins `taken` is the longest. -/
structure IsLongest (L : Language Char) (text taken back : List Char) : Prop where
  text_eq : text = taken ++ back
  mem : taken ∈ L
  longest : ∀ word ∈ L, word <+: text → word.length ≤ taken.length

theorem IsLongest.eq {b' : List Char} (h : IsLongest L text a b) (h' : IsLongest L text a' b') :
    a = a' ∧ b = b' := by
  have hle := h.longest a' h'.mem ⟨b', h'.text_eq.symm⟩
  have hge := h'.longest a h.mem ⟨b, h.text_eq.symm⟩
  exact List.append_inj (h.text_eq.symm.trans h'.text_eq) (Nat.le_antisymm hge hle)

/-- If a text begins with a word of the language, then it begins with a longest one. -/
theorem exists_isLongest {word : List Char} (hword : word ∈ L) (hpre : word <+: text) :
    ∃ taken back, IsLongest L text taken back := by
  classical
  let P : Nat → Prop := fun n => ∃ word ∈ L, word <+: text ∧ word.length = n
  have hbound : ∀ {word : List Char}, word <+: text → word.length ≤ text.length :=
    fun h => h.length_le
  obtain ⟨taken, htaken, ⟨back, htext⟩, hlength⟩ : P (Nat.findGreatest P text.length) :=
    Nat.findGreatest_spec (hbound hpre) ⟨word, hword, hpre, rfl⟩
  refine ⟨taken, back, htext.symm, htaken, fun other hother hpre => ?_⟩
  rw [hlength]
  exact Nat.le_findGreatest (hbound hpre) ⟨other, hother, hpre, rfl⟩

/-- A word of the language with which the text begins is the longest one, or is followed by a
character of it. -/
theorem IsLongest.eq_or_head? {word rest' : List Char} (h : IsLongest L text a rest)
    (hword : word ∈ L) (htext : text = word ++ rest') :
    (word = a ∧ rest' = rest) ∨ ∃ x ∈ a, rest'.head? = some x := by
  have hle := h.longest word hword ⟨rest', htext.symm⟩
  have hsplit : word ++ rest' = a ++ rest := htext.symm.trans h.text_eq
  rcases List.append_eq_append_iff.mp hsplit with ⟨more, ha, hrest'⟩ | ⟨more, hword, hrest⟩
  · cases more with
    | nil => exact .inl ⟨by rw [ha, List.append_nil], hrest'⟩
    | cons x more =>
        refine .inr ⟨x, ha ▸ List.mem_append_right _ List.mem_cons_self, ?_⟩
        rw [hrest']
        rfl
  · obtain rfl : more = [] := by
      rw [hword, List.length_append] at hle
      exact List.eq_nil_of_length_eq_zero (by omega)
    exact .inl ⟨by rw [hword, List.append_nil], hrest.symm⟩

theorem Apart.eq_nil (hapart : Apart K L) {x : Char} (ha : a ∈ K) (hx : x ∈ a)
    (hhead : text.head? = some x) (hb : b ∈ L) (hpre : b <+: text) : b = [] := by
  cases b with
  | nil => rfl
  | cons y b =>
      obtain ⟨back, rfl⟩ := hpre
      exact absurd hhead (hapart a ha x hx (y :: b) hb)

/-- A word of a product with which the text begins has the longest word of the first factor as its
first part, or nothing as its second. -/
theorem IsLongest.exists_of_mem_mul (hapart : Apart K L) (h : IsLongest K text a rest)
    {word : List Char} (hword : word ∈ K * L) (hpre : word <+: text) :
    (∃ b ∈ L, word = a ++ b ∧ b <+: rest) ∨ (word ∈ K ∧ [] ∈ L) := by
  obtain ⟨a', ha', b, hb, rfl⟩ := Language.mem_mul.mp hword
  obtain ⟨back, htext⟩ := hpre
  rw [List.append_assoc] at htext
  rcases h.eq_or_head? ha' htext.symm with ⟨rfl, hrest⟩ | ⟨x, hx, hhead⟩
  · exact .inl ⟨b, hb, rfl, back, hrest⟩
  · obtain rfl := hapart.eq_nil h.mem hx hhead hb ⟨back, rfl⟩
    rw [List.append_nil]
    exact .inr ⟨ha', hb⟩

theorem IsLongest.mul (hapart : Apart K L) (ha : IsLongest K text a rest)
    (hb : IsLongest L rest b back) : IsLongest (K * L) text (a ++ b) back := by
  refine ⟨?_, Language.append_mem_mul ha.mem hb.mem, fun word hword hpre => ?_⟩
  · rw [ha.text_eq, hb.text_eq, List.append_assoc]
  · rw [List.length_append]
    rcases ha.exists_of_mem_mul hapart hword hpre with ⟨b', hb', rfl, hbehind⟩ | ⟨hmem, -⟩
    · have := hb.longest b' hb' hbehind
      rw [List.length_append]
      omega
    · have := ha.longest word hmem hpre
      omega

/-- The longest word of a product, taken apart. -/
theorem IsLongest.exists_of_mul (hapart : Apart K L) (h : IsLongest (K * L) text a back) :
    ∃ a₁ a₂ rest, a = a₁ ++ a₂ ∧ IsLongest K text a₁ rest ∧ IsLongest L rest a₂ back := by
  obtain ⟨a', ha', b', hb', rfl⟩ := Language.mem_mul.mp h.mem
  have htext := h.text_eq
  rw [List.append_assoc] at htext
  obtain ⟨a₁, rest, hfirst⟩ := exists_isLongest ha' ⟨b' ++ back, htext.symm⟩
  obtain ⟨b, hb, hpre⟩ : ∃ b ∈ L, b <+: rest := by
    rcases hfirst.exists_of_mem_mul hapart h.mem ⟨back, h.text_eq.symm⟩ with
      ⟨b, hb, -, hpre⟩ | ⟨-, hnil⟩
    · exact ⟨b, hb, hpre⟩
    · exact ⟨[], hnil, List.nil_prefix⟩
  obtain ⟨a₂, back', hsecond⟩ := exists_isLongest hb hpre
  obtain ⟨heq, rfl⟩ := h.eq (hfirst.mul hapart hsecond)
  exact ⟨a₁, a₂, rest, heq, hfirst, hsecond⟩

end Longest

/-! ## Longest runs -/

section Runs

variable {p : Char → Bool} {L : Language Char} {text run back : List Char}

theorem isLongest_oneOf_iff :
    IsLongest (oneOf p) text run back ↔ ∃ x, p x ∧ run = [x] ∧ text = x :: back := by
  constructor
  · intro h
    obtain ⟨x, hx, rfl⟩ := h.mem
    exact ⟨x, hx, rfl, h.text_eq⟩
  · rintro ⟨x, hx, rfl, rfl⟩
    refine ⟨rfl, singleton_mem_oneOf.mpr hx, fun word hword _ => ?_⟩
    obtain ⟨y, -, rfl⟩ := hword
    exact Nat.le_refl _

theorem isLongest_anyOf_iff :
    IsLongest (anyOf p) text run back ↔
      text = run ++ back ∧ (∀ x ∈ run, p x) ∧ back.head?.any p = false := by
  constructor
  · intro h
    refine ⟨h.text_eq, h.mem, ?_⟩
    cases back with
    | nil => rfl
    | cons x back =>
        by_contra hx
        have hmem : run ++ [x] ∈ anyOf p :=
          List.forall_mem_append.mpr ⟨h.mem, List.forall_mem_singleton.mpr (by simpa using hx)⟩
        have hlength := h.longest _ hmem ⟨back, by simp [h.text_eq]⟩
        rw [List.length_append, List.length_singleton] at hlength
        omega
  · rintro ⟨rfl, hrun, hstop⟩
    refine ⟨rfl, hrun, fun word hword hpre => ?_⟩
    by_contra hlt
    obtain ⟨more, rfl⟩ := List.prefix_of_prefix_length_le (List.prefix_append run back) hpre
      (by omega)
    obtain ⟨rest, hrest⟩ := hpre
    rw [List.append_assoc] at hrest
    rw [← List.append_cancel_left hrest] at hstop
    cases more with
    | nil => simp at hlt
    | cons x more =>
        have hx := hword x (List.mem_append_right _ List.mem_cons_self)
        rw [List.cons_append, List.head?_cons, Option.any_some, hx] at hstop
        cases hstop

theorem ConsistsOf.isLongest (hL : ConsistsOf p L) (hrun : run ∈ L)
    (hstop : back.head?.any p = false) : IsLongest L (run ++ back) run back := by
  have hany := isLongest_anyOf_iff.mpr ⟨rfl, hL run hrun, hstop⟩
  exact ⟨rfl, hrun, fun word hword => hany.longest word (hL word hword)⟩

theorem isLongest_someOf_iff :
    IsLongest (someOf p) text run back ↔
      text = run ++ back ∧ run ≠ [] ∧ (∀ x ∈ run, p x) ∧ back.head?.any p = false := by
  constructor
  · intro h
    have hany : IsLongest (anyOf p) text run back := by
      refine ⟨h.text_eq, h.mem.2, fun word hword hpre => ?_⟩
      by_cases hnil : word = []
      · rw [hnil]
        exact Nat.zero_le _
      · exact h.longest word ⟨hnil, hword⟩ hpre
    obtain ⟨htext, hrun, hstop⟩ := isLongest_anyOf_iff.mp hany
    exact ⟨htext, h.mem.1, hrun, hstop⟩
  · rintro ⟨htext, hne, hrun, hstop⟩
    have hany := isLongest_anyOf_iff.mpr ⟨htext, hrun, hstop⟩
    exact ⟨htext, ⟨hne, hrun⟩, fun word hword => hany.longest word hword.2⟩

/-- The longest word of an option is one of the language, or empty where there is none. -/
theorem isLongest_optionally_iff :
    IsLongest (optionally L) text run back ↔ IsLongest L text run back ∨
      ((∀ word ∈ L, ¬word <+: text) ∧ run = [] ∧ back = text) := by
  have hof : ∀ {taken rest}, IsLongest L text taken rest →
      IsLongest (optionally L) text taken rest := fun h => by
    refine ⟨h.text_eq, .inr h.mem, fun word hword hpre => ?_⟩
    rcases mem_optionally.mp hword with rfl | hword
    · exact Nat.zero_le _
    · exact h.longest word hword hpre
  constructor
  · intro h
    by_cases hword : ∃ word ∈ L, word <+: text
    · obtain ⟨word, hword, hpre⟩ := hword
      obtain ⟨taken, rest, hlongest⟩ := exists_isLongest hword hpre
      obtain ⟨rfl, rfl⟩ := h.eq (hof hlongest)
      exact .inl hlongest
    · have hnone : ∀ word ∈ L, ¬word <+: text := fun word hmem hpre =>
        hword ⟨word, hmem, hpre⟩
      have htext := h.text_eq
      rcases mem_optionally.mp h.mem with rfl | hmem
      · exact .inr ⟨hnone, rfl, htext.symm⟩
      · exact absurd ⟨back, htext.symm⟩ (hnone run hmem)
  · rintro (h | ⟨hnone, rfl, rfl⟩)
    · exact hof h
    · refine ⟨rfl, .inl rfl, fun word hword hpre => ?_⟩
      rcases mem_optionally.mp hword with rfl | hword
      · exact Nat.le_refl _
      · exact absurd hpre (hnone word hword)

end Runs

end CodeTint
