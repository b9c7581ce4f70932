import Mathlib.Data.List.Forall2
import Mathlib.Data.List.TakeWhile
import CodeTint.Proofs.Style.Sequence
import CodeTint.Proofs.Text.Literals

/-!
# Effects are read as they were written

The text of a set of effects is one word for each declared effect, and one for all of the bits that
are not declared; between the words stand bars with a blank on either side. Neither a blank nor a
bar is part of a word, so that the bars give the words back, each with a blank or two around it, and
every word is read as its bits (`Effects.IsWordFor`). Together these are all the bits of the set
(`Effects.read?_write`).
-/

namespace CodeTint

/-! ## Blanks around a word -/

section Trim

variable {before behind word : List Char}

theorem dropBlanks_append (hbefore : ∀ c ∈ before, isBlank c)
    (hword : ∀ c ∈ word.head?, isBlank c = false) : dropBlanks (before ++ word) = word := by
  rw [dropBlanks, List.dropWhile_append_of_pos hbefore]
  cases word with
  | nil => rfl
  | cons c word => exact List.dropWhile_cons_of_neg (by simpa using hword)

theorem trimBlanks_append (hword : ∀ c ∈ word, isBlank c = false)
    (hbefore : ∀ c ∈ before, isBlank c) (hbehind : ∀ c ∈ behind, isBlank c) :
    trimBlanks (before ++ word ++ behind) = word := by
  cases word with
  | nil =>
      have hdrop : dropBlanks (before ++ [] ++ behind) = [] := by
        rw [List.append_nil]
        exact List.dropWhile_eq_nil_iff.mpr (List.forall_mem_append.mpr ⟨hbefore, hbehind⟩)
      rw [trimBlanks, hdrop]
      rfl
  | cons c word =>
      obtain ⟨hc, -⟩ := List.forall_mem_cons.mp hword
      have hlast : ∀ d ∈ (c :: word).reverse.head?, isBlank d = false := fun d hd =>
        hword d (List.mem_reverse.mp (List.mem_of_head? hd))
      rw [trimBlanks, List.append_assoc, dropBlanks_append hbefore (by simpa using hc),
        List.reverse_append, dropBlanks_append (fun d hd => hbehind d (List.mem_reverse.mp hd))
        hlast, List.reverse_reverse]

theorem trimBlanks_eq_self (hword : ∀ c ∈ word, isBlank c = false) : trimBlanks word = word := by
  have htrim : trimBlanks ([] ++ word ++ []) = word := trimBlanks_append hword nofun nofun
  rwa [List.nil_append, List.append_nil] at htrim

end Trim

namespace Effects

/-! ## Words -/

/-- The word is read as the set, and neither a blank nor a bar is part of it. -/
structure IsWordFor (word : List Char) (set : Effects) : Prop where
  not_blank : ∀ c ∈ word, isBlank c = false
  not_bar : '|' ∉ word
  read : readPiece? word = some set

theorem isWordFor_name (effect : Effect) : IsWordFor effect.name.toList ⟨effect.bit⟩ where
  not_blank := by
    have hany : effect.name.toList.any isBlank = false := by cases effect <;> decide
    simpa using hany
  not_bar := by cases effect <;> decide
  read := by cases effect <;> decide

def hexWord (bits : UInt16) : List Char :=
  '0' :: 'x' :: Nat.toDigits 16 bits.toNat

theorem readBits?_toDigits (bits : UInt16) :
    readBits? (Nat.toDigits 16 bits.toNat) = some bits := by
  have hplus : '+' ∉ Nat.toDigits 16 bits.toNat :=
    not_mem_toDigits (by decide) (by decide) (by decide) _
  have hvalue : digitsValue? 16 (Nat.toDigits 16 bits.toNat) = some bits.toNat :=
    digitsValue?_toDigits (by decide) (by decide) _
  obtain ⟨c, digits, hdigits⟩ := List.exists_cons_of_ne_nil (Nat.toDigits_ne_nil (b := 16)
    (n := bits.toNat))
  rw [hdigits] at hplus hvalue ⊢
  have hc : c ≠ '+' := fun heq => hplus (heq ▸ List.mem_cons_self)
  have hsign : ∀ digits', c :: digits ≠ '+' :: digits' := fun digits' heq =>
    hc (List.cons.inj heq).1
  simp [readBits?, hvalue, bits.toNat_lt]

theorem isWordFor_hexWord (bits : UInt16) : IsWordFor (hexWord bits) ⟨bits⟩ := by
  have hblank : ∀ c ∈ hexWord bits, isBlank c = false :=
    List.forall_mem_cons.mpr ⟨by decide, List.forall_mem_cons.mpr ⟨by decide,
      forall_mem_toDigits (by decide) (by decide) bits.toNat⟩⟩
  have hbar : '|' ∉ hexWord bits := by
    have hdigits : '|' ∉ Nat.toDigits 16 bits.toNat :=
      not_mem_toDigits (by decide) (by decide) (by decide) _
    simp [hexWord, hdigits]
  refine ⟨hblank, hbar, ?_⟩
  rw [readPiece?, trimBlanks_eq_self hblank]
  show (readBits? (Nat.toDigits 16 bits.toNat)).map _ = _
  rw [readBits?_toDigits]
  rfl

theorem IsWordFor.ne_nil {word : List Char} {set : Effects} (h : IsWordFor word set) :
    word ≠ [] := by
  rintro rfl
  cases (show readPiece? [] = none by decide).symm.trans h.read

/-- Blanks around a word do not matter. -/
theorem IsWordFor.readPiece?_append {word before behind : List Char} {set : Effects}
    (h : IsWordFor word set) (hbefore : ∀ c ∈ before, isBlank c)
    (hbehind : ∀ c ∈ behind, isBlank c) : readPiece? (before ++ word ++ behind) = some set := by
  have hread := h.read
  rw [readPiece?, trimBlanks_eq_self h.not_blank] at hread
  rw [readPiece?, trimBlanks_append h.not_blank hbefore hbehind]
  exact hread

/-! ## Bars between words -/

theorem splitAtBars_append {word : List Char} (h : '|' ∉ word) (text opened : List Char) :
    splitAtBars (word ++ text) opened = splitAtBars text (word.reverse ++ opened) := by
  induction word generalizing opened with
  | nil => rfl
  | cons c word ih =>
      rw [List.mem_cons, not_or] at h
      rw [List.cons_append, splitAtBars, if_neg (Ne.symm h.1), ih h.2, List.reverse_cons,
        List.append_assoc]
      rfl

def between : List Char := " | ".toList

theorem foldlM_splitAtBars {words : List (List Char)} {sets : List Effects}
    (h : List.Forall₂ IsWordFor words sets) (hne : words ≠ []) {opened : List Char}
    (hopened : ∀ c ∈ opened, isBlank c) (start : Effects) :
    (splitAtBars (between.intercalate words) opened).foldlM
        (fun set piece => (readPiece? piece).map set.union) start =
      some (sets.foldl union start) := by
  induction h generalizing opened start with
  | nil => exact absurd rfl hne
  | @cons word set words sets hword hwords ih =>
      have hbefore : ∀ c ∈ opened.reverse, isBlank c := fun c hc =>
        hopened c (List.mem_reverse.mp hc)
      cases hwords with
      | nil =>
          have hread : readPiece? (opened.reverse ++ word ++ []) = some set :=
            hword.readPiece?_append hbefore nofun
          rw [List.append_nil] at hread
          rw [List.intercalate_singleton, ← List.append_nil word, splitAtBars_append hword.not_bar,
            splitAtBars, List.reverse_append, List.reverse_reverse, List.foldlM_cons, hread]
          rfl
      | cons hnext hothers =>
          have hblank : ∀ c ∈ [' '], isBlank c := List.forall_mem_singleton.mpr rfl
          have hread := hword.readPiece?_append hbefore hblank
          have hrest := ih (List.cons_ne_nil _ _) hblank (start.union set)
          rw [List.intercalate_cons_cons, List.append_assoc, splitAtBars_append hword.not_bar]
          show (((' ' :: (word.reverse ++ opened)).reverse ::
            splitAtBars (between.intercalate _) [' ']).foldlM _ start) = _
          rw [List.reverse_cons, List.reverse_append, List.reverse_reverse, List.foldlM_cons, hread]
          exact hrest

/-! ## Sets -/

def words (effects : Effects) : List (List Char) :=
  effects.toList.map (·.name.toList) ++
    if effects.undeclared = 0 then [] else [hexWord effects.undeclared]

def parts (effects : Effects) : List Effects :=
  effects.toList.map (⟨·.bit⟩) ++ if effects.undeclared = 0 then [] else [⟨effects.undeclared⟩]

theorem toList_write (effects : Effects) :
    effects.write.toList = between.intercalate effects.words := by
  rw [write, String.toList_intercalate, words, List.map_append, List.map_map]
  refine congrArg (fun numbers => between.intercalate (_ ++ numbers)) ?_
  split
  · rfl
  · exact congrArg (fun word => [word]) String.toList_ofList

theorem isWordFor_words (effects : Effects) :
    List.Forall₂ IsWordFor effects.words effects.parts := by
  refine List.rel_append ?_ ?_
  · rw [List.forall₂_map_left_iff, List.forall₂_map_right_iff]
    exact List.forall₂_same.mpr fun effect _ => isWordFor_name effect
  · split
    · exact .nil
    · exact .cons (isWordFor_hexWord _) .nil

theorem foldl_union_bits (effects : List Effect) (start : Effects) :
    (effects.map (⟨·.bit⟩)).foldl union start =
      ⟨effects.foldl (fun bits effect => bits ||| effect.bit) start.bits⟩ := by
  induction effects generalizing start with
  | nil => rfl
  | cons effect effects ih => rw [List.map_cons, List.foldl_cons, ih]; rfl

theorem foldl_union_parts (effects : Effects) : effects.parts.foldl union empty = effects := by
  have hdeclared : (effects.toList.map (⟨·.bit⟩)).foldl union empty = ofList effects.toList :=
    foldl_union_bits effects.toList empty
  rw [parts, List.foldl_append, hdeclared]
  split
  next hundeclared => exact ofList_toList_of_undeclared hundeclared
  next =>
      rw [ofList_toList]
      exact congrArg mk (bits_eq_or effects.bits).symm

theorem not_all_isBlank_intercalate {words : List (List Char)} {sets : List Effects}
    (h : List.Forall₂ IsWordFor words sets) (hne : words ≠ []) :
    (between.intercalate words).all isBlank = false := by
  cases h with
  | nil => exact absurd rfl hne
  | @cons word _ words _ hword _ =>
      obtain ⟨c, word, rfl⟩ := List.exists_cons_of_ne_nil hword.ne_nil
      have hc := hword.not_blank c List.mem_cons_self
      cases words <;> simp [List.intercalate_cons_cons, hc]

/-- Any set of effects comes back from its text, bits that are not declared included. -/
theorem read?_write (effects : Effects) : read? effects.write = some effects := by
  by_cases hwords : effects.words = []
  · have hparts := effects.isWordFor_words
    rw [hwords] at hparts
    have hempty := effects.foldl_union_parts
    rw [List.forall₂_nil_left_iff.mp hparts] at hempty
    rw [read?, toList_write, hwords, ← hempty]
    rfl
  · rw [read?, toList_write, not_all_isBlank_intercalate effects.isWordFor_words hwords]
    have hread := foldlM_splitAtBars effects.isWordFor_words hwords
      (fun c (hc : c ∈ []) => absurd hc List.not_mem_nil) empty
    rw [foldl_union_parts] at hread
    exact hread

example : write ⟨0x8049⟩ = "BOLD | UNDERLINE | 0x8040" := by decide +kernel

end Effects

end CodeTint
