import CodeTint.Highlight.Scan
import CodeTint.Pattern.Reader
import CodeTint.Proofs.Pattern.Search
import CodeTint.Proofs.Results

/-!
# Where rules begin

A rule begins where one of its patterns has a match that is not empty, and of the matches that come
first the one that is listed first counts. The same holds between rules. Both are instances of
`IsFirstAmong`, which says what the functions that pick the earliest of several things pick
(`nextBegin_eq_some_iff`, `earliestRule_eq_some_iff`).
-/

namespace CodeTint

/-! ## The earliest of several things -/

section Earliest

variable {α : Type} {place : α → Nat} {options : List (Option α)} {i j : Nat} {a b : α}

/-- The `i`-th thing is `a`, nothing is at an earlier place, and what is at the same place is listed
later. -/
structure IsEarliest (place : α → Nat) (options : List (Option α)) (i : Nat) (a : α) : Prop where
  getElem? : options[i]? = some (some a)
  le : ∀ (j : Nat) b, options[j]? = some (some b) → place a ≤ place b
  lt : ∀ (j : Nat) b, options[j]? = some (some b) → j < i → place a < place b

theorem IsEarliest.eq (ha : IsEarliest place options i a) (hb : IsEarliest place options j b) :
    i = j ∧ a = b := by
  have hij : i = j := by
    rcases Nat.lt_trichotomy i j with hlt | heq | hlt
    · exact absurd (hb.lt i a ha.getElem? hlt) (Nat.not_lt.mpr (ha.le j b hb.getElem?))
    · exact heq
    · exact absurd (ha.lt j b hb.getElem? hlt) (Nat.not_lt.mpr (hb.le i a ha.getElem?))
  subst hij
  have := ha.getElem?
  rw [hb.getElem?] at this
  exact ⟨rfl, (Option.some.inj (Option.some.inj this)).symm⟩

theorem IsEarliest.cons_none (h : IsEarliest place options i a) :
    IsEarliest place (none :: options) (i + 1) a := by
  refine ⟨h.getElem?, fun j b hb => ?_, fun j b hb hji => ?_⟩
  · cases j with
    | zero => cases hb
    | succ j => exact h.le j b hb
  · cases j with
    | zero => cases hb
    | succ j => exact h.lt j b hb (Nat.lt_of_succ_lt_succ hji)

theorem IsEarliest.cons_of_lt (h : IsEarliest place options i a) (hlt : place a < place b) :
    IsEarliest place (some b :: options) (i + 1) a := by
  refine ⟨h.getElem?, fun j c hc => ?_, fun j c hc hji => ?_⟩
  · cases j with
    | zero =>
        obtain rfl : b = c := Option.some.inj (Option.some.inj hc)
        exact Nat.le_of_lt hlt
    | succ j => exact h.le j c hc
  · cases j with
    | zero =>
        obtain rfl : b = c := Option.some.inj (Option.some.inj hc)
        exact hlt
    | succ j => exact h.lt j c hc (Nat.lt_of_succ_lt_succ hji)

theorem isEarliest_cons_self
    (h : ∀ (j : Nat) c, options[j]? = some (some c) → place b ≤ place c) :
    IsEarliest place (some b :: options) 0 b := by
  refine ⟨rfl, fun j c hc => ?_, fun j c hc hj => absurd hj (Nat.not_lt_zero j)⟩
  cases j with
  | zero =>
      obtain rfl : b = c := Option.some.inj (Option.some.inj hc)
      exact Nat.le_refl _
  | succ j => exact h j c hc

theorem earliestBy_spec (place : α → Nat) (options : List (Option α)) :
    match earliestBy place options with
    | some a => ∃ i, IsEarliest place options i a
    | none => ∀ a, some a ∉ options := by
  induction options with
  | nil => exact fun a => List.not_mem_nil
  | cons option options ih =>
      show match earlierBy place option (earliestBy place options) with | some a => _ | none => _
      cases hbest : earliestBy place options with
      | none =>
          rw [hbest] at ih
          cases option with
          | none => exact fun a ha => (List.mem_cons.mp ha).elim (by simp) (ih a)
          | some b =>
              exact ⟨0, isEarliest_cons_self fun j c hc =>
                absurd (List.mem_of_getElem? hc) (ih c)⟩
      | some a =>
          rw [hbest] at ih
          obtain ⟨i, hi⟩ := ih
          cases option with
          | none => exact ⟨i + 1, hi.cons_none⟩
          | some b =>
              -- The option listed first loses only to one at a smaller place.
              simp only [earlierBy]
              split
              · rename_i a' heq
                split at heq
                · rename_i hlt
                  exact Option.some.inj heq ▸ ⟨i + 1, hi.cons_of_lt hlt⟩
                · rename_i hle
                  exact Option.some.inj heq ▸ ⟨0, isEarliest_cons_self fun j c hc =>
                    Nat.le_trans (Nat.not_lt.mp hle) (hi.le j c hc)⟩
              · rename_i heq
                split at heq <;> cases heq

theorem earliestBy_eq_some_iff :
    earliestBy place options = some a ↔ ∃ i, IsEarliest place options i a := by
  have hspec := earliestBy_spec place options
  cases hbest : earliestBy place options with
  | none =>
      rw [hbest] at hspec
      constructor
      · intro h
        cases h
      · rintro ⟨i, hi⟩
        exact absurd (List.mem_of_getElem? hi.getElem?) (hspec a)
  | some b =>
      rw [hbest] at hspec
      obtain ⟨j, hj⟩ := hspec
      exact ⟨fun h => ⟨j, Option.some.inj h ▸ hj⟩, fun ⟨i, hi⟩ => congrArg some (hj.eq hi).2⟩

theorem earliestBy_eq_none_iff : earliestBy place options = none ↔ ∀ a, some a ∉ options := by
  have hspec := earliestBy_spec place options
  refine ⟨fun h => by rwa [h] at hspec, fun h => ?_⟩
  cases hbest : earliestBy place options with
  | none => rfl
  | some a =>
      rw [hbest] at hspec
      obtain ⟨i, hi⟩ := hspec
      exact absurd (List.mem_of_getElem? hi.getElem?) (h a)

end Earliest

/-- Of the stretches that the members of a list have, `s` starts first; it belongs to the `i`-th
member, and of those that start together to the one that is listed first. -/
structure IsFirstAmong {β : Type} (members : List β) (has : β → Stretch → Prop) (i : Nat)
    (s : Stretch) : Prop where
  has_self : ∃ x, members[i]? = some x ∧ has x s
  first : ∀ (j : Nat) y t, members[j]? = some y → has y t →
    s.start.offset ≤ t.start.offset ∧ (j < i → s.start.offset < t.start.offset)

theorem IsFirstAmong.has {β : Type} {members : List β} {has : β → Stretch → Prop} {i : Nat}
    {s : Stretch} {x : β} (h : IsFirstAmong members has i s) (hx : members[i]? = some x) :
    has x s := by
  obtain ⟨y, hy, hs⟩ := h.has_self
  rw [hx] at hy
  exact Option.some.inj hy ▸ hs

namespace CompiledRule

variable {rule : CompiledRule} {c d : Cursor} {s t : Stretch}

/-! ## Single rules -/

/-- The patterns with which the rule begins. -/
def beginPatterns : CompiledRule → List Pattern
  | region _ opening _ _ => [opening]
  | pattern _ variants => variants

def patterns : CompiledRule → List Pattern
  | region _ opening closing illegal => opening :: closing :: illegal.toList
  | pattern _ variants => variants

theorem mem_patterns_of_mem_beginPatterns {p : Pattern} (hp : p ∈ rule.beginPatterns) :
    p ∈ rule.patterns := by
  cases rule with
  | region category opening closing illegal =>
      exact List.mem_singleton.mp hp ▸ List.mem_cons_self
  | pattern category variants => exact hp

/-- Searches for the patterns of the rule find leftmost matches. -/
class Leftmost (rule : CompiledRule) : Prop where
  of_mem : ∀ p ∈ rule.patterns, p.Leftmost

theorem leftmost_region_iff {category : Category} {opening closing : Pattern}
    {illegal : Option Pattern} : (region category opening closing illegal).Leftmost ↔
      opening.Leftmost ∧ closing.Leftmost ∧ ∀ p ∈ illegal, p.Leftmost := by
  have hmem : ∀ p, p ∈ (region category opening closing illegal).patterns ↔
      p = opening ∨ p = closing ∨ p ∈ illegal := fun p => by simp [patterns]
  refine ⟨fun h => ?_, fun ⟨hopening, hclosing, hillegal⟩ => ⟨fun p hp => ?_⟩⟩
  · exact ⟨h.of_mem _ ((hmem _).mpr (.inl rfl)), h.of_mem _ ((hmem _).mpr (.inr (.inl rfl))),
      fun p hp => h.of_mem p ((hmem p).mpr (.inr (.inr hp)))⟩
  · rcases (hmem p).mp hp with rfl | rfl | hp
    · exact hopening
    · exact hclosing
    · exact hillegal p hp

theorem leftmost_pattern {category : Category} {variants : List Pattern}
    (hvariants : ∀ p ∈ variants, p.Leftmost) : (pattern category variants).Leftmost :=
  ⟨hvariants⟩

theorem Leftmost.of_mem_beginPatterns [rule.Leftmost] {p : Pattern}
    (hp : p ∈ rule.beginPatterns) : p.Leftmost :=
  of_mem p (mem_patterns_of_mem_beginPatterns hp)

/-- The stretch is where the rule begins first, from the given place on. -/
def BeginsFirst (rule : CompiledRule) (c : Cursor) (s : Stretch) : Prop :=
  ∃ i, IsFirstAmong rule.beginPatterns (·.TakesFirst c) i s

theorem nextBegin_eq_earliestBy (rule : CompiledRule) (c : Cursor) :
    rule.nextBegin c =
      earliestBy (·.start.offset) (rule.beginPatterns.map (·.findNonEmpty c)) := by
  cases rule with
  | region category opening closing illegal =>
      show opening.findNonEmpty c = earlierBy _ (opening.findNonEmpty c) none
      cases opening.findNonEmpty c <;> rfl
  | pattern category variants => rfl

theorem nextBegin_range (h : rule.nextBegin c = some s) : c ≤ s.start ∧ s.start < s.stop := by
  rw [nextBegin_eq_earliestBy, earliestBy_eq_some_iff] at h
  obtain ⟨i, hi⟩ := h
  obtain ⟨p, -, hp⟩ := List.mem_map.mp (List.mem_of_getElem? hi.getElem?)
  exact Pattern.findNonEmpty_range hp

theorem BeginsFirst.exists_takes (h : rule.BeginsFirst c s) :
    c ≤ s.start ∧ ∃ p ∈ rule.beginPatterns, p.Takes s := by
  obtain ⟨i, ⟨p, hp, hfirst⟩, -⟩ := h
  exact ⟨hfirst.le_start, p, List.mem_of_getElem? hp, hfirst.takes⟩

section Leftmost

variable [rule.Leftmost]

theorem isFirstAmong_beginPatterns_iff {i : Nat} :
    IsEarliest (·.start.offset) (rule.beginPatterns.map (·.findNonEmpty c)) i s ↔
      IsFirstAmong rule.beginPatterns (·.TakesFirst c) i s := by
  have hget : ∀ (j : Nat) t,
      (rule.beginPatterns.map (·.findNonEmpty c))[j]? = some (some t) ↔
        ∃ p, rule.beginPatterns[j]? = some p ∧ p.TakesFirst c t := fun j t => by
    rw [List.getElem?_map, Option.map_eq_some_iff]
    refine exists_congr fun p => and_congr_right fun hp => ?_
    have := Leftmost.of_mem_beginPatterns (List.mem_of_getElem? hp)
    exact Pattern.findNonEmpty_eq_some_iff
  constructor
  · intro h
    exact ⟨(hget i s).mp h.getElem?, fun j p t hp ht =>
      have hj := (hget j t).mpr ⟨p, hp, ht⟩
      ⟨h.le j t hj, h.lt j t hj⟩⟩
  · intro h
    refine ⟨(hget i s).mpr h.has_self, fun j t hj => ?_, fun j t hj hji => ?_⟩
    · obtain ⟨p, hp, ht⟩ := (hget j t).mp hj
      exact (h.first j p t hp ht).1
    · obtain ⟨p, hp, ht⟩ := (hget j t).mp hj
      exact (h.first j p t hp ht).2 hji

theorem nextBegin_eq_some_iff : rule.nextBegin c = some s ↔ rule.BeginsFirst c s := by
  rw [nextBegin_eq_earliestBy, earliestBy_eq_some_iff]
  exact exists_congr fun i => isFirstAmong_beginPatterns_iff

theorem nextBegin_eq_none_iff :
    rule.nextBegin c = none ↔ ∀ p ∈ rule.beginPatterns, ∀ t, c ≤ t.start → ¬p.Takes t := by
  rw [nextBegin_eq_earliestBy, earliestBy_eq_none_iff]
  constructor
  · intro h p hp
    have := Leftmost.of_mem_beginPatterns hp
    refine Pattern.findNonEmpty_eq_none_iff.mp ?_
    cases hfind : p.findNonEmpty c with
    | none => rfl
    | some s => exact absurd (List.mem_map.mpr ⟨p, hp, hfind⟩) (h s)
  · intro h s hs
    obtain ⟨p, hp, hfind⟩ := List.mem_map.mp hs
    have := Leftmost.of_mem_beginPatterns hp
    rw [Pattern.findNonEmpty_eq_none_iff.mpr (h p hp)] at hfind
    cases hfind

/-- No pattern of a rule has a match before the rule first begins. -/
theorem BeginsFirst.offset_le (h : rule.BeginsFirst c s) {p : Pattern}
    (hp : p ∈ rule.beginPatterns) (hct : c ≤ t.start) (ht : p.Takes t) :
    s.start.offset ≤ t.start.offset := by
  obtain ⟨i, -, hfirst⟩ := h
  obtain ⟨j, hj⟩ := List.mem_iff_getElem?.mp hp
  have := Leftmost.of_mem_beginPatterns hp
  cases hfind : p.findNonEmpty c with
  | none => exact absurd ht (Pattern.findNonEmpty_eq_none_iff.mp hfind t hct)
  | some t' =>
      have ht' := Pattern.findNonEmpty_eq_some_iff.mp hfind
      exact Nat.le_trans (hfirst j p t' hj ht').1 (Cursor.offset_le (ht'.first t hct ht))

theorem BeginsFirst.eq (hs : rule.BeginsFirst c s) (ht : rule.BeginsFirst c t) : s = t :=
  Option.some.inj
    ((nextBegin_eq_some_iff.mpr hs).symm.trans (nextBegin_eq_some_iff.mpr ht))

/-- Where a rule begins first remains so for a search that begins later, but not behind it. -/
theorem nextBegin_eq_of_le (h : rule.nextBegin c = some s) (hcd : c ≤ d) (hds : d ≤ s.start) :
    rule.nextBegin d = some s := by
  have hbegins := nextBegin_eq_some_iff.mp h
  rw [nextBegin_eq_earliestBy] at h ⊢
  rw [← h]
  congr 1
  refine List.map_congr_left fun p hp => ?_
  have := Leftmost.of_mem_beginPatterns hp
  cases hfind : p.findNonEmpty c with
  | none => exact Pattern.findNonEmpty_eq_none_of_le hfind hcd
  | some t =>
      have ht := Pattern.findNonEmpty_eq_some_iff.mp hfind
      have hst := Cursor.le_of_offset_le (hcd.trans hds) ht.le_start
        (hbegins.offset_le hp ht.le_start ht.takes)
      exact Pattern.findNonEmpty_eq_of_le hfind hcd (hds.trans hst)

/-- A rule that begins nowhere will never begin again. -/
theorem nextBegin_eq_none_of_le (h : rule.nextBegin c = none) (hcd : c ≤ d) :
    rule.nextBegin d = none :=
  nextBegin_eq_none_iff.mpr fun p hp t hdt => nextBegin_eq_none_iff.mp h p hp t (hcd.trans hdt)

end Leftmost

end CompiledRule

namespace Highlighter

/-- Searches for the patterns of the highlighter find leftmost matches. -/
class Leftmost (h : Highlighter) : Prop where
  of_mem : ∀ rule ∈ h.rules, rule.Leftmost
  wordPattern : h.wordPattern.Leftmost

variable {h : Highlighter} [h.Leftmost] {c d : Cursor}

instance : h.wordPattern.Leftmost :=
  Leftmost.wordPattern

/-! ## All rules -/

theorem getElem?_candidates_eq_some_iff {j : Nat} {candidate : Candidate} :
    (h.rules.mapIdx (CompiledRule.candidate c))[j]? = some (some candidate) ↔
      j = candidate.index ∧ h.rules[j]? = some candidate.rule ∧
        candidate.rule.BeginsFirst c candidate.begin := by
  obtain ⟨index, rule, begin⟩ := candidate
  simp only [List.getElem?_mapIdx, Option.map_eq_some_iff, CompiledRule.candidate,
    Candidate.mk.injEq]
  constructor
  · rintro ⟨rule', hrule, begin', hbegin, rfl, rfl, rfl⟩
    have := Leftmost.of_mem _ (List.mem_of_getElem? hrule)
    exact ⟨rfl, hrule, CompiledRule.nextBegin_eq_some_iff.mp hbegin⟩
  · rintro ⟨rfl, hrule, hbegin⟩
    have := Leftmost.of_mem _ (List.mem_of_getElem? hrule)
    exact ⟨rule, hrule, begin, CompiledRule.nextBegin_eq_some_iff.mpr hbegin, rfl, rfl, rfl⟩

/-- The rule that begins earliest, and of those that begin together the one listed first. -/
theorem earliestRule_eq_some_iff {candidate : Candidate} :
    h.earliestRule c = some candidate ↔
      h.rules[candidate.index]? = some candidate.rule ∧
        IsFirstAmong h.rules (·.BeginsFirst c) candidate.index candidate.begin := by
  rw [earliestRule, earliestCandidate, earliestBy_eq_some_iff]
  constructor
  · rintro ⟨i, hi⟩
    obtain ⟨rfl, hrule, hbegin⟩ := getElem?_candidates_eq_some_iff.mp hi.getElem?
    refine ⟨hrule, ⟨_, hrule, hbegin⟩, fun j rule t hj ht => ?_⟩
    have hget := getElem?_candidates_eq_some_iff.mpr
      (show j = (⟨j, rule, t⟩ : Candidate).index ∧ _ from ⟨rfl, hj, ht⟩)
    exact ⟨hi.le j _ hget, hi.lt j _ hget⟩
  · rintro ⟨hrule, hfirst⟩
    have hbegin := hfirst.has hrule
    refine ⟨candidate.index, getElem?_candidates_eq_some_iff.mpr ⟨rfl, hrule, hbegin⟩,
      fun j other hj => ?_, fun j other hj hji => ?_⟩
    · obtain ⟨rfl, hother, ht⟩ := getElem?_candidates_eq_some_iff.mp hj
      exact (hfirst.first _ _ _ hother ht).1
    · obtain ⟨rfl, hother, ht⟩ := getElem?_candidates_eq_some_iff.mp hj
      exact (hfirst.first _ _ _ hother ht).2 hji

theorem beginsFirst_of_earliestRule {candidate : Candidate}
    (hbest : h.earliestRule c = some candidate) :
    candidate.rule ∈ h.rules ∧ candidate.rule.BeginsFirst c candidate.begin := by
  obtain ⟨hrule, hfirst⟩ := earliestRule_eq_some_iff.mp hbest
  exact ⟨List.mem_of_getElem? hrule, hfirst.has hrule⟩

/-- No rule begins any more if no pattern with which a rule begins has a match. -/
theorem earliestRule_eq_none_iff :
    h.earliestRule c = none ↔
      ∀ rule ∈ h.rules, ∀ p ∈ rule.beginPatterns, ∀ t : Stretch, c ≤ t.start → ¬p.Takes t := by
  rw [earliestRule, earliestCandidate, earliestBy_eq_none_iff]
  constructor
  · intro hnone rule hrule
    have := Leftmost.of_mem rule hrule
    refine CompiledRule.nextBegin_eq_none_iff.mp ?_
    obtain ⟨j, hj⟩ := List.mem_iff_getElem?.mp hrule
    cases hnext : rule.nextBegin c with
    | none => rfl
    | some s =>
        exact absurd (List.mem_of_getElem? (getElem?_candidates_eq_some_iff.mpr
          ⟨rfl, hj, CompiledRule.nextBegin_eq_some_iff.mp hnext⟩)) (hnone ⟨j, rule, s⟩)
  · intro hnone candidate hmem
    obtain ⟨j, hj⟩ := List.mem_iff_getElem?.mp hmem
    obtain ⟨-, hrule, hbegin⟩ := getElem?_candidates_eq_some_iff.mp hj
    obtain ⟨hle, p, hp, htakes⟩ := hbegin.exists_takes
    exact hnone _ (List.mem_of_getElem? hrule) p hp _ hle htakes

/-- The rule that begins earliest remains so for a search that begins later, but not behind it. -/
theorem earliestRule_eq_of_le {candidate : Candidate} (hbest : h.earliestRule c = some candidate)
    (hcd : c ≤ d) (hds : d ≤ candidate.begin.start) : h.earliestRule d = some candidate := by
  obtain ⟨hrule, hfirst⟩ := earliestRule_eq_some_iff.mp hbest
  have hstill : ∀ {rule : CompiledRule} [rule.Leftmost] {s : Stretch}, rule.BeginsFirst c s →
      d ≤ s.start → rule.BeginsFirst d s := fun hs hds =>
    CompiledRule.nextBegin_eq_some_iff.mp
      (CompiledRule.nextBegin_eq_of_le (CompiledRule.nextBegin_eq_some_iff.mpr hs) hcd hds)
  have := Leftmost.of_mem _ (List.mem_of_getElem? hrule)
  refine earliestRule_eq_some_iff.mpr
    ⟨hrule, ⟨_, hrule, hstill (hfirst.has hrule) hds⟩, fun j rule t hj ht => ?_⟩
  have := Leftmost.of_mem _ (List.mem_of_getElem? hj)
  -- Where a rule begins behind `d` is where it begins behind `c`, as nothing begins between them.
  cases hnext : rule.nextBegin c with
  | none =>
      have hnone := CompiledRule.nextBegin_eq_none_of_le hnext hcd
      rw [CompiledRule.nextBegin_eq_some_iff.mpr ht] at hnone
      cases hnone
  | some u =>
      have hu := CompiledRule.nextBegin_eq_some_iff.mp hnext
      have hle := Cursor.offset_le hds
      have hdu : d ≤ u.start := Cursor.le_of_offset_le hcd hu.exists_takes.1
        (Nat.le_trans hle (hfirst.first j rule u hj hu).1)
      exact (hstill hu hdu).eq ht ▸ hfirst.first j rule u hj hu

theorem earliestRule_eq_none_of_le (hbest : h.earliestRule c = none) (hcd : c ≤ d) :
    h.earliestRule d = none :=
  earliestRule_eq_none_iff.mpr fun rule hrule p hp t hdt =>
    earliestRule_eq_none_iff.mp hbest rule hrule p hp t (hcd.trans hdt)

end Highlighter

/-! ## Patterns that are read -/

/-- Searches for whatever is read as a pattern find leftmost matches. -/
class ReadsLeftmost (read : String → Option Pattern) : Prop where
  leftmost : ∀ {source : String} {p : Pattern}, read source = some p → p.Leftmost

instance : ReadsLeftmost Pattern.ofString? where
  leftmost h := by
    obtain ⟨node, -, rfl⟩ := Option.map_eq_some_iff.mp h
    infer_instance

theorem Highlighter.ofGrammar_eq_ok_iff {read : String → Option Pattern} {grammar : Grammar}
    {h : Highlighter} : ofGrammar read grammar = .ok h ↔
      ∃ rules wordPattern, grammar.rules.mapM (Rule.compile read) = .ok rules ∧
        compilePattern read .keyword grammar.keywords.pattern = .ok wordPattern ∧
        ⟨grammar.name, rules, wordPattern, wordTable grammar.keywords.groups⟩ = h := by
  rw [ofGrammar]
  simp only [bind_eq_ok_iff, pure, Except.pure, Except.ok.injEq, ← exists_and_left]

section Read

variable {read : String → Option Pattern} [ReadsLeftmost read]

theorem leftmost_of_compilePattern {role : PatternRole} {source : String} {p : Pattern}
    (h : compilePattern read role source = .ok p) : p.Leftmost := by
  rw [compilePattern] at h
  split at h
  · rename_i p' hread
    obtain rfl : p' = p := Except.ok.inj h
    exact ReadsLeftmost.leftmost hread
  · cases h

theorem Rule.leftmost_of_compile {rule : Rule} {compiled : CompiledRule}
    (h : rule.compile read = .ok compiled) : compiled.Leftmost := by
  cases rule with
  | region rule =>
      rw [compile] at h
      simp only [bind_eq_ok_iff] at h
      obtain ⟨opening, hopening, closing, hclosing, illegal, hillegal, h⟩ := h
      obtain rfl := Except.ok.inj h
      refine CompiledRule.leftmost_region_iff.mpr ⟨leftmost_of_compilePattern hopening,
        leftmost_of_compilePattern hclosing, fun p hp => ?_⟩
      obtain rfl := Option.mem_def.mp hp
      obtain ⟨source, -, hsource⟩ := exists_of_mapM_eq_ok_some hillegal
      exact leftmost_of_compilePattern hsource
  | pattern rule =>
      rw [compile, bind_eq_ok_iff] at h
      obtain ⟨variants, hvariants, h⟩ := h
      obtain rfl := Except.ok.inj h
      refine CompiledRule.leftmost_pattern fun p hp => ?_
      obtain ⟨source, -, hsource⟩ := exists_of_mem_mapM hvariants hp
      exact leftmost_of_compilePattern hsource

theorem Highlighter.leftmost_of_ofGrammar {grammar : Grammar} {h : Highlighter}
    (hready : ofGrammar read grammar = .ok h) : h.Leftmost := by
  obtain ⟨rules, wordPattern, hrules, hpattern, rfl⟩ := ofGrammar_eq_ok_iff.mp hready
  refine ⟨fun compiled hcompiled => ?_, leftmost_of_compilePattern hpattern⟩
  obtain ⟨rule, -, hrule⟩ := exists_of_mem_mapM hrules hcompiled
  exact rule.leftmost_of_compile hrule

end Read

end CodeTint
