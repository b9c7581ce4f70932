import CodeTint.Pattern.Search
import CodeTint.Proofs.Text.Cursor

/-!
# What a search finds

That a match lies in the text, at the place of the search or behind it, is part of being a pattern,
and it makes a search for a match that is not empty go forward (`findNonEmpty_range`). More is known
of a pattern whose searches find the leftmost match, and the same match at the same place whichever
search comes there (`Pattern.Leftmost`): a search for a match that is not empty then finds the first
place at which the match is not empty (`findNonEmpty_eq_some_iff`); it comes back with nothing only
if there is no such place (`findNonEmpty_eq_none_iff`). What is found thus depends on where the
search begins only as far as it has to lie behind that place, which is why a search need not be
repeated until the scan has passed what it found (`findNonEmpty_eq_of_le`).

The tree of a pattern makes such a pattern. Everything about searches that is used elsewhere is
stated here.
-/

namespace CodeTint

namespace Pattern

/-- A search finds the leftmost match from its place on, and which match is found at a place does
not depend on where the search began. -/
class Leftmost (p : Pattern) : Prop where
  /-- What is found is the match at the place where it begins. -/
  matchEnd_start : ∀ {c : Cursor} {s : Stretch}, p.find c = some s →
    p.matchEnd s.start = some s.stop
  /-- There is no match before it. -/
  matchEnd_before : ∀ {c d : Cursor} {s : Stretch}, p.find c = some s → c ≤ d → d < s.start →
    p.matchEnd d = none
  /-- Nothing is found only where there is no match. -/
  matchEnd_behind : ∀ {c d : Cursor}, p.find c = none → c ≤ d → p.matchEnd d = none

variable {p : Pattern} {c d e : Cursor} {s t : Stretch}

/-! ## Matches -/

/-- The stretch is a match of the pattern, and not an empty one. -/
structure Takes (p : Pattern) (s : Stretch) : Prop where
  ends : p.matchEnd s.start = some s.stop
  start_lt_stop : s.start < s.stop

/-- The stretch is the first match that is not empty, from the given place on. -/
structure TakesFirst (p : Pattern) (c : Cursor) (s : Stretch) : Prop where
  le_start : c ≤ s.start
  takes : p.Takes s
  first : ∀ t, c ≤ t.start → p.Takes t → s.start ≤ t.start

theorem matchEnd_eq_some_iff : p.matchEnd c = some d ↔ p.find c = some ⟨c, d⟩ := by
  rw [matchEnd]
  cases p.find c with
  | none => simp
  | some found =>
      obtain ⟨start, stop⟩ := found
      by_cases hstart : start = c <;> simp [hstart]

theorem le_of_matchEnd (h : p.matchEnd c = some d) : c ≤ d :=
  (p.find_range (matchEnd_eq_some_iff.mp h)).2

theorem start_lt_stop_of_find (h : p.find c = some s) (hempty : s.isEmpty = false) :
    s.start < s.stop := by
  obtain ⟨-, hle⟩ := p.find_range h
  exact Cursor.lt_iff.mpr
    ⟨hle, Nat.lt_of_le_of_ne (Cursor.offset_le hle) (of_decide_eq_false hempty)⟩

theorem stop_eq_start_of_isEmpty (h : p.find c = some s) (hempty : s.isEmpty) :
    s.stop = s.start :=
  (Cursor.eq_of_le_of_offset_eq (p.find_range h).2 (of_decide_eq_true hempty)).symm

theorem findNonEmptyWithin_range : ∀ (fuel : Nat) {c : Cursor},
    p.findNonEmptyWithin fuel c = some s → c ≤ s.start ∧ s.start < s.stop := by
  intro fuel
  induction fuel with
  | zero =>
      intro c h
      cases h
  | succ fuel ih =>
      intro c h
      rw [findNonEmptyWithin] at h
      cases hfind : p.find c with
      | none => simp [hfind] at h
      | some found =>
          obtain ⟨hle, hle'⟩ := p.find_range hfind
          cases hempty : found.isEmpty with
          | false =>
              obtain rfl : found = s := by simpa [hfind, hempty] using h
              exact ⟨hle, start_lt_stop_of_find hfind hempty⟩
          | true =>
              cases hnext : found.stop.next? with
              | none => simp [hfind, hempty, hnext] at h
              | some e =>
                  obtain ⟨hes, hlt⟩ := ih (by simpa [hfind, hempty, hnext] using h)
                  exact ⟨((hle.trans hle').trans (Cursor.next_le hnext)).trans hes, hlt⟩

theorem findNonEmpty_range (h : p.findNonEmpty c = some s) : c ≤ s.start ∧ s.start < s.stop :=
  findNonEmptyWithin_range _ h

theorem Takes.rest_ne_nil (h : p.Takes s) (hle : c ≤ s.start) : c.rest ≠ [] :=
  Cursor.rest_ne_nil_of_lt (hle.trans_lt h.start_lt_stop)

theorem Takes.eq (hs : p.Takes s) (ht : p.Takes t) (h : s.start = t.start) : s = t := by
  obtain ⟨start, stop⟩ := s
  obtain ⟨start', stop'⟩ := t
  obtain rfl : start = start' := h
  obtain rfl : stop = stop' := Option.some.inj (hs.ends.symm.trans ht.ends)
  rfl

theorem TakesFirst.eq (hs : p.TakesFirst c s) (ht : p.TakesFirst c t) : s = t :=
  hs.takes.eq ht.takes
    (le_antisymm (hs.first t ht.le_start ht.takes) (ht.first s hs.le_start hs.takes))

/-- The first match remains the first one for a search that begins later, but not behind it. -/
theorem TakesFirst.of_le (h : p.TakesFirst c s) (hcd : c ≤ d) (hds : d ≤ s.start) :
    p.TakesFirst d s :=
  ⟨hds, h.takes, fun t hdt ht => h.first t (hcd.trans hdt) ht⟩

/-! ## The leftmost match -/

section Leftmost

variable [p.Leftmost]

theorem find_eq_some (h : p.find c = some s) :
    c ≤ s.start ∧ p.matchEnd s.start = some s.stop ∧
      ∀ d, c ≤ d → d < s.start → p.matchEnd d = none :=
  ⟨(p.find_range h).1, Leftmost.matchEnd_start h, fun _ => Leftmost.matchEnd_before h⟩

theorem find_eq_none_iff : p.find c = none ↔ ∀ d, c ≤ d → p.matchEnd d = none := by
  refine ⟨fun h _ => Leftmost.matchEnd_behind h, fun h => ?_⟩
  cases hfind : p.find c with
  | none => rfl
  | some s =>
      have hstart := h s.start (p.find_range hfind).1
      rw [Leftmost.matchEnd_start hfind] at hstart
      cases hstart

/-- A match lies at or behind what a search finds. -/
theorem start_le_of_find_eq_some (h : p.find c = some s) (hcd : c ≤ d)
    (hd : p.matchEnd d = some e) : s.start ≤ d := by
  obtain ⟨hle, -, hnone⟩ := find_eq_some h
  rcases Cursor.lt_or_le hcd hle with hlt | hge
  · rw [hnone d hcd hlt] at hd
    cases hd
  · exact hge

/-! ## The first match that is not empty -/

/-- If the leftmost match is empty, then all matches that are not begin behind it. -/
theorem start_lt_of_isEmpty (h : p.find c = some s) (hempty : s.isEmpty) (hct : c ≤ t.start)
    (ht : p.Takes t) : s.start < t.start := by
  have hle := start_le_of_find_eq_some h hct ht.ends
  refine lt_of_le_of_ne hle fun heq => ?_
  have hstop : s.stop = t.stop := by
    have hs := (find_eq_some h).2.1
    rw [heq] at hs
    exact Option.some.inj (hs.symm.trans ht.ends)
  have hlt := (Cursor.lt_iff.mp ht.start_lt_stop).2
  rw [← heq, ← hstop] at hlt
  exact absurd (of_decide_eq_true hempty) (Nat.ne_of_lt hlt)

/-- What a search for a match that is not empty finds. The fuel counts the searches that may still
be made, and each of them begins behind one more character at least. -/
theorem findNonEmptyWithin_spec (p : Pattern) [p.Leftmost] : ∀ (fuel : Nat) (c : Cursor),
    c.rest.length < fuel →
    match p.findNonEmptyWithin fuel c with
    | some s => p.TakesFirst c s
    | none => ∀ t, c ≤ t.start → ¬p.Takes t := by
  intro fuel
  induction fuel with
  | zero => intro c hc; exact absurd hc (Nat.not_lt_zero _)
  | succ fuel ih =>
      intro c hc
      rw [findNonEmptyWithin]
      cases hfind : p.find c with
      | none =>
          intro t hct ht
          have := find_eq_none_iff.mp hfind t.start hct
          rw [ht.ends] at this
          cases this
      | some s =>
          obtain ⟨hcs, hs, -⟩ := find_eq_some hfind
          by_cases hempty : s.isEmpty
          · -- An empty match is passed by one character, which no other match begins before.
            have hbehind : ∀ t, c ≤ t.start → p.Takes t → s.start < t.start :=
              fun t hct ht => start_lt_of_isEmpty hfind hempty hct ht
            simp only [hempty, if_true, stop_eq_start_of_isEmpty hfind hempty]
            cases hnext : s.start.next? with
            | none =>
                intro t hct ht
                have := Cursor.rest_length_lt (hbehind t hct ht)
                rw [Cursor.next_eq_none_iff.mp hnext] at this
                exact absurd this (Nat.not_lt_zero _)
            | some e =>
                have hse := Cursor.next_le hnext
                have hlength : e.rest.length < fuel := by
                  have := Cursor.rest_length_lt_of_next hnext
                  have := Cursor.rest_length_le hcs
                  omega
                have hnext_le : ∀ t, c ≤ t.start → p.Takes t → e ≤ t.start :=
                  fun t hct ht => Cursor.next_le_of_lt (hbehind t hct ht) hnext
                have hfound := ih e hlength
                show match p.findNonEmptyWithin fuel e with | some s => _ | none => _
                split at hfound
                · exact ⟨(hcs.trans hse).trans hfound.le_start, hfound.takes,
                    fun t hct ht => hfound.first t (hnext_le t hct ht) ht⟩
                · exact fun t hct ht => hfound t (hnext_le t hct ht) ht
          · simp only [hempty]
            have hlt := start_lt_stop_of_find hfind (Bool.eq_false_iff.mpr hempty)
            exact ⟨hcs, ⟨hs, hlt⟩, fun t hct ht => start_le_of_find_eq_some hfind hct ht.ends⟩

theorem findNonEmpty_spec (p : Pattern) [p.Leftmost] (c : Cursor) :
    match p.findNonEmpty c with
    | some s => p.TakesFirst c s
    | none => ∀ t, c ≤ t.start → ¬p.Takes t :=
  findNonEmptyWithin_spec p _ c (Nat.lt_succ_self _)

theorem findNonEmpty_eq_some_iff : p.findNonEmpty c = some s ↔ p.TakesFirst c s := by
  have hspec := findNonEmpty_spec p c
  cases hfind : p.findNonEmpty c with
  | none =>
      rw [hfind] at hspec
      refine ⟨fun h => ?_, fun h => absurd h.takes (hspec s h.le_start)⟩
      cases h
  | some t =>
      rw [hfind] at hspec
      exact ⟨fun h => Option.some.inj h ▸ hspec, fun h => congrArg some (hspec.eq h)⟩

theorem findNonEmpty_eq_none_iff :
    p.findNonEmpty c = none ↔ ∀ t, c ≤ t.start → ¬p.Takes t := by
  have hspec := findNonEmpty_spec p c
  refine ⟨fun h => by rwa [h] at hspec, fun h => ?_⟩
  cases hfind : p.findNonEmpty c with
  | none => rfl
  | some s =>
      rw [hfind] at hspec
      exact absurd hspec.takes (h s hspec.le_start)

/-- A search may begin anywhere between the place where it began and what it found there. -/
theorem findNonEmpty_eq_of_le (h : p.findNonEmpty c = some s) (hcd : c ≤ d) (hds : d ≤ s.start) :
    p.findNonEmpty d = some s :=
  findNonEmpty_eq_some_iff.mpr ((findNonEmpty_eq_some_iff.mp h).of_le hcd hds)

/-- A search that found nothing finds nothing later. -/
theorem findNonEmpty_eq_none_of_le (h : p.findNonEmpty c = none) (hcd : c ≤ d) :
    p.findNonEmpty d = none :=
  findNonEmpty_eq_none_iff.mpr fun t hdt => findNonEmpty_eq_none_iff.mp h t (hcd.trans hdt)

end Leftmost

end Pattern

/-! ## Trees -/

namespace Node

theorem find_pattern (node : Node) (c : Cursor) :
    node.pattern.find c =
      match (node.ends c).head? with
      | some stop => some ⟨c, stop⟩
      | none => c.next?.bind node.pattern.find := by
  obtain ⟨passed, rest, offset⟩ := c
  cases rest <;> simp only [pattern, searchFrom] <;> cases (node.ends _).head? <;> rfl

/-- What a search with a tree finds, by recursion over the rest of the text. -/
theorem find_spec (node : Node) : ∀ (n : Nat) (c : Cursor), c.rest.length = n →
    match node.pattern.find c with
    | some s => c ≤ s.start ∧ (node.ends s.start).head? = some s.stop ∧
        ∀ d, c ≤ d → d < s.start → (node.ends d).head? = none
    | none => ∀ d, c ≤ d → (node.ends d).head? = none := by
  intro n
  induction n using Nat.strongRecOn with
  | ind n ih =>
      intro c hn
      rw [find_pattern]
      cases hend : (node.ends c).head? with
      | some stop => exact ⟨le_refl c, hend, fun d hcd hdc => absurd hcd (not_le_of_gt hdc)⟩
      | none =>
          cases hnext : c.next? with
          | none =>
              intro d hcd
              rw [← Cursor.eq_of_le_of_rest_nil hcd (Cursor.next_eq_none_iff.mp hnext)]
              exact hend
          | some e =>
              have hce := Cursor.next_le hnext
              have hlt := Cursor.rest_length_lt_of_next hnext
              have hfound := ih e.rest.length (hn ▸ hlt) e rfl
              -- Of the places from `c` on, only `c` is not left to the search behind it.
              have hsplit : ∀ d, c ≤ d → d = c ∨ e ≤ d := fun d hcd =>
                (Cursor.eq_or_next_le hcd).imp Eq.symm fun ⟨e', he', hle⟩ =>
                  Option.some.inj (hnext.symm.trans he') ▸ hle
              dsimp only [Option.bind_some]
              cases hfind : node.pattern.find e with
              | none =>
                  rw [hfind] at hfound
                  intro d hcd
                  rcases hsplit d hcd with rfl | hed
                  · exact hend
                  · exact hfound d hed
              | some s =>
                  rw [hfind] at hfound
                  obtain ⟨hle, hs, hnone⟩ := hfound
                  refine ⟨hce.trans hle, hs, fun d hcd hds => ?_⟩
                  rcases hsplit d hcd with rfl | hed
                  · exact hend
                  · exact hnone d hed hds

/-- At a place a search with a tree finds the preferred end of the tree. -/
theorem matchEnd_pattern (node : Node) (c : Cursor) :
    node.pattern.matchEnd c = (node.ends c).head? := by
  have hspec := node.find_spec _ c rfl
  rw [Pattern.matchEnd]
  cases hfind : node.pattern.find c with
  | none =>
      rw [hfind] at hspec
      exact (hspec c (le_refl c)).symm
  | some s =>
      rw [hfind] at hspec
      obtain ⟨hle, hs, hnone⟩ := hspec
      by_cases hstart : s.start = c
      · rw [hstart] at hs
        simp [hstart, hs]
      · simp [hstart, hnone c (le_refl c) (lt_of_le_of_ne hle (Ne.symm hstart))]

-- The first round of the outer repetition matches nothing, and ends it before the first semicolon.
example :
    let inner := Node.repetition (.one (.range ';' 'z')) 0 none false
    (Node.seq (.repetition inner 1 none true) (.one (.single ';'))).pattern.matchEnd
      (.atStart "x;y;".toList 0) = some ⟨[';', 'x'], ['y', ';'], 2⟩ := by
  decide +kernel

instance (node : Node) : node.pattern.Leftmost where
  matchEnd_start {c s} h := by
    have hspec := node.find_spec _ c rfl
    rw [h] at hspec
    exact (node.matchEnd_pattern _).trans hspec.2.1
  matchEnd_before {c d s} h hcd hds := by
    have hspec := node.find_spec _ c rfl
    rw [h] at hspec
    exact (node.matchEnd_pattern _).trans (hspec.2.2 d hcd hds)
  matchEnd_behind {c d} h hcd := by
    have hspec := node.find_spec _ c rfl
    rw [h] at hspec
    exact (node.matchEnd_pattern _).trans (hspec d hcd)

end Node

end CodeTint
