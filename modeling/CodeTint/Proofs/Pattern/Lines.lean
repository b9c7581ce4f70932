import Mathlib.Data.List.Forall2
import CodeTint.Proofs.Pattern.Search
import CodeTint.Proofs.Text.Lines

/-!
# Patterns that keep to their line

A pattern that has no use for the character that ends lines (`Node.avoids`) matches on a line what
it matches there if the text ends with the line. The matcher is run on both texts side by side: a
relation between places that every step respects is respected by rounds of steps, however they are
explored (`Respects`), and standing on the same line is such a relation
(`Node.respects_ends`). What a search finds on the line is then found in either text
(`Pattern.Avoids.takesFirst`).
-/

namespace CodeTint

open scoped Relator

section Respects

variable {R : Cursor → Cursor → Prop} {step : Cursor → List Cursor} {shift : Nat}

/-- From places that are related the step reaches places that are, in the same order. -/
def Respects (R : Cursor → Cursor → Prop) (step : Cursor → List Cursor) : Prop :=
  ∀ c d, R c d → List.Forall₂ R (step c) (step d)

/-- The offsets of related places differ by the same number. -/
def Shifts (R : Cursor → Cursor → Prop) (shift : Nat) : Prop :=
  ∀ c d, R c d → c.offset = d.offset + shift

/-! ## Places found -/

namespace Places

/-- Places that were found side by side. -/
structure Alike (R : Cursor → Cursor → Prop) (shift : Nat) (p q : Places) : Prop where
  reversed : List.Forall₂ R p.reversed q.reversed
  seen : ∀ n, p.seen.testBit (n + shift) = q.seen.testBit n

theorem alike_empty : Alike R shift empty empty :=
  ⟨.nil, fun n => by simp [empty]⟩

theorem Alike.has_eq {p q : Places} (h : Alike R shift p q) (hR : Shifts R shift) {c d : Cursor}
    (hcd : R c d) : p.has c = q.has d := by
  rw [has, has, hR c d hcd, h.seen]

theorem Alike.add {p q : Places} (h : Alike R shift p q) (hR : Shifts R shift) {c d : Cursor}
    (hcd : R c d) : Alike R shift (p.add c) (q.add d) := by
  rw [Places.add, Places.add, h.has_eq hR hcd]
  split
  · exact h
  · refine ⟨.cons hcd h.reversed, fun n => ?_⟩
    have hbit : (1 <<< (d.offset + shift)).testBit (n + shift) = (1 <<< d.offset).testBit n := by
      simp only [Nat.testBit_shiftLeft, Nat.add_sub_add_right, Nat.add_le_add_iff_right]
    show (p.seen ||| 1 <<< c.offset).testBit (n + shift) = (q.seen ||| 1 <<< d.offset).testBit n
    rw [Nat.testBit_or, Nat.testBit_or, hR c d hcd, h.seen, hbit]

theorem Alike.toList {p q : Places} (h : Alike R shift p q) : List.Forall₂ R p.toList q.toList :=
  List.rel_reverse h.reversed

end Places

theorem distinct_forall₂ (hR : Shifts R shift) {cs ds : List Cursor} (h : List.Forall₂ R cs ds) :
    List.Forall₂ R (distinct cs) (distinct ds) := by
  unfold distinct
  cases h with
  | nil => exact .nil
  | cons hcd h =>
      cases h with
      | nil => exact .cons hcd .nil
      | cons hcd' h =>
          refine Places.Alike.toList (List.rel_foldl (fun _ _ hplaces _ _ hplace =>
            hplaces.add hR hplace) Places.alike_empty (.cons hcd (.cons hcd' h)))

theorem endsFrom_forall₂ (hR : Shifts R shift) (hstep : Respects R step) {cs ds : List Cursor}
    (h : List.Forall₂ R cs ds) : List.Forall₂ R (endsFrom step cs) (endsFrom step ds) := by
  unfold endsFrom
  cases h with
  | nil => exact .nil
  | cons hcd h =>
      cases h with
      | nil => exact hstep _ _ hcd
      | cons hcd' h =>
          exact distinct_forall₂ hR (List.rel_flatMap (.cons hcd (.cons hcd' h)) hstep)

/-! ## Rounds -/

theorem afterRounds_forall₂ (hR : Shifts R shift) (hstep : Respects R step) (count : Nat) :
    ∀ {cs ds : List Cursor}, List.Forall₂ R cs ds →
      List.Forall₂ R (afterRounds step count cs) (afterRounds step count ds) := by
  induction count with
  | zero =>
      intro cs ds h
      cases h with
      | nil => exact .nil
      | cons hcd h => exact .cons hcd h
  | succ count ih =>
      intro cs ds h
      cases h with
      | nil => exact .nil
      | cons hcd h => exact ih (endsFrom_forall₂ hR hstep (.cons hcd h))

/-- Trials that were made side by side. -/
structure Trials.Alike (R : Cursor → Cursor → Prop) (shift : Nat) (t u : Trials) : Prop where
  tried : ∀ count offset, (count, offset + shift) ∈ t.tried ↔ (count, offset) ∈ u.tried
  found : t.found.Alike R shift u.found

theorem exploreUpTo_alike (hR : Shifts R shift) (hstep : Respects R step) (greedy : Bool)
    (count : Nat) :
    ∀ {t u : Trials} {c d : Cursor}, t.Alike R shift u → R c d →
      (exploreUpTo step greedy count t c).Alike R shift (exploreUpTo step greedy count u d) := by
  induction count with
  | zero => exact fun htu hcd => ⟨htu.tried, htu.found.add hR hcd⟩
  | succ count ih =>
      intro t u c d htu hcd
      have hoff := hR c d hcd
      have hround : (Trials.Alike R shift ⇒ R ⇒ Trials.Alike R shift)
          (exploreUpTo step greedy count) (exploreUpTo step greedy count) :=
        fun _ _ htrials _ _ hplace => ih htrials hplace
      have htried : t.tried.contains (count + 1, c.offset) =
          u.tried.contains (count + 1, d.offset) := by
        rw [Bool.eq_iff_iff, List.contains_iff_mem, List.contains_iff_mem, hoff]
        exact htu.tried (count + 1) d.offset
      -- A greedy repetition adds the place after what lies further, any other before it.
      have hfurther : ∀ t' u' : Trials, t'.Alike R shift u' →
          ((step c).foldl (exploreUpTo step greedy count) t').Alike R shift
            ((step d).foldl (exploreUpTo step greedy count) u') :=
        fun _ _ h => List.rel_foldl hround h (hstep c d hcd)
      have htried' : ∀ other offset,
          (other, offset + shift) ∈ (count + 1, c.offset) :: t.tried ↔
            (other, offset) ∈ (count + 1, d.offset) :: u.tried := by
        intro other offset
        rw [List.mem_cons, List.mem_cons, htu.tried, hoff, Prod.mk.injEq, Prod.mk.injEq,
          Nat.add_right_cancel_iff]
      unfold exploreUpTo
      dsimp only
      rw [htried]
      split
      · exact htu
      · cases greedy with
        | false => exact hfurther _ _ ⟨htried', htu.found.add hR hcd⟩
        | true =>
            have h := hfurther ⟨_, t.found⟩ ⟨_, u.found⟩ ⟨htried', htu.found⟩
            exact ⟨h.tried, h.found.add hR hcd⟩

theorem respects_repetitionEnds (hR : Shifts R shift) (hstep : Respects R step) (again : Bool)
    (least most : Nat) (greedy : Bool) :
    Respects R (repetitionEnds step again least (some most) greedy) := by
  intro c d hcd
  have hstart := afterRounds_forall₂ hR hstep least (.cons hcd .nil)
  have hround : (Trials.Alike R shift ⇒ R ⇒ Trials.Alike R shift)
      (exploreUpTo step greedy (most - least)) (exploreUpTo step greedy (most - least)) :=
    fun _ _ htrials _ _ hplace => exploreUpTo_alike hR hstep greedy _ htrials hplace
  have htrials : Trials.Alike R shift ⟨[], Places.empty⟩ ⟨[], Places.empty⟩ :=
    ⟨fun _ _ => iff_of_false List.not_mem_nil List.not_mem_nil, Places.alike_empty⟩
  exact (List.rel_foldl hround htrials hstart).found.toList

end Respects

/-! ## Patterns on a line -/

open Cursor (SameLine)

variable {sep : Char} {shift : Nat} {next : Cursor}

theorem shifts_sameLine : Shifts (SameLine sep shift next) shift :=
  fun _ _ h => h.offset

theorem Cursor.SameLine.cons {c d : Cursor} {x : Char} {rest : List Char}
    (h : SameLine sep shift next c d) (hd : d.rest = x :: rest) :
    ∃ rest', c.rest = x :: rest' ∧
      SameLine sep shift next ⟨x :: c.passed, rest', c.offset + x.utf8Size⟩
        ⟨x :: d.passed, rest, d.offset + x.utf8Size⟩ := by
  obtain ⟨c', hc', hrest, hsame⟩ := h.pass (show d.rest = [x] ++ rest from hd)
  refine ⟨c'.rest, hrest, ?_⟩
  rw [hc'] at hsame
  exact hsame

theorem memberRun_forall₂ {set : CharSet} (hset : set.mem sep = false) :
    ∀ (rest : List Char) (most : Option Nat) {c d : Cursor}, SameLine sep shift next c d →
      d.rest = rest →
      List.Forall₂ (SameLine sep shift next) (memberRun set most c.passed c.rest c.offset)
        (memberRun set most d.passed d.rest d.offset) := by
  intro rest
  induction rest with
  | nil =>
      intro most c d h hd
      obtain ⟨passed, rest, offset⟩ := c
      obtain ⟨passed', rest', offset'⟩ := d
      obtain rfl : rest' = [] := hd
      rcases h.rest_eq rfl with hc | hc
      · obtain rfl : rest = [] := hc
        exact .cons h .nil
      · obtain rfl : rest = sep :: next.rest := hc
        simp only [memberRun, hset, Bool.and_false]
        exact .cons h .nil
  | cons x rest ih =>
      intro most c d h hd
      obtain ⟨rest', hc, hsame⟩ := h.cons hd
      obtain ⟨passed, _, offset⟩ := c
      obtain ⟨passed', _, offset'⟩ := d
      obtain rfl := hc
      obtain rfl := hd
      rw [memberRun, memberRun]
      refine .cons h ?_
      split
      · exact ih (most.map (· - 1)) hsame rfl
      · exact .nil

theorem runEnds_forall₂ {set : CharSet} (hset : set.mem sep = false) {least : Nat}
    {most : Option Nat} {greedy : Bool} {c d : Cursor} (h : SameLine sep shift next c d) :
    List.Forall₂ (SameLine sep shift next) (runEnds set least most greedy c)
      (runEnds set least most greedy d) := by
  have hrun := List.forall₂_drop least (memberRun_forall₂ hset d.rest most h rfl)
  cases greedy with
  | false => exact hrun
  | true => exact List.rel_reverse hrun

/-- Whether the pattern has no use for the character: none of its sets has it, and its conditions
are edges of words, to which the character does not belong. What the pattern repeats without a bound
is a set. -/
def Node.avoids (sep : Char) : Node → Bool
  | .empty => true
  | .one set => !set.mem sep
  | .assertion (.word _ ascii) => !(if ascii then isAsciiWord else isWord) sep
  | .assertion _ => false
  | .seq first second => first.avoids sep && second.avoids sep
  | .alt first second => first.avoids sep && second.avoids sep
  | .repetition (.one set) _ _ _ => !set.mem sep
  | .repetition body _ most _ => most.isSome && body.avoids sep

theorem Node.avoids_repetition {body : Node} {least : Nat} {most : Option Nat} {greedy : Bool}
    (hbody : ∀ set, body = .one set → False) :
    (repetition body least most greedy).avoids sep = (most.isSome && body.avoids sep) := by
  cases body with
  | one set => exact (hbody set rfl).elim
  | _ => rfl

/-- A pattern that avoids the character reaches on a line the same places in either text. -/
theorem Node.respects_ends : ∀ node : Node, node.avoids sep →
    Respects (SameLine sep shift next) node.ends
  | .empty, _ => fun c d h => .cons h .nil
  | .one set, hset => by
      intro c d h
      have hset : set.mem sep = false := by simpa [avoids] using hset
      rw [ends, ends]
      cases hd : d.rest with
      | nil =>
          rcases h.rest_eq hd with hc | hc
          · simp only [hc]
            exact .nil
          · simp only [hc, hset]
            exact .nil
      | cons x rest =>
          obtain ⟨rest', hc, hsame⟩ := h.cons hd
          simp only [hc]
          split
          · exact .cons hsame .nil
          · exact .nil
  | .assertion (.word edge ascii), hedge => by
      intro c d h
      have hedge : (if ascii then isAsciiWord else isWord) sep = false := by
        simpa [avoids] using hedge
      have hholds : (Assertion.word edge ascii).holds c = (Assertion.word edge ascii).holds d := by
        simp only [Assertion.holds, h.any_before hedge, h.any_head? hedge]
      rw [ends, ends, hholds]
      split
      · exact .cons h .nil
      · exact .nil
  | .seq first second, h => by
      intro c d hcd
      obtain ⟨hfirst, hsecond⟩ := Bool.and_eq_true_iff.mp h
      exact endsFrom_forall₂ shifts_sameLine (second.respects_ends hsecond)
        (first.respects_ends hfirst c d hcd)
  | .alt first second, h => by
      intro c d hcd
      obtain ⟨hfirst, hsecond⟩ := Bool.and_eq_true_iff.mp h
      have hends := first.respects_ends hfirst c d hcd
      have hothers := second.respects_ends hsecond c d hcd
      rw [ends, ends]
      generalize first.ends c = cs, first.ends d = ds, second.ends c = cs', second.ends d = ds'
        at hends hothers
      cases hends with
      | nil => exact hothers
      | cons hend hends =>
          cases hothers with
          | nil => exact .cons hend hends
          | cons hother hothers =>
              exact distinct_forall₂ shifts_sameLine
                (List.rel_append (.cons hend hends) (.cons hother hothers))
  | .repetition body least most greedy, h => by
      intro c d hcd
      unfold ends
      split
      · rename_i set
        have hset : set.mem sep = false := by simpa [avoids] using h
        exact runEnds_forall₂ hset hcd
      · rename_i hbody
        rw [avoids_repetition hbody, Bool.and_eq_true] at h
        obtain ⟨hmost, hbody⟩ := h
        obtain ⟨most, rfl⟩ := Option.isSome_iff_exists.mp hmost
        exact respects_repetitionEnds shifts_sameLine (body.respects_ends hbody) _ least most
          greedy c d hcd

/-! ## Searches on a line -/

/-- The two stretches begin and end on the same line, at the same places. -/
structure Stretch.SameLine (sep : Char) (shift : Nat) (next : Cursor) (s t : Stretch) : Prop where
  start : Cursor.SameLine sep shift next s.start t.start
  stop : Cursor.SameLine sep shift next s.stop t.stop

/-- What has the one property and begins before the next line has its like with the other one. -/
structure AgreeOnLine (sep : Char) (shift : Nat) (next : Cursor) (P Q : Stretch → Prop) : Prop where
  exists_left : ∀ t, Q t → ∃ s, P s ∧ s.SameLine sep shift next t ∧ s.start.offset < next.offset
  exists_right : ∀ s, P s → s.start.offset < next.offset → ∃ t, Q t ∧ s.SameLine sep shift next t

namespace Pattern

variable {p : Pattern} {c d : Cursor} {s t : Stretch}

/-- The pattern has no use for the character: what it matches on a line that the character ends does
not depend on the text around the line. -/
structure Avoids (p : Pattern) (sep : Char) : Prop where
  matchEnd : ∀ {shift : Nat} {next c d : Cursor}, Cursor.SameLine sep shift next c d →
    Option.Rel (Cursor.SameLine sep shift next) (p.matchEnd c) (p.matchEnd d)

theorem avoids_of_avoids {node : Node} (h : node.avoids sep) : node.pattern.Avoids sep := by
  refine ⟨fun {shift next c d} hcd => ?_⟩
  have hends := node.respects_ends h c d hcd
  rw [node.matchEnd_pattern, node.matchEnd_pattern]
  generalize node.ends c = cs, node.ends d = ds at hends
  cases hends with
  | nil => exact .none
  | cons hend _ => exact .some hend

namespace Avoids

theorem exists_takes_left (h : p.Avoids sep) (ht : p.Takes t)
    (hc : Cursor.SameLine sep shift next c t.start) :
    ∃ s, p.Takes s ∧ s.start = c ∧ s.SameLine sep shift next t := by
  have hrel := h.matchEnd hc
  rw [ht.ends] at hrel
  cases hend : p.matchEnd c with
  | none => rw [hend] at hrel; cases hrel
  | some stop =>
      rw [hend] at hrel
      cases hrel with
      | some hstop =>
          refine ⟨⟨c, stop⟩, ⟨hend, Cursor.lt_iff.mpr ⟨le_of_matchEnd hend, ?_⟩⟩, rfl, hc, hstop⟩
          have hlt := (Cursor.lt_iff.mp ht.start_lt_stop).2
          have hoff := hc.offset
          have hoff' := hstop.offset
          show c.offset < stop.offset
          omega

theorem exists_takes_right (h : p.Avoids sep) (hs : p.Takes s)
    (hd : Cursor.SameLine sep shift next s.start d) :
    ∃ t, p.Takes t ∧ t.start = d ∧ s.SameLine sep shift next t := by
  have hrel := h.matchEnd hd
  rw [hs.ends] at hrel
  cases hend : p.matchEnd d with
  | none => rw [hend] at hrel; cases hrel
  | some stop =>
      rw [hend] at hrel
      cases hrel with
      | some hstop =>
          refine ⟨⟨d, stop⟩, ⟨hend, Cursor.lt_iff.mpr ⟨le_of_matchEnd hend, ?_⟩⟩, rfl, hd, hstop⟩
          have hlt := (Cursor.lt_iff.mp hs.start_lt_stop).2
          have hoff := hd.offset
          have hoff' := hstop.offset
          show d.offset < stop.offset
          omega

/-- What a search finds first on the line does not depend on what follows the line. -/
theorem takesFirst (h : p.Avoids sep) (hcd : Cursor.SameLine sep shift next c d) :
    AgreeOnLine sep shift next (p.TakesFirst c) (p.TakesFirst d) := by
  refine ⟨fun t ht => ?_, fun s hs hlt => ?_⟩
  · obtain ⟨c', hc, hc'⟩ := hcd.exists_of_le ht.le_start
    obtain ⟨s, hs, rfl, hst⟩ := h.exists_takes_left ht.takes hc'
    have hstop := Cursor.offset_le hst.stop.le_next
    have hlt : s.start.offset < next.offset :=
      Nat.lt_of_lt_of_le (Cursor.lt_iff.mp hs.start_lt_stop).2 hstop
    refine ⟨s, ⟨hc, hs, fun u hcu hu => ?_⟩, hst, hlt⟩
    -- An earlier match would stand on the line, and so be found in the other text as well.
    rcases Cursor.lt_or_le hcu hc with hearlier | hle
    · have hoff := (Cursor.lt_iff.mp hearlier).2
      obtain ⟨d', hd, hd'⟩ := hcd.exists_of_lt_next hcu (Nat.lt_trans hoff hlt)
      obtain ⟨v, hv, rfl, -⟩ := h.exists_takes_right hu hd'
      have hle := Cursor.offset_le (ht.first v hd hv)
      have hoff' := hd'.offset
      have hoff'' := hst.start.offset
      omega
    · exact hle
  · obtain ⟨d', hd, hd'⟩ := hcd.exists_of_lt_next hs.le_start hlt
    obtain ⟨t, ht, rfl, hst⟩ := h.exists_takes_right hs.takes hd'
    refine ⟨t, ⟨hd, ht, fun u hdu hu => ?_⟩, hst⟩
    obtain ⟨c', hc, hc'⟩ := hcd.exists_of_le hdu
    obtain ⟨v, hv, rfl, -⟩ := h.exists_takes_left hu hc'
    have hle := Cursor.offset_le (hs.first v hc hv)
    have hoff := hc'.offset
    have hoff' := hd'.offset
    exact Cursor.le_of_offset_le hd hdu (by omega)

theorem not_mem_text (h : p.Avoids sep) (hs : p.Takes s) : sep ∉ s.text := by
  obtain ⟨next, d, -, hd⟩ := Cursor.exists_sameLine sep s.start
  obtain ⟨t, ht, rfl, hst⟩ := h.exists_takes_right hs hd
  have htext : s.text = t.text := hst.start.textTo_eq hst.stop ht.start_lt_stop.le
  rw [htext]
  exact fun hmem => hd.not_mem (Cursor.textTo_subset ht.start_lt_stop.le hmem)

end Avoids

/-! ## Patterns of a single character -/

theorem mem_single_iff {x y : Char} : (CharSet.single x).mem y = true ↔ y = x := by
  simp only [CharSet.single, CharSet.mem, Bool.and_eq_true, decide_eq_true_eq]
  exact ⟨fun h => Char.le_antisymm h.2 h.1, fun h => h ▸ ⟨Char.le_refl _, Char.le_refl _⟩⟩

theorem matchEnd_single_eq_some_iff {x : Char} :
    (Node.one (.single x)).pattern.matchEnd c = some d ↔
      ∃ rest, c.rest = x :: rest ∧ d = ⟨x :: c.passed, rest, c.offset + x.utf8Size⟩ := by
  obtain ⟨passed, rest, offset⟩ := c
  rw [Node.matchEnd_pattern, Node.ends]
  cases rest with
  | nil => simp
  | cons y rest =>
      by_cases hy : (CharSet.single x).mem y
      · obtain rfl := mem_single_iff.mp hy
        simp [hy, eq_comm]
      · have hne : y ≠ x := fun h => hy (mem_single_iff.mpr h)
        simp [hy, hne]

theorem takes_single_iff {x : Char} :
    (Node.one (.single x)).pattern.Takes s ↔ ∃ rest, s.start.rest = x :: rest ∧
      s.stop = ⟨x :: s.start.passed, rest, s.start.offset + x.utf8Size⟩ := by
  refine ⟨fun h => matchEnd_single_eq_some_iff.mp h.ends, fun h => ?_⟩
  have hend := matchEnd_single_eq_some_iff.mpr h
  obtain ⟨rest, hrest, hstop⟩ := h
  refine ⟨hend, Cursor.lt_iff.mpr ⟨le_of_matchEnd hend, ?_⟩⟩
  rw [hstop]
  exact Nat.lt_add_of_pos_right x.utf8Size_pos

end Pattern

end CodeTint
