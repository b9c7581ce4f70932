import CodeTint.Pattern.Ends

/-!
# Searching with a tree

A tree is a pattern (`Node.pattern`): a search tries one place after another and takes the preferred
end of the first at which there is a match. Every end of a match lies at the beginning of the match
or behind it, in the same text. The matcher is built from steps that lead from a place to several
places; a property of places that every step keeps is kept by rounds of steps, however they are
explored, and lying at or behind a given place is such a property.
-/

namespace CodeTint

variable {P : Cursor → Prop} {step : Cursor → List Cursor}

/-- Each place that the step reaches from a place with the property has it as well. -/
def Keeps (P : Cursor → Prop) (step : Cursor → List Cursor) : Prop :=
  ∀ c, P c → ∀ d ∈ step c, P d

/-! ## Places found -/

namespace Places

def All (P : Cursor → Prop) (places : Places) : Prop :=
  ∀ c ∈ places.reversed, P c

theorem all_empty : empty.All P := by
  intro c hc
  cases hc

theorem All.add {places : Places} (h : places.All P) {c : Cursor} (hc : P c) :
    (places.add c).All P := by
  unfold Places.add
  split
  · exact h
  · intro d hd
    rcases List.mem_cons.mp hd with rfl | hd
    · exact hc
    · exact h d hd

theorem All.toList {places : Places} (h : places.All P) : ∀ c ∈ places.toList, P c :=
  fun c hc => h c (List.mem_reverse.mp hc)

end Places

theorem mem_of_mem_distinct {cs : List Cursor} {c : Cursor} (h : c ∈ distinct cs) : c ∈ cs := by
  unfold distinct at h
  split at h
  · exact h
  · exact h
  · have hall : (cs.foldl Places.add Places.empty).All (· ∈ cs) :=
      List.foldlRecOn cs Places.add Places.all_empty fun _ hplaces _ hc => hplaces.add hc
    exact hall.toList c h

theorem endsFrom_all (h : Keeps P step) {cs : List Cursor} (hcs : ∀ c ∈ cs, P c) :
    ∀ d ∈ endsFrom step cs, P d := by
  intro d hd
  unfold endsFrom at hd
  split at hd
  · cases hd
  · exact h _ (hcs _ (List.mem_singleton.mpr rfl)) d hd
  · obtain ⟨c, hc, hdc⟩ := List.mem_flatMap.mp (mem_of_mem_distinct hd)
    exact h c (hcs c hc) d hdc

/-! ## Rounds -/

theorem afterRounds_all (h : Keeps P step) (count : Nat) :
    ∀ {cs : List Cursor}, (∀ c ∈ cs, P c) → ∀ d ∈ afterRounds step count cs, P d := by
  induction count with
  | zero =>
      intro cs hcs d hd
      cases cs with
      | nil => cases hd
      | cons c cs => exact hcs d hd
  | succ count ih =>
      intro cs hcs d hd
      cases cs with
      | nil => cases hd
      | cons c cs => exact ih (endsFrom_all h hcs) d hd

theorem exploreRounds_all (h : Keeps P step) (greedy : Bool) (fuel : Nat) :
    ∀ {found : Places} {c : Cursor}, found.All P → P c →
      (exploreRounds step greedy fuel found c).All P := by
  induction fuel with
  | zero =>
      intro found c hfound _
      exact hfound
  | succ fuel ih =>
      intro found c hfound hc
      -- A greedy repetition adds the place after what lies further, any other before it.
      have hfurther : ∀ {places : Places}, places.All P → ((step c).foldl
          (fun found d => if d.offset = c.offset then found
            else exploreRounds step greedy fuel found d) places).All P := by
        intro places hplaces
        refine List.foldlRecOn (step c) _ hplaces fun b hb d hd => ?_
        split
        · exact hb
        · exact ih hb (h c hc d hd)
      rw [exploreRounds]
      split
      · exact hfound
      · cases greedy with
        | false => exact hfurther (hfound.add hc)
        | true => exact (hfurther hfound).add hc

theorem oneOrMoreRounds_all (h : Keeps P step) (again greedy : Bool) {found : Places} {c : Cursor}
    (hfound : found.All P) (hc : P c) : (oneOrMoreRounds step again greedy found c).All P := by
  refine List.foldlRecOn (step c) _ hfound fun b hb d hd => ?_
  have hd' := h c hc d hd
  split
  · exact hb.add hd'
  · exact exploreRounds_all h greedy _ hb hd'

theorem exploreUpTo_all (h : Keeps P step) (greedy : Bool) (count : Nat) :
    ∀ {trials : Trials} {c : Cursor}, trials.found.All P → P c →
      (exploreUpTo step greedy count trials c).found.All P := by
  induction count with
  | zero =>
      intro trials c htrials hc
      exact htrials.add hc
  | succ count ih =>
      intro trials c htrials hc
      have hfurther : ∀ trials : Trials, trials.found.All P →
          ((step c).foldl (exploreUpTo step greedy count) trials).found.All P := by
        intro trials htrials
        exact List.foldlRecOn (motive := fun trials : Trials => trials.found.All P)
          (step c) _ htrials fun b hb d hd => ih hb (h c hc d hd)
      unfold exploreUpTo
      dsimp only
      split
      · exact htrials
      · cases greedy with
        | false => exact hfurther ⟨_, trials.found.add c⟩ (htrials.add hc)
        | true =>
            have := hfurther ⟨(count + 1, c.offset) :: trials.tried, trials.found⟩ htrials
            exact this.add hc

theorem repetitionEnds_keeps (h : Keeps P step) (again : Bool) (least : Nat) (most : Option Nat)
    (greedy : Bool) : Keeps P (repetitionEnds step again least most greedy) := by
  intro c hc
  have hstart : ∀ d ∈ [c], P d := fun d hd => List.mem_singleton.mp hd ▸ hc
  cases most with
  | some most =>
      refine Places.All.toList ?_
      exact List.foldlRecOn (motive := fun trials : Trials => trials.found.All P)
        (afterRounds step least [c]) _ Places.all_empty
        fun b hb d hd => exploreUpTo_all h greedy _ hb (afterRounds_all h least hstart d hd)
  | none =>
      cases least with
      | zero =>
          cases greedy with
          | false => exact (oneOrMoreRounds_all h again false (Places.all_empty.add hc) hc).toList
          | true => exact ((oneOrMoreRounds_all h again true Places.all_empty hc).add hc).toList
      | succ least =>
          refine Places.All.toList ?_
          exact List.foldlRecOn (motive := fun places : Places => places.All P)
            (afterRounds step least [c]) _ Places.all_empty
            fun b hb d hd => oneOrMoreRounds_all h again greedy hb (afterRounds_all h _ hstart d hd)

/-! ## Trees -/

theorem le_of_mem_memberRun {set : CharSet} :
    ∀ {rest : List Char} {most : Option Nat} {passed : List Char} {offset : Nat} {d : Cursor},
      d ∈ memberRun set most passed rest offset → (⟨passed, rest, offset⟩ : Cursor) ≤ d
  | [], most, passed, offset, d, hd => by
      rw [memberRun, List.mem_singleton] at hd
      exact hd ▸ Cursor.le_self _
  | x :: rest, most, passed, offset, d, hd => by
      rw [memberRun] at hd
      rcases List.mem_cons.mp hd with rfl | hd
      · exact Cursor.le_self _
      · split at hd
        · exact Cursor.le_of_le (Cursor.next_le rfl) (le_of_mem_memberRun hd)
        · cases hd

theorem le_of_mem_runEnds {set : CharSet} {least : Nat} {most : Option Nat} {greedy : Bool}
    {c d : Cursor} (h : d ∈ runEnds set least most greedy c) : c ≤ d := by
  have hrun : d ∈ (memberRun set most c.passed c.rest c.offset).drop least := by
    cases greedy with
    | false => exact h
    | true => exact List.mem_reverse.mp h
  exact le_of_mem_memberRun (List.mem_of_mem_drop hrun)

namespace Node

/-- Nothing that a tree does leads back, so that it keeps to the places at or behind one. -/
theorem keeps_ends (a : Cursor) : ∀ node : Node, Keeps (a ≤ ·) node.ends
  | .empty, c, hc, d, hd => by
      rw [ends, List.mem_singleton] at hd
      exact hd ▸ hc
  | .one set, c, hc, d, hd => by
      obtain ⟨passed, rest, offset⟩ := c
      rw [ends] at hd
      cases rest with
      | nil => cases hd
      | cons x rest =>
          dsimp only at hd
          split at hd
          · rw [List.mem_singleton] at hd
            exact Cursor.le_of_le hc (Cursor.next_le (by rw [hd]; rfl))
          · cases hd
  | .assertion _, c, hc, d, hd => by
      rw [ends] at hd
      split at hd
      · exact List.mem_singleton.mp hd ▸ hc
      · cases hd
  | .seq first second, c, hc, d, hd => by
      rw [ends] at hd
      exact endsFrom_all (keeps_ends a second) (keeps_ends a first c hc) d hd
  | .alt first second, c, hc, d, hd => by
      have hfirst := keeps_ends a first c hc
      have hsecond := keeps_ends a second c hc
      rw [ends] at hd
      split at hd
      · exact hsecond d hd
      · exact hfirst d hd
      · rcases List.mem_append.mp (mem_of_mem_distinct hd) with hd | hd
        · exact hfirst d hd
        · exact hsecond d hd
  | .repetition body least most greedy, c, hc, d, hd => by
      unfold ends at hd
      split at hd
      · exact Cursor.le_of_le hc (le_of_mem_runEnds hd)
      · exact repetitionEnds_keeps (keeps_ends a _) _ least most greedy c hc d hd

theorem le_of_mem_ends {node : Node} {c d : Cursor} (h : d ∈ node.ends c) : c ≤ d :=
  node.keeps_ends c c (Cursor.le_self c) d h

end Node

/-! ## Searches -/

/-- The first place, from the given one to the end of the text, at which `matchEnd` finds a match.
-/
def searchFrom (matchEnd : Cursor → Option Cursor) :
    (passed rest : List Char) → (offset : Nat) → Option Stretch
  | passed, [], offset => (matchEnd ⟨passed, [], offset⟩).map (⟨⟨passed, [], offset⟩, ·⟩)
  | passed, x :: rest, offset =>
    match matchEnd ⟨passed, x :: rest, offset⟩ with
    | some stop => some ⟨⟨passed, x :: rest, offset⟩, stop⟩
    | none => searchFrom matchEnd (x :: passed) rest (offset + x.utf8Size)

theorem searchFrom_range {matchEnd : Cursor → Option Cursor}
    (hends : ∀ {c d : Cursor}, matchEnd c = some d → c ≤ d) {s : Stretch} :
    ∀ {rest passed : List Char} {offset : Nat}, searchFrom matchEnd passed rest offset = some s →
      ⟨passed, rest, offset⟩ ≤ s.start ∧ s.start ≤ s.stop
  | [], passed, offset, h => by
      obtain ⟨stop, hstop, rfl⟩ := Option.map_eq_some_iff.mp h
      exact ⟨Cursor.le_self _, hends hstop⟩
  | x :: rest, passed, offset, h => by
      rw [searchFrom] at h
      split at h
      · rename_i stop hstop
        obtain rfl := Option.some.inj h
        exact ⟨Cursor.le_self _, hends hstop⟩
      · obtain ⟨hle, hstop⟩ := searchFrom_range hends h
        exact ⟨Cursor.le_of_le (Cursor.next_le rfl) hle, hstop⟩

/-- The pattern that the tree describes: the leftmost match is found, and there the preferred one.
-/
def Node.pattern (node : Node) : Pattern where
  find c := searchFrom (fun c => (node.ends c).head?) c.passed c.rest c.offset
  find_range h := searchFrom_range (fun hd => Node.le_of_mem_ends (List.mem_of_head? hd)) h

end CodeTint
