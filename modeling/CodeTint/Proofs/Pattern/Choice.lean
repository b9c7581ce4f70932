import CodeTint.Proofs.Pattern.Search

/-!
# Which end of a match is chosen

A pattern lists its ends in order of preference, and what follows in a larger pattern takes the
first of them from which it can go on. `Node.choose` is this choice, with whatever follows as a
parameter. It goes through a pattern as a search by trial and error would: a sequence hands on to
its second part (`choose_seq`), an alternative or an option tries the one and then the other
(`choose_alt`, `choose_option`), and a greedy run of characters ends where the characters do, unless
it is possible to go on from inside of it only (`choose_run`).

The ends are kept without repetitions, by their offsets. This changes nothing about the choice, as
places of one text that have the same offset are equal (`Places.Sound`).
-/

namespace CodeTint

variable {α : Type} {a c : Cursor} {goOn : Cursor → Option α}

/-! ## Choosing among places -/

theorem findSome?_cons_eq_or (c : Cursor) (cs : List Cursor) :
    (c :: cs).findSome? goOn = (goOn c).or (cs.findSome? goOn) := by
  rw [List.findSome?_cons]
  cases goOn c <;> rfl

/-- All of the places lie behind a common one, and are known by their offsets. -/
structure Places.Sound (places : Places) (a : Cursor) : Prop where
  le : ∀ c ∈ places.reversed, a ≤ c
  testBit_iff : ∀ n, places.seen.testBit n = true ↔ ∃ c ∈ places.reversed, c.offset = n

namespace Places

theorem sound_empty : empty.Sound a := by
  refine ⟨fun c hc => absurd hc List.not_mem_nil, fun n => ?_⟩
  simp [empty]

theorem Sound.has_iff {places : Places} (h : places.Sound a) (hc : a ≤ c) :
    places.has c = true ↔ c ∈ places.reversed := by
  rw [has, h.testBit_iff]
  constructor
  · rintro ⟨d, hd, hoffset⟩
    exact Cursor.eq_of_offset_eq (h.le d hd) hc hoffset ▸ hd
  · exact fun hmem => ⟨c, hmem, rfl⟩

theorem Sound.add {places : Places} (h : places.Sound a) (hc : a ≤ c) : (places.add c).Sound a := by
  rw [Places.add]
  split
  · exact h
  · refine ⟨List.forall_mem_cons.mpr ⟨hc, h.le⟩, fun n => ?_⟩
    have hbit : (1 <<< c.offset).testBit n = true ↔ c.offset = n := by
      rw [Nat.one_shiftLeft, Nat.testBit_two_pow, decide_eq_true_eq]
    rw [Nat.testBit_or, Bool.or_eq_true, h.testBit_iff, hbit]
    simp [or_comm]

/-- A place that is there already is not chosen a second time. -/
theorem Sound.findSome?_add {places : Places} (h : places.Sound a) (hc : a ≤ c)
    (goOn : Cursor → Option α) :
    (places.add c).toList.findSome? goOn = (places.toList.findSome? goOn).or (goOn c) := by
  by_cases hhas : places.has c
  · rw [Places.add, if_pos hhas]
    cases hfind : places.toList.findSome? goOn with
    | some result => rfl
    | none =>
        have hmem : c ∈ places.toList := List.mem_reverse.mpr ((h.has_iff hc).mp hhas)
        rw [List.findSome?_eq_none_iff.mp hfind c hmem, Option.or_none]
  · rw [Places.add, if_neg hhas]
    simp [toList]

theorem Sound.foldl_add {places : Places} (h : places.Sound a) {cs : List Cursor}
    (hcs : ∀ c ∈ cs, a ≤ c) : (cs.foldl Places.add places).Sound a := by
  induction cs generalizing places with
  | nil => exact h
  | cons c cs ih =>
      obtain ⟨hc, hcs⟩ := List.forall_mem_cons.mp hcs
      exact ih (h.add hc) hcs

theorem Sound.findSome?_foldl_add {places : Places} (h : places.Sound a) {cs : List Cursor}
    (hcs : ∀ c ∈ cs, a ≤ c) (goOn : Cursor → Option α) :
    (cs.foldl Places.add places).toList.findSome? goOn =
      (places.toList.findSome? goOn).or (cs.findSome? goOn) := by
  induction cs generalizing places with
  | nil => simp
  | cons c cs ih =>
      obtain ⟨hc, hcs⟩ := List.forall_mem_cons.mp hcs
      rw [List.foldl_cons, ih (h.add hc) hcs, h.findSome?_add hc, Option.or_assoc,
        findSome?_cons_eq_or]

end Places

theorem findSome?_distinct {cs : List Cursor} (hcs : ∀ c ∈ cs, a ≤ c) (goOn : Cursor → Option α) :
    (distinct cs).findSome? goOn = cs.findSome? goOn := by
  unfold distinct
  split
  · rfl
  · rfl
  · rw [Places.sound_empty.findSome?_foldl_add hcs]
    rfl

theorem findSome?_flatMap (step : Cursor → List Cursor) (cs : List Cursor)
    (goOn : Cursor → Option α) :
    (cs.flatMap step).findSome? goOn = cs.findSome? fun c => (step c).findSome? goOn := by
  induction cs with
  | nil => rfl
  | cons c cs ih =>
      rw [List.flatMap_cons, List.findSome?_append, ih, findSome?_cons_eq_or]

theorem findSome?_endsFrom {step : Cursor → List Cursor} (hstep : Keeps (a ≤ ·) step)
    {cs : List Cursor} (hcs : ∀ c ∈ cs, a ≤ c) (goOn : Cursor → Option α) :
    (endsFrom step cs).findSome? goOn = cs.findSome? fun c => (step c).findSome? goOn := by
  unfold endsFrom
  split
  · rfl
  · rw [findSome?_cons_eq_or, List.findSome?_nil, Option.or_none]
  · rw [← findSome?_flatMap]
    have hends : ∀ d ∈ cs.flatMap step, a ≤ d := by
      intro d hd
      obtain ⟨c, hc, hdc⟩ := List.mem_flatMap.mp hd
      exact hstep c (hcs c hc) d hdc
    exact findSome?_distinct hends goOn

/-! ## Runs of characters -/

theorem Cursor.pass_cons (c : Cursor) (x : Char) (passed rest rest' : List Char) :
    (⟨x :: c.passed, rest', c.offset + x.utf8Size⟩ : Cursor).pass passed rest =
      c.pass (x :: passed) rest := by
  simp [pass, Nat.add_assoc]

/-- A run without an upper bound can end at every place from its beginning to its end, and nowhere
else. -/
theorem exists_memberRun_eq {set : CharSet} {run rest : List Char} (hrun : ∀ x ∈ run, set.mem x)
    (hstop : rest.head?.any set.mem = false) (hc : c.rest = run ++ rest) :
    ∃ inside : List Cursor, memberRun set none c.passed c.rest c.offset =
        inside ++ [c.pass run rest] ∧
      ∀ d ∈ inside, ∃ part rest', c.rest = part ++ rest' ∧ (∀ x ∈ part, set.mem x) ∧
        d = c.pass part rest' := by
  obtain ⟨passed, text, offset⟩ := c
  obtain rfl : text = run ++ rest := hc
  induction run generalizing passed offset with
  | nil =>
      refine ⟨[], ?_, fun d hd => absurd hd List.not_mem_nil⟩
      cases rest with
      | nil => rfl
      | cons x rest =>
          have hx : set.mem x = false := hstop
          simp [memberRun, hx, Cursor.pass]
  | cons x run ih =>
      obtain ⟨hx, hrun⟩ := List.forall_mem_cons.mp hrun
      obtain ⟨inside, heq, hinside⟩ := ih hrun (x :: passed) (offset + x.utf8Size)
      refine ⟨⟨passed, x :: (run ++ rest), offset⟩ :: inside, ?_, ?_⟩
      · have hpass := Cursor.pass_cons ⟨passed, x :: (run ++ rest), offset⟩ x run rest (run ++ rest)
        rw [List.cons_append, memberRun, List.cons_append, ← hpass]
        simpa [hx] using heq
      · refine List.forall_mem_cons.mpr ⟨?_, fun d hd => ?_⟩
        · exact ⟨[], _, rfl, fun y hy => absurd hy List.not_mem_nil, (Cursor.pass_nil _).symm⟩
        · obtain ⟨part, rest', hrest', hpart, hd⟩ := hinside d hd
          refine ⟨x :: part, rest', ?_, List.forall_mem_cons.mpr ⟨hx, hpart⟩, ?_⟩
          · exact congrArg (x :: ·) hrest'
          · rw [hd]
            exact Cursor.pass_cons ⟨passed, x :: (run ++ rest), offset⟩ x part rest' _

namespace Node

/-! ## Choosing an end of a pattern -/

/-- What becomes of the first end, in order of preference, from which it is possible to go on. -/
def choose (node : Node) (goOn : Cursor → Option α) (c : Cursor) : Option α :=
  (node.ends c).findSome? goOn

theorem choose_some (node : Node) (c : Cursor) : node.choose some c = (node.ends c).head? := by
  rw [choose]
  cases node.ends c <;> rfl

theorem choose_one (set : CharSet) (goOn : Cursor → Option α) (c : Cursor) :
    (one set).choose goOn c = if c.rest.head?.any set.mem then c.next?.bind goOn else none := by
  obtain ⟨passed, rest, offset⟩ := c
  rw [choose, ends]
  cases rest with
  | nil => rfl
  | cons x rest =>
      by_cases hx : set.mem x
      · simp [hx, Cursor.next?]
      · simp [hx]

theorem choose_assertion (condition : Assertion) (goOn : Cursor → Option α) (c : Cursor) :
    (assertion condition).choose goOn c = if condition.holds c then goOn c else none := by
  rw [choose, ends]
  split
  · rw [findSome?_cons_eq_or, List.findSome?_nil, Option.or_none]
  · rfl

theorem choose_seq (first second : Node) (goOn : Cursor → Option α) (c : Cursor) :
    (seq first second).choose goOn c = first.choose (second.choose goOn) c := by
  rw [choose, ends, findSome?_endsFrom (second.keeps_ends c) (fun d hd => le_of_mem_ends hd)]
  rfl

/-- A sequence hands on to its second part, wherever it begins. -/
theorem choose_seq_eq (first second : Node) (goOn : Cursor → Option α) :
    (seq first second).choose goOn = first.choose (second.choose goOn) :=
  funext (choose_seq first second goOn)

theorem choose_alt (first second : Node) (goOn : Cursor → Option α) (c : Cursor) :
    (alt first second).choose goOn c = (first.choose goOn c).or (second.choose goOn c) := by
  have hfirst : ∀ d ∈ first.ends c, c ≤ d := fun d hd => le_of_mem_ends hd
  have hsecond : ∀ d ∈ second.ends c, c ≤ d := fun d hd => le_of_mem_ends hd
  rw [choose, choose, choose, ends]
  split
  · rename_i heq
    rw [heq, List.findSome?_nil, Option.none_or]
  · rename_i heq _
    rw [heq, List.findSome?_nil, Option.or_none]
  · rw [findSome?_distinct (fun d hd => (List.mem_append.mp hd).elim (hfirst d) (hsecond d)),
      List.findSome?_append]

theorem found_foldl_exploreUpTo_zero (step : Cursor → List Cursor) (ends : List Cursor)
    (trials : Trials) :
    (ends.foldl (exploreUpTo step true 0) trials).found =
      ends.foldl Places.add trials.found := by
  induction ends generalizing trials with
  | nil => rfl
  | cons c ends ih =>
      rw [List.foldl_cons, List.foldl_cons, ih]
      rfl

/-- An option is tried first, and left out if it is not possible to go on behind it. -/
theorem choose_option (body : Node) (goOn : Cursor → Option α) (c : Cursor) :
    (repetition body 0 (some 1) true).choose goOn c = (body.choose goOn c).or (goOn c) := by
  by_cases hbody : ∃ set, body = one set
  · obtain ⟨set, rfl⟩ := hbody
    obtain ⟨passed, rest, offset⟩ := c
    rw [choose_one]
    cases rest with
    | nil => simp [choose, ends, runEnds, memberRun]
    | cons x rest =>
        by_cases hx : set.mem x
        · cases rest <;>
            simp [choose, ends, runEnds, memberRun, hx, Cursor.next?, findSome?_cons_eq_or]
        · simp [choose, ends, runEnds, memberRun, hx]
  · have hends : (repetition body 0 (some 1) true).ends c =
        repetitionEnds body.ends (!body.isClosed) 0 (some 1) true c := by
      rw [ends]
      exact fun set heq => hbody ⟨set, heq⟩
    have hle : ∀ d ∈ body.ends c, c ≤ d := fun d hd => le_of_mem_ends hd
    have hround : repetitionEnds body.ends (!body.isClosed) 0 (some 1) true c =
        (((body.ends c).foldl Places.add Places.empty).add c).toList := by
      simp only [repetitionEnds, afterRounds, List.foldl_cons, List.foldl_nil]
      rw [exploreUpTo]
      simp [found_foldl_exploreUpTo_zero]
    rw [choose, hends, hround, (Places.sound_empty.foldl_add hle).findSome?_add (le_refl c),
      Places.sound_empty.findSome?_foldl_add hle]
    rfl

/-- A greedy run ends where its characters do, unless it is possible to go on from inside of it
only. -/
theorem choose_run {set : CharSet} {run rest : List Char} (hrun : ∀ x ∈ run, set.mem x)
    (hstop : rest.head?.any set.mem = false) (hc : c.rest = run ++ rest)
    (hstuck : goOn (c.pass run rest) = none → ∀ part rest', c.rest = part ++ rest' →
      (∀ x ∈ part, set.mem x) → goOn (c.pass part rest') = none) :
    (repetition (one set) 0 none true).choose goOn c = goOn (c.pass run rest) := by
  obtain ⟨inside, heq, hinside⟩ := exists_memberRun_eq hrun hstop hc
  cases hend : goOn (c.pass run rest) with
  | some result => simp [choose, ends, runEnds, heq, hend]
  | none =>
      have hnone : inside.reverse.findSome? goOn = none := by
        refine List.findSome?_eq_none_iff.mpr fun d hd => ?_
        obtain ⟨part, rest', hrest', hpart, rfl⟩ := hinside d (List.mem_reverse.mp hd)
        exact hstuck hend part rest' hrest' hpart
      simp [choose, ends, runEnds, heq, hnone, hend]

/-- A run of one character at least is a character, and a run of any length behind it. -/
theorem choose_run_succ (set : CharSet) (least : Nat) (goOn : Cursor → Option α) (c : Cursor) :
    (repetition (one set) (least + 1) none true).choose goOn c =
      (one set).choose ((repetition (one set) least none true).choose goOn) c := by
  obtain ⟨passed, rest, offset⟩ := c
  rw [choose_one]
  cases rest with
  | nil => simp [choose, ends, runEnds, memberRun]
  | cons x rest =>
      by_cases hx : set.mem x
      · simp [choose, ends, runEnds, memberRun, hx, Cursor.next?]
      · simp [choose, ends, runEnds, memberRun, hx]

end Node

end CodeTint
