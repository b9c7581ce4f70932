import CodeTint.Proofs.Text.Cursor

/-!
# Places on lines

A line is a run of text up to a character that ends lines, which need not be the line feed. Two
places may stand on the same line although the texts around it differ (`Cursor.SameLine`): one of
the texts ends with the line, the other one may go on. Every place that follows on the line has its
like in the other text (`exists_of_le`, `exists_of_lt_next`).
-/

namespace CodeTint

/-- A text is its last line, or a line and the character that ends it before another text. -/
theorem lines_induction (sep : Char) {P : List Char → Prop} (last : ∀ line, sep ∉ line → P line)
    (cons : ∀ line more, sep ∉ line → P more → P (line ++ sep :: more)) (text : List Char) :
    P text := by
  induction hn : text.length using Nat.strongRecOn generalizing text with
  | ind n ih =>
      by_cases hmem : sep ∈ text
      · obtain ⟨line, more, rfl, hnot⟩ := List.eq_append_cons_of_mem hmem
        refine cons line more hnot (ih more.length ?_ more rfl)
        rw [← hn, List.length_append, List.length_cons]
        omega
      · exact last text hmem

namespace Cursor

/-- The places `c` and `d` stand on the same line, which ends at the character `sep` or with the
text. In the text of `d` nothing follows the line, and offsets are smaller by `shift`. In the text
of `c` the place `next` is the beginning of the next line, or the end of the text if there is none.
-/
structure SameLine (sep : Char) (shift : Nat) (next c d : Cursor) : Prop where
  before : c.before.filter (· ≠ sep) = d.before.filter (· ≠ sep)
  offset : c.offset = d.offset + shift
  not_mem : sep ∉ d.rest
  ends : ∃ ending, (ending = [sep] ∨ ending = [] ∧ next.rest = []) ∧
    c.rest = d.rest ++ (ending ++ next.rest) ∧ next = c.pass (d.rest ++ ending) next.rest

namespace SameLine

variable {sep : Char} {shift : Nat} {next c d e c' e' : Cursor}

/-! ## What a place sees -/

theorem le_next (h : SameLine sep shift next c d) : c ≤ next := by
  obtain ⟨ending, -, hrest, hnext⟩ := h.ends
  exact ⟨d.rest ++ ending, by rw [hrest, List.append_assoc], hnext⟩

theorem any_before (h : SameLine sep shift next c d) {p : Char → Bool} (hp : p sep = false) :
    c.before.any p = d.before.any p := by
  have hfilter : ∀ before : Option Char, before.any p = (before.filter (· ≠ sep)).any p := by
    intro before
    cases before with
    | none => rfl
    | some x =>
        by_cases hx : x = sep
        · simp [hx, hp]
        · simp [hx]
  rw [hfilter, h.before, ← hfilter]

theorem any_head? (h : SameLine sep shift next c d) {p : Char → Bool} (hp : p sep = false) :
    c.rest.head?.any p = d.rest.head?.any p := by
  obtain ⟨ending, hending, hrest, -⟩ := h.ends
  rw [hrest]
  cases d.rest with
  | cons x rest => rfl
  | nil =>
      rcases hending with rfl | ⟨rfl, hnil⟩
      · simp [hp]
      · simp [hnil]

/-- At the end of the line the text of `c` ends or goes on with `sep`. -/
theorem rest_eq (h : SameLine sep shift next c d) (hd : d.rest = []) :
    c.rest = [] ∨ c.rest = sep :: next.rest := by
  obtain ⟨ending, rfl | ⟨rfl, hnil⟩, hrest, -⟩ := h.ends
  · exact .inr (by rw [hrest, hd]; rfl)
  · exact .inl (by rw [hrest, hd, hnil]; rfl)

/-! ## Passing characters of the line -/

theorem pass (h : SameLine sep shift next c d) {passed rest : List Char}
    (hd : d.rest = passed ++ rest) :
    ∃ c', c' = c.pass passed c'.rest ∧ c.rest = passed ++ c'.rest ∧
      SameLine sep shift next c' (d.pass passed rest) := by
  obtain ⟨ending, hending, hrest, hnext⟩ := h.ends
  refine ⟨c.pass passed (rest ++ (ending ++ next.rest)), rfl, ?_, ?_, ?_, ?_, ending, hending, rfl,
    ?_⟩
  · rw [hrest, hd, List.append_assoc]
    rfl
  · rw [before_pass, before_pass]
    cases passed.getLast? with
    | none => exact h.before
    | some x => rfl
  · have hoff := h.offset
    show c.offset + byteSize passed = d.offset + byteSize passed + shift
    omega
  · have hnot := h.not_mem
    rw [hd, List.mem_append, not_or] at hnot
    exact hnot.2
  · show next = (c.pass passed _).pass (rest ++ ending) next.rest
    rw [pass_pass, ← List.append_assoc, ← hd]
    exact hnext

/-- Every place that follows in the text of `d` has its like in that of `c`. -/
theorem exists_of_le (h : SameLine sep shift next c d) (hde : d ≤ e) :
    ∃ c', c ≤ c' ∧ SameLine sep shift next c' e := by
  obtain ⟨passed, hrest, he⟩ := hde
  obtain ⟨c', hc', hcrest, hsame⟩ := h.pass hrest
  rw [← he] at hsame
  exact ⟨c', ⟨passed, hcrest, hc'⟩, hsame⟩

/-- Every place that follows in the text of `c` before the next line has its like in that of `d`. -/
theorem exists_of_lt_next (h : SameLine sep shift next c d) (hc : c ≤ c')
    (hlt : c'.offset < next.offset) : ∃ e, d ≤ e ∧ SameLine sep shift next c' e := by
  obtain ⟨passed, hrest, hpass⟩ := hc
  obtain ⟨ending, hending, hends, hnext⟩ := h.ends
  have hsize : next.offset = c.offset + byteSize (d.rest ++ ending) := by rw [hnext]; rfl
  have hoff : c'.offset = c.offset + byteSize passed := by rw [hpass]; rfl
  -- What was passed stops short of the next line, so that it is text of the line only.
  obtain ⟨behind, hd⟩ : ∃ behind, d.rest = passed ++ behind := by
    rw [hends, ← List.append_assoc] at hrest
    rcases List.append_eq_append_iff.mp hrest with ⟨more, hmore, -⟩ | ⟨short, hshort, -⟩
    · rw [hmore, byteSize_append] at hoff
      omega
    · rcases List.append_eq_append_iff.mp hshort with ⟨more, hmore, hending'⟩ | ⟨behind, hd, -⟩
      · rcases hending with rfl | ⟨rfl, -⟩
        · cases more with
          | nil => exact ⟨[], by rw [hmore, List.append_nil, List.append_nil]⟩
          | cons x more =>
              obtain ⟨-, hnil⟩ := List.append_eq_nil_iff.mp (List.cons.inj hending').2.symm
              rw [hshort, hnil, List.append_nil] at hsize
              omega
        · obtain ⟨rfl, rfl⟩ := List.append_eq_nil_iff.mp hending'.symm
          rw [hshort, List.append_nil] at hsize
          omega
      · exact ⟨behind, hd⟩
  obtain ⟨c'', hc'', hcrest, hsame⟩ := h.pass hd
  have hrest' : c'.rest = c''.rest := by
    rw [hrest] at hcrest
    exact List.append_cancel_left hcrest
  have heq : c' = c'' := by rw [hpass, hc'', hrest']
  exact ⟨_, ⟨passed, hd, rfl⟩, heq ▸ hsame⟩

theorem textTo_eq (h : SameLine sep shift next c d) (h' : SameLine sep shift next c' e)
    (hde : d ≤ e) : c.textTo c' = d.textTo e := by
  obtain ⟨passed, hrest, he⟩ := hde
  obtain ⟨ending, -, hends, -⟩ := h.ends
  have hoff : e.offset - d.offset = byteSize passed := by
    rw [he]
    exact Nat.add_sub_cancel_left ..
  have hoff' : c'.offset - c.offset = byteSize passed := by
    rw [h.offset, h'.offset, ← hoff]
    omega
  rw [textTo, textTo, hoff, hoff', hends, hrest, List.append_assoc, takeBytes_append,
    takeBytes_append]

theorem textTo_next (h : SameLine sep shift next c d) :
    ∃ ending, (ending = [sep] ∨ ending = [] ∧ next.rest = []) ∧
      c.textTo next = d.rest ++ ending := by
  obtain ⟨ending, hending, hrest, -⟩ := h.ends
  refine ⟨ending, hending, ?_⟩
  have := rest_eq_textTo_append h.le_next
  rw [hrest, ← List.append_assoc] at this
  exact (List.append_cancel_right this).symm

/-- What reaches behind the line holds the character that ends it, unless the text ends there. -/
theorem mem_textTo (h : SameLine sep shift next c d) (he : next ≤ e) (hne : next.rest ≠ []) :
    sep ∈ c.textTo e := by
  obtain ⟨ending, hending, htext⟩ := h.textTo_next
  rw [← textTo_append_textTo h.le_next he, htext]
  rcases hending with rfl | ⟨-, hnil⟩
  · simp
  · exact absurd hnil hne

end SameLine

/-! ## Places between two others -/

/-- A character of the text between two places stands at a place between them. -/
theorem exists_of_mem_textTo {x : Char} {c stop : Cursor} (h : c ≤ stop) (hx : x ∈ c.textTo stop) :
    ∃ d rest, c ≤ d ∧ d < stop ∧ d.textTo stop = x :: rest := by
  obtain ⟨passed, rest, htext⟩ := List.append_of_mem hx
  have hrest := rest_eq_textTo_append h
  rw [htext, List.append_assoc] at hrest
  have hcd := c.le_pass hrest
  have hlt : (c.pass passed (x :: rest ++ stop.rest)).offset < stop.offset := by
    rw [offset_eq_add_byteSize_textTo h, htext, byteSize_append, byteSize_cons]
    have := x.utf8Size_pos
    show c.offset + byteSize passed < _
    omega
  refine ⟨_, rest, hcd, lt_of_offset_lt hcd h hlt, ?_⟩
  have hsplit := rest_eq_textTo_append (le_of_offset_le hcd h (Nat.le_of_lt hlt))
  exact (List.append_cancel_right hsplit).symm

/-- Whatever stands at a place between two others is a character of the text between them. -/
theorem mem_textTo {x : Char} {c d stop : Cursor} {rest : List Char} (hcd : c ≤ d) (hds : d < stop)
    (hd : d.rest = x :: rest) : x ∈ c.textTo stop := by
  have hsplit := rest_eq_textTo_append hds.le
  rw [← textTo_append_textTo hcd hds.le]
  refine List.mem_append_right _ ?_
  cases htext : d.textTo stop with
  | nil => exact absurd ((textTo_eq_nil_iff hds.le).mp htext) hds.ne
  | cons y text =>
      rw [hd, htext] at hsplit
      exact (List.cons.inj hsplit).1 ▸ List.mem_cons_self

/-! ## The line of a place -/

theorem sameLine_of_append {sep : Char} {c d : Cursor} {shift : Nat} {more : List Char}
    (hbefore : c.before.filter (· ≠ sep) = d.before.filter (· ≠ sep))
    (hoffset : c.offset = d.offset + shift) (hnot : sep ∉ d.rest)
    (hrest : c.rest = d.rest ++ sep :: more) :
    SameLine sep shift (c.pass (d.rest ++ [sep]) more) c d :=
  ⟨hbefore, hoffset, hnot, [sep], .inl rfl, hrest, rfl⟩

theorem sameLine_of_rest_eq {sep : Char} {c d : Cursor} {shift : Nat}
    (hbefore : c.before.filter (· ≠ sep) = d.before.filter (· ≠ sep))
    (hoffset : c.offset = d.offset + shift) (hnot : sep ∉ d.rest) (hrest : c.rest = d.rest) :
    SameLine sep shift c.atEnd c d := by
  refine ⟨hbefore, hoffset, hnot, [], .inr ⟨rfl, rfl⟩, ?_, ?_⟩
  · rw [hrest]
    exact (List.append_nil _).symm
  · rw [List.append_nil, ← hrest]
    rfl

/-- The rest of the line from a place on can be taken as the rest of a text. -/
theorem exists_sameLine (sep : Char) (c : Cursor) :
    ∃ next d, d.before = c.before ∧ SameLine sep 0 next c d := by
  by_cases hmem : sep ∈ c.rest
  · obtain ⟨line, more, hrest, hnot⟩ := List.eq_append_cons_of_mem hmem
    exact ⟨_, ⟨c.passed, line, c.offset⟩, rfl, sameLine_of_append rfl rfl hnot hrest⟩
  · exact ⟨c.atEnd, c, rfl, sameLine_of_rest_eq rfl rfl hmem rfl⟩

end Cursor

/-! ## Lines of a text -/

/-- Lines that follow each other from an offset on, each taken as a text of its own. One byte ends
every line but the last. -/
def linesFrom : (offset : Nat) → (lines : List (List Char)) → List Cursor
  | _, [] => []
  | offset, line :: lines => .atStart line offset :: linesFrom (offset + byteSize line + 1) lines

def linesOf (text : String) : List Cursor :=
  linesFrom 0 (text.toList.splitOn '\n')

theorem not_mem_of_mem_splitOn (text : List Char) :
    ∀ line ∈ text.splitOn '\n', '\n' ∉ line := by
  induction text using lines_induction '\n' with
  | last line hnot =>
      rw [List.splitOn_eq_singleton hnot]
      exact List.forall_mem_singleton.mpr hnot
  | cons line more hnot ih =>
      rw [List.splitOn_append_cons_self_of_not_mem hnot]
      exact List.forall_mem_cons.mpr ⟨hnot, ih⟩

theorem rest_mem_of_mem_linesFrom {lines : List (List Char)} {line : Cursor} :
    ∀ {offset : Nat}, line ∈ linesFrom offset lines → line.rest ∈ lines := by
  induction lines with
  | nil => exact fun h => absurd h List.not_mem_nil
  | cons first lines ih =>
      intro offset h
      rcases List.mem_cons.mp h with rfl | h
      · exact List.mem_cons_self
      · exact List.mem_cons_of_mem _ (ih h)

theorem not_mem_of_mem_linesOf {text : String} {line : Cursor} (h : line ∈ linesOf text) :
    '\n' ∉ line.rest :=
  not_mem_of_mem_splitOn _ _ (rest_mem_of_mem_linesFrom h)

end CodeTint
