import Mathlib.Order.Basic
import Mathlib.Tactic.Common
import CodeTint.Highlight.Basic
import CodeTint.Text.Cursor

/-!
# The order of places

Places of one text are ordered by what lies between them: `c ≤ d` says that `d` is reached from `c`
by passing over characters. From a common earlier place, offsets decide everything: of two such
places the one with the smaller offset comes first, and places of equal offset are equal
(`Cursor.le_of_offset_le`, `Cursor.eq_of_offset_eq`).
-/

namespace CodeTint

/-! ## Sizes -/

theorem byteSize_pos {text : List Char} (h : text ≠ []) : 0 < byteSize text := by
  cases text with
  | nil => exact absurd rfl h
  | cons x text =>
      have := x.utf8Size_pos
      simp only [byteSize_cons]
      omega

@[simp] theorem byteSize_eq_zero_iff {text : List Char} : byteSize text = 0 ↔ text = [] := by
  refine ⟨fun h => ?_, fun h => by rw [h, byteSize_nil]⟩
  by_contra hne
  exact absurd h (Nat.pos_iff_ne_zero.mp (byteSize_pos hne))

theorem byteSize_eq_utf8ByteSize (text : List Char) :
    byteSize text = (String.ofList text).utf8ByteSize := by
  induction text with
  | nil => rfl
  | cons x text ih =>
      rw [byteSize_cons, ih, ← List.singleton_append, String.ofList_append,
        String.utf8ByteSize_append, ← String.singleton_eq_ofList, String.utf8ByteSize_singleton]

theorem byteSize_toList (text : String) : byteSize text.toList = text.utf8ByteSize := by
  rw [byteSize_eq_utf8ByteSize, String.ofList_toList]

@[simp] theorem takeBytes_append (a b : List Char) : takeBytes (byteSize a) (a ++ b) = a := by
  induction a with
  | nil => cases b <;> simp [takeBytes]
  | cons x a ih => simp [takeBytes, Nat.pos_iff_ne_zero.mp x.utf8Size_pos, ih]

@[simp] theorem dropBytes_append (a b : List Char) : dropBytes (byteSize a) (a ++ b) = b := by
  induction a with
  | nil => cases b <;> simp [dropBytes]
  | cons x a ih => simp [dropBytes, Nat.pos_iff_ne_zero.mp x.utf8Size_pos, ih]

namespace Cursor

/-! ## The order -/

@[simp] theorem rest_pass (c : Cursor) (passed rest : List Char) :
    (c.pass passed rest).rest = rest := rfl

@[simp] theorem before_pass (c : Cursor) (passed rest : List Char) :
    (c.pass passed rest).before = passed.getLast?.or c.before := by
  rw [before, pass, List.head?_append, List.head?_reverse, before]

theorem le_pass (c : Cursor) {passed rest : List Char} (h : c.rest = passed ++ rest) :
    c ≤ c.pass passed rest :=
  ⟨passed, h, rfl⟩

theorem offset_le {c d : Cursor} (h : c ≤ d) : c.offset ≤ d.offset := by
  obtain ⟨passed, -, hd⟩ := h
  rw [hd]
  exact Nat.le_add_right _ _

theorem offset_add_byteSize {c d : Cursor} (h : c ≤ d) :
    d.offset + byteSize d.rest = c.offset + byteSize c.rest := by
  obtain ⟨passed, hrest, hd⟩ := h
  rw [hrest, byteSize_append]
  have : d.offset = c.offset + byteSize passed := by rw [hd]; rfl
  omega

instance : PartialOrder Cursor where
  le_refl := le_self
  le_trans _ _ _ := le_of_le
  le_antisymm c d := by
    rintro ⟨a, hc, hd⟩ hdc
    have hoff : d.offset = c.offset + byteSize a := by rw [hd]; rfl
    have hle := offset_le hdc
    obtain rfl : a = [] := byteSize_eq_zero_iff.mp (by omega)
    rw [List.nil_append] at hc
    rw [hd, ← hc, pass_nil]

theorem lt_iff {c d : Cursor} : c < d ↔ c ≤ d ∧ c.offset < d.offset := by
  rw [lt_iff_le_not_ge]
  refine and_congr_right fun h => ⟨fun hne => ?_, fun hlt hge => ?_⟩
  · by_contra hnlt
    obtain ⟨passed, hrest, hd⟩ := h
    have hoff : d.offset = c.offset + byteSize passed := by rw [hd]; rfl
    obtain rfl : passed = [] := byteSize_eq_zero_iff.mp (by omega)
    rw [List.nil_append] at hrest
    rw [← hrest, pass_nil] at hd
    exact hne (hd ▸ le_refl _)
  · exact absurd (offset_le hge) (Nat.not_le.mpr hlt)

theorem lt_pass (c : Cursor) {passed rest : List Char} (h : c.rest = passed ++ rest)
    (hne : passed ≠ []) : c < c.pass passed rest :=
  lt_iff.mpr ⟨c.le_pass h, Nat.lt_add_of_pos_right (byteSize_pos hne)⟩

/-- Of two places behind a common one, the one with the smaller offset comes first. -/
theorem le_of_offset_le {a c d : Cursor} (hc : a ≤ c) (hd : a ≤ d) (h : c.offset ≤ d.offset) :
    c ≤ d := by
  obtain ⟨p, hp, hcp⟩ := hc
  obtain ⟨q, hq, hdq⟩ := hd
  have hpo : c.offset = a.offset + byteSize p := by rw [hcp]; rfl
  have hqo : d.offset = a.offset + byteSize q := by rw [hdq]; rfl
  rcases List.append_eq_append_iff.mp (hp.symm.trans hq) with ⟨m, hqm, hrest⟩ | ⟨m, hpm, hrest⟩
  · refine ⟨m, hrest, ?_⟩
    conv_lhs => rw [hdq, hqm, ← pass_pass a p m c.rest]
    rw [← hcp]
  · rw [hpm, byteSize_append] at hpo
    obtain rfl : m = [] := byteSize_eq_zero_iff.mp (by omega)
    rw [List.append_nil] at hpm
    rw [List.nil_append] at hrest
    rw [hcp, hdq, hpm, hrest]

theorem eq_of_offset_eq {a c d : Cursor} (hc : a ≤ c) (hd : a ≤ d) (h : c.offset = d.offset) :
    c = d :=
  le_antisymm (le_of_offset_le hc hd (Nat.le_of_eq h))
    (le_of_offset_le hd hc (Nat.le_of_eq h.symm))

theorem eq_of_le_of_offset_eq {c d : Cursor} (h : c ≤ d) (hoff : c.offset = d.offset) : c = d :=
  eq_of_offset_eq (le_refl c) h hoff

theorem lt_of_offset_lt {a c d : Cursor} (hc : a ≤ c) (hd : a ≤ d) (h : c.offset < d.offset) :
    c < d :=
  lt_iff.mpr ⟨le_of_offset_le hc hd (Nat.le_of_lt h), h⟩

theorem lt_or_le {a c d : Cursor} (hc : a ≤ c) (hd : a ≤ d) : c < d ∨ d ≤ c :=
  (Nat.lt_or_ge c.offset d.offset).imp (lt_of_offset_lt hc hd) (le_of_offset_le hd hc)

theorem rest_length_lt_of_next {c e : Cursor} (h : c.next? = some e) :
    e.rest.length < c.rest.length := by
  obtain ⟨passed, rest, offset⟩ := c
  cases rest with
  | nil => cases h
  | cons x rest =>
      obtain rfl := Option.some.inj h
      exact Nat.lt_succ_self _

/-- A place behind `c` is `c` or lies behind the next character. -/
theorem eq_or_next_le {c d : Cursor} (h : c ≤ d) : c = d ∨ ∃ e, c.next? = some e ∧ e ≤ d := by
  obtain ⟨passed, hrest, hd⟩ := h
  cases passed with
  | nil =>
      rw [List.nil_append] at hrest
      rw [← hrest, pass_nil] at hd
      exact Or.inl hd.symm
  | cons x passed =>
      obtain ⟨prior, rest, offset⟩ := c
      simp only [List.cons_append] at hrest
      subst hrest
      exact Or.inr ⟨_, rfl, passed, rfl, by
        conv_lhs => rw [hd]
        simp [pass, Nat.add_assoc]⟩

theorem next_le_of_lt {c d e : Cursor} (h : c < d) (he : c.next? = some e) : e ≤ d := by
  rcases eq_or_next_le h.le with rfl | ⟨e', he', hle⟩
  · exact absurd h (lt_irrefl _)
  · rw [he] at he'
    exact Option.some.inj he' ▸ hle

theorem next_eq_none_iff {c : Cursor} : c.next? = none ↔ c.rest = [] := by
  obtain ⟨passed, rest, offset⟩ := c
  cases rest <;> simp [next?]

theorem eq_of_le_of_rest_nil {c d : Cursor} (h : c ≤ d) (hc : c.rest = []) : c = d := by
  rcases eq_or_next_le h with rfl | ⟨e, he, -⟩
  · rfl
  · rw [next_eq_none_iff.mpr hc] at he
    cases he

theorem rest_length_le {c d : Cursor} (h : c ≤ d) : d.rest.length ≤ c.rest.length := by
  obtain ⟨passed, hrest, -⟩ := h
  rw [hrest, List.length_append]
  exact Nat.le_add_left _ _

theorem rest_length_lt {c d : Cursor} (h : c < d) : d.rest.length < c.rest.length := by
  obtain ⟨⟨passed, hrest, hd⟩, hlt⟩ := lt_iff.mp h
  have hoff : d.offset = c.offset + byteSize passed := by rw [hd]; rfl
  have hne : passed ≠ [] := fun h => by rw [h, byteSize_nil] at hoff; omega
  rw [hrest, List.length_append]
  have := List.length_pos_iff.mpr hne
  omega

theorem rest_ne_nil_of_lt {c d : Cursor} (h : c < d) : c.rest ≠ [] :=
  List.ne_nil_of_length_pos (Nat.zero_lt_of_lt (rest_length_lt h))

/-! ## The end of the text -/

theorem le_atEnd (c : Cursor) : c ≤ c.atEnd :=
  ⟨c.rest, by simp [atEnd], rfl⟩

theorem le_atEnd_of_le {c d : Cursor} (h : c ≤ d) : d ≤ c.atEnd := by
  refine le_of_offset_le h c.le_atEnd ?_
  have := offset_add_byteSize h
  show d.offset ≤ c.offset + byteSize c.rest
  omega

theorem atEnd_eq_of_le {c d : Cursor} (h : c ≤ d) : d.atEnd = c.atEnd :=
  eq_of_offset_eq (h.trans d.le_atEnd) c.le_atEnd (offset_add_byteSize h)

/-! ## The text between two places -/

theorem rest_eq_textTo_append {c d : Cursor} (h : c ≤ d) : c.rest = c.textTo d ++ d.rest := by
  obtain ⟨passed, hrest, hd⟩ := h
  have hoff : d.offset - c.offset = byteSize passed := by rw [hd]; exact Nat.add_sub_cancel_left ..
  rw [textTo, hoff, hrest, takeBytes_append]

theorem textTo_subset {c d : Cursor} (h : c ≤ d) : c.textTo d ⊆ c.rest := by
  rw [rest_eq_textTo_append h]
  exact List.subset_append_left _ _

theorem rest_subset {c d : Cursor} (h : c ≤ d) : d.rest ⊆ c.rest := by
  rw [rest_eq_textTo_append h]
  exact List.subset_append_right _ _

theorem eq_pass_textTo {c d : Cursor} (h : c ≤ d) : d = c.pass (c.textTo d) d.rest := by
  obtain ⟨passed, hrest, hd⟩ := h
  have hoff : d.offset - c.offset = byteSize passed := by rw [hd]; exact Nat.add_sub_cancel_left ..
  rw [textTo, hoff, hrest, takeBytes_append]
  exact hd

theorem offset_eq_add_byteSize_textTo {c d : Cursor} (h : c ≤ d) :
    d.offset = c.offset + byteSize (c.textTo d) := by
  conv_lhs => rw [eq_pass_textTo h]
  rfl

theorem passed_eq_textTo_append {c d : Cursor} (h : c ≤ d) :
    d.passed = (c.textTo d).reverse ++ c.passed := by
  conv_lhs => rw [eq_pass_textTo h]
  rfl

theorem before_eq_getLast?_textTo {c d : Cursor} (h : c ≤ d) :
    d.before = (c.textTo d).getLast?.or c.before := by
  conv_lhs => rw [eq_pass_textTo h]
  exact c.before_pass _ _

theorem textTo_pass {c : Cursor} {passed rest : List Char} (h : c.rest = passed ++ rest) :
    c.textTo (c.pass passed rest) = passed := by
  have hrest := rest_eq_textTo_append (c.le_pass h)
  rw [h] at hrest
  exact (List.append_cancel_right hrest).symm

theorem textTo_append_textTo {c d e : Cursor} (hcd : c ≤ d) (hde : d ≤ e) :
    c.textTo d ++ d.textTo e = c.textTo e := by
  have h := rest_eq_textTo_append hcd
  rw [rest_eq_textTo_append hde, rest_eq_textTo_append (hcd.trans hde), ← List.append_assoc] at h
  exact (List.append_cancel_right h).symm

theorem textTo_atEnd (c : Cursor) : c.textTo c.atEnd = c.rest := by
  have h := rest_eq_textTo_append c.le_atEnd
  rw [show c.atEnd.rest = [] from rfl, List.append_nil] at h
  exact h.symm

theorem textTo_eq_nil_iff {c d : Cursor} (h : c ≤ d) : c.textTo d = [] ↔ c = d := by
  refine ⟨fun hnil => eq_of_le_of_offset_eq h ?_, fun heq => ?_⟩
  · rw [offset_eq_add_byteSize_textTo h, hnil, byteSize_nil, Nat.add_zero]
  · have := offset_eq_add_byteSize_textTo h
    rw [heq] at this ⊢
    exact byteSize_eq_zero_iff.mp (by omega)

end Cursor

/-! ## Excerpts

A text may be searched as if it ended early (`Cursor.cutAt`), or a stretch of it may be taken as a
text of its own (`Cursor.alone`). Either way the places of the excerpt are places of the stretch:
they have the same offsets, and the same text lies between them. What differs is what a place sees
of its neighbours. -/

namespace Cursor

/-! ### Places of an excerpt -/

/-- A place of an excerpt, whatever is said to stand before the excerpt, is a place of the stretch
that sees the text up to the end of the stretch only. -/
theorem exists_of_le_excerpt {c stop e : Cursor} {prior : List Char} (h : c ≤ stop)
    (he : (⟨prior, c.textTo stop, c.offset⟩ : Cursor) ≤ e) :
    ∃ d, c ≤ d ∧ d ≤ stop ∧ e = ⟨(c.textTo d).reverse ++ prior, d.textTo stop, d.offset⟩ := by
  obtain ⟨passed, hrest, hpass⟩ := he
  have hc : c.rest = passed ++ (e.rest ++ stop.rest) := by
    rw [rest_eq_textTo_append h, ← List.append_assoc]
    exact congrArg (· ++ stop.rest) hrest
  have hcd := c.le_pass hc
  have hds : c.pass passed (e.rest ++ stop.rest) ≤ stop := by
    refine le_of_offset_le hcd h ?_
    have hstop := offset_eq_add_byteSize_textTo h
    have hsize : byteSize (c.textTo stop) = byteSize passed + byteSize e.rest :=
      (congrArg byteSize hrest).trans (byteSize_append passed e.rest)
    show c.offset + byteSize passed ≤ stop.offset
    omega
  have hends : (c.pass passed (e.rest ++ stop.rest)).textTo stop = e.rest :=
    (List.append_cancel_right (rest_eq_textTo_append hds)).symm
  refine ⟨_, hcd, hds, ?_⟩
  rw [textTo_pass hc, hends]
  exact hpass

theorem excerpt_le_excerpt {c d stop : Cursor} (prior : List Char) (hcd : c ≤ d)
    (hds : d ≤ stop) :
    (⟨prior, c.textTo stop, c.offset⟩ : Cursor) ≤
      ⟨(c.textTo d).reverse ++ prior, d.textTo stop, d.offset⟩ :=
  ⟨c.textTo d, (textTo_append_textTo hcd hds).symm, by
    rw [pass, ← offset_eq_add_byteSize_textTo hcd]⟩

theorem cutAt_le_cutAt {c d stop : Cursor} (hcd : c ≤ d) (hds : d ≤ stop) :
    c.cutAt stop ≤ d.cutAt stop := by
  have h := excerpt_le_excerpt c.passed hcd hds
  rw [← passed_eq_textTo_append hcd] at h
  exact h

theorem exists_of_le_cutAt {c stop e : Cursor} (h : c ≤ stop) (he : c.cutAt stop ≤ e) :
    ∃ d, c ≤ d ∧ d ≤ stop ∧ e = d.cutAt stop := by
  obtain ⟨d, hcd, hds, rfl⟩ := exists_of_le_excerpt h he
  exact ⟨d, hcd, hds, by rw [cutAt, passed_eq_textTo_append hcd]⟩

theorem exists_of_le_alone {c stop e : Cursor} (h : c ≤ stop) (he : c.alone stop ≤ e) :
    ∃ d, c ≤ d ∧ d ≤ stop ∧ e.offset = d.offset ∧ e.rest = d.textTo stop := by
  obtain ⟨d, hcd, hds, rfl⟩ := exists_of_le_excerpt h he
  exact ⟨d, hcd, hds, rfl, rfl⟩

/-- The text between two places is the same in an excerpt. -/
theorem textTo_eq_of_excerpt {d d' stop e e' : Cursor} (hd : d ≤ d') (hds : d' ≤ stop)
    (hrest : e.rest = d.textTo stop) (he : e.offset = d.offset) (he' : e'.offset = d'.offset) :
    e.textTo e' = d.textTo d' := by
  have hsize : d'.offset - d.offset = byteSize (d.textTo d') := by
    have := offset_eq_add_byteSize_textTo hd
    omega
  rw [textTo, he, he', hrest, hsize, ← textTo_append_textTo hd hds, takeBytes_append]

/-! ### Places of a whole text -/

/-- A place of a whole text has all its characters on one side or the other. -/
theorem toList_eq_textTo_append {text : List Char} {d : Cursor} (h : atStart text 0 ≤ d) :
    text = (atStart text 0).textTo d ++ d.rest :=
  rest_eq_textTo_append h

theorem byteSize_textTo_atStart {text : List Char} {d : Cursor} (h : atStart text 0 ≤ d) :
    byteSize ((atStart text 0).textTo d) = d.offset := by
  rw [offset_eq_add_byteSize_textTo h]
  exact (Nat.zero_add _).symm

theorem offset_atEnd_atStart (text : String) :
    (atStart text.toList 0).atEnd.offset = text.utf8ByteSize :=
  (Nat.zero_add _).trans (byteSize_toList text)

theorem isValid_offset {text : String} {d : Cursor} (h : atStart text.toList 0 ≤ d) :
    (⟨d.offset⟩ : String.Pos.Raw).IsValid text := by
  have htext : text = String.ofList ((atStart text.toList 0).textTo d) ++ String.ofList d.rest := by
    rw [← String.ofList_append, ← toList_eq_textTo_append h, String.ofList_toList]
  have hend := (String.Pos.Raw.isValid_rawEndPos
    (s := String.ofList ((atStart text.toList 0).textTo d))).append_right (String.ofList d.rest)
  rw [← htext] at hend
  convert hend using 1
  rw [String.Pos.Raw.ext_iff, String.byteIdx_rawEndPos, ← byteSize_eq_utf8ByteSize,
    byteSize_textTo_atStart h]

theorem span_text_eq {text : List Char} {c d : Cursor} (h : atStart text 0 ≤ c)
    (category : Option Category) :
    Span.text ⟨category, c.offset, d.offset⟩ text = String.ofList (c.textTo d) := by
  have hdrop : dropBytes c.offset text = c.rest := by
    conv_lhs => rw [toList_eq_textTo_append h, ← byteSize_textTo_atStart h]
    exact dropBytes_append _ _
  rw [Span.text, hdrop, textTo]

/-- The text between two places of an excerpt is the text of the span there. -/
theorem span_text_eq_of_alone {text : List Char} {c stop : Cursor} {s : Stretch}
    (hstart : atStart text 0 ≤ c) (hle : c ≤ stop) (hwithin : c.alone stop ≤ s.start)
    (hs : s.start ≤ s.stop) (category : Option Category) :
    Span.text ⟨category, s.start.offset, s.stop.offset⟩ text = String.ofList s.text := by
  obtain ⟨d, hd, -, hoff, hrest⟩ := exists_of_le_alone hle hwithin
  obtain ⟨e, he, hes, hoff', -⟩ := exists_of_le_alone hle (hwithin.trans hs)
  have hde : d ≤ e := le_of_offset_le hd he (by have := offset_le hs; omega)
  rw [hoff, hoff', span_text_eq (hstart.trans hd), Stretch.text,
    textTo_eq_of_excerpt hde hes hrest hoff hoff']

end Cursor

end CodeTint
