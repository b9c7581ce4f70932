import Mathlib.Data.List.Chain
import CodeTint.Proofs.Text.Cursor

/-!
# Spans that cover a text

`Covers a spans b` says that the spans lie one after another between two places of a text. Joining
them (`joinSpans`) drops the empty ones and makes one of plain neighbours, and what is covered stays
the same (`Covers.tiled`). The spans that have a category are not touched by it
(`filter_joinSpans`).
-/

namespace CodeTint

variable {a b c m : Cursor} {spans spans' : List Span}

/-! ## Covering -/

/-- The spans lie one after another from one place to the other. -/
inductive Covers : Cursor → List Span → Cursor → Prop
  | nil (a : Cursor) : Covers a [] a
  | cons {a m b : Cursor} {spans : List Span} (category : Option Category) (le : a ≤ m)
      (rest : Covers m spans b) : Covers a (⟨category, a.offset, m.offset⟩ :: spans) b

namespace Covers

theorem single (category : Option Category) (h : a ≤ b) :
    Covers a [⟨category, a.offset, b.offset⟩] b :=
  .cons category h (.nil b)

theorem le (h : Covers a spans b) : a ≤ b := by
  induction h with
  | nil a => exact le_refl a
  | cons category hle _ ih => exact hle.trans ih

theorem append (h : Covers a spans b) (h' : Covers b spans' c) :
    Covers a (spans ++ spans') c := by
  induction h with
  | nil a => exact h'
  | cons category hle _ ih => exact .cons category hle (ih h')

theorem of_append_singleton {span : Span} (h : Covers a (spans ++ [span]) b) :
    ∃ m, Covers a spans m ∧ m ≤ b ∧ span = ⟨span.category, m.offset, b.offset⟩ := by
  induction spans generalizing a with
  | nil =>
      cases h with
      | cons category hle hrest =>
          cases hrest
          exact ⟨a, .nil a, hle, rfl⟩
  | cons first spans ih =>
      cases h with
      | cons category hle hrest =>
          obtain ⟨m, hm, hmb, hspan⟩ := ih hrest
          exact ⟨m, .cons category hle hm, hmb, hspan⟩

theorem exists_places {span : Span} (h : Covers a spans b) (hspan : span ∈ spans) :
    ∃ c d, a ≤ c ∧ c ≤ d ∧ d ≤ b ∧ span = ⟨span.category, c.offset, d.offset⟩ := by
  induction h with
  | nil a => cases hspan
  | @cons a m b spans category hle hrest ih =>
      rcases List.mem_cons.mp hspan with rfl | hmem
      · exact ⟨a, m, le_refl a, hle, hrest.le, rfl⟩
      · obtain ⟨c, d, hmc, hcd, hdb, hspan⟩ := ih hmem
        exact ⟨c, d, hle.trans hmc, hcd, hdb, hspan⟩

theorem head_start {span : Span} (h : Covers a spans b) (hspan : spans.head? = some span) :
    span.start = a.offset := by
  cases h with
  | nil => cases hspan
  | cons category hle hrest =>
      obtain rfl := Option.some.inj hspan
      rfl

theorem last_stop {span : Span} (h : Covers a spans b) (hspan : spans.getLast? = some span) :
    span.stop = b.offset := by
  obtain ⟨others, rfl⟩ := List.getLast?_eq_some_iff.mp hspan
  obtain ⟨m, -, -, hm⟩ := h.of_append_singleton
  rw [hm]

theorem isChain (h : Covers a spans b) : spans.IsChain fun s t => t.start = s.stop := by
  induction h with
  | nil a => exact .nil
  | @cons a m b spans category hle hrest ih =>
      cases hrest with
      | nil => exact .singleton _
      | cons category' hle' hrest' => exact .cons_cons rfl ih

theorem pairwise (h : Covers a spans b) : spans.Pairwise fun s t => s.stop ≤ t.start := by
  induction h with
  | nil a => exact .nil
  | cons category hle hrest ih =>
      refine .cons (fun span hspan => ?_) ih
      obtain ⟨c, d, hmc, -, -, heq⟩ := hrest.exists_places hspan
      rw [heq]
      exact Cursor.offset_le hmc

/-- The spans hold the text between the two places, each character once and in order. -/
theorem flatMap_text {text : List Char} (h : Covers a spans b) (ha : .atStart text 0 ≤ a) :
    spans.flatMap (fun span => (span.text text).toList) = a.textTo b := by
  induction h with
  | nil a => exact ((Cursor.textTo_eq_nil_iff (le_refl a)).mpr rfl).symm
  | @cons a m b spans category hle hrest ih =>
      rw [List.flatMap_cons, ih (ha.trans hle), Cursor.span_text_eq ha, String.toList_ofList,
        Cursor.textTo_append_textTo hle hrest.le]

end Covers

/-! ## Joining -/

/-- Spans, the last one first, that cover the text between two places in the form in which a text
is highlighted: none is empty, and of two neighbours one has a category. -/
structure Tiled (a : Cursor) (reversed : List Span) (b : Cursor) : Prop where
  covers : Covers a reversed.reverse b
  start_lt_stop : ∀ span ∈ reversed, span.start < span.stop
  apart : reversed.IsChain fun s t => s.category.isSome ∨ t.category.isSome

namespace Tiled

theorem nil (a : Cursor) : Tiled a [] a :=
  ⟨.nil a, fun _ h => (List.not_mem_nil h).elim, .nil⟩

theorem cons {reversed : List Span} {category : Option Category} (h : Tiled a reversed b)
    (hle : b ≤ m) (hne : b.offset < m.offset)
    (happart : ∀ last ∈ reversed.head?, category.isSome ∨ last.category.isSome) :
    Tiled a (⟨category, b.offset, m.offset⟩ :: reversed) m := by
  refine ⟨?_, ?_, ?_⟩
  · rw [List.reverse_cons]
    exact h.covers.append (.single category hle)
  · intro span hspan
    rcases List.mem_cons.mp hspan with rfl | hmem
    · exact hne
    · exact h.start_lt_stop span hmem
  · exact h.apart.cons happart

theorem extend {reversed : List Span} {start stop : Nat}
    (h : Tiled a (⟨none, start, stop⟩ :: reversed) b) (hle : b ≤ m) :
    Tiled a (⟨none, start, m.offset⟩ :: reversed) m := by
  have hcovers := h.covers
  rw [List.reverse_cons] at hcovers
  obtain ⟨c, hc, hcb, hspan⟩ := hcovers.of_append_singleton
  obtain ⟨hstart, hstop⟩ : start = c.offset ∧ stop = b.offset := by simpa using hspan
  subst hstart hstop
  have hlt : c.offset < b.offset := h.start_lt_stop _ List.mem_cons_self
  refine ⟨?_, ?_, List.isChain_cons.mpr (List.isChain_cons.mp h.apart)⟩
  · rw [List.reverse_cons]
    exact hc.append (.single none (hcb.trans hle))
  · intro span hmem
    rcases List.mem_cons.mp hmem with rfl | hmem
    · exact Nat.lt_of_lt_of_le hlt (Cursor.offset_le hle)
    · exact h.start_lt_stop span (List.mem_cons_of_mem _ hmem)

theorem appendSpan {reversed : List Span} (h : Tiled a reversed b) (hle : b ≤ m)
    (category : Option Category) :
    Tiled a (appendSpan reversed ⟨category, b.offset, m.offset⟩) m := by
  unfold CodeTint.appendSpan
  split
  · rename_i hempty
    rw [← Cursor.eq_of_le_of_offset_eq hle (of_decide_eq_true hempty)]
    exact h
  · rename_i hempty
    have hne : b.offset < m.offset :=
      Nat.lt_of_le_of_ne (Cursor.offset_le hle) fun heq => hempty (decide_eq_true heq)
    split
    · rename_i start stop others hcategory
      obtain rfl : category = none := hcategory
      split
      · exact h.extend hle
      · rename_i hstop
        -- The last span ends where the covered text does, so the new one cannot be apart from it.
        have hcovers := h.covers
        rw [List.reverse_cons] at hcovers
        obtain ⟨c, -, -, hspan⟩ := hcovers.of_append_singleton
        exact absurd (congrArg Span.stop hspan) hstop
    · rename_i hlast
      refine h.cons hle hne fun last hmem => ?_
      obtain ⟨others, rfl⟩ := List.head?_eq_some_iff.mp hmem
      obtain ⟨category', start, stop⟩ := last
      cases category with
      | some _ => exact Or.inl rfl
      | none =>
          cases category' with
          | some _ => exact Or.inr rfl
          | none => exact absurd rfl (hlast start stop others rfl)

theorem foldl_appendSpan {reversed : List Span} (h : Tiled a reversed b)
    (hspans : Covers b spans c) : Tiled a (spans.foldl CodeTint.appendSpan reversed) c := by
  induction hspans generalizing reversed with
  | nil b => exact h
  | cons category hle hrest ih => exact ih (h.appendSpan hle category)

end Tiled

theorem Covers.tiled (h : Covers a spans b) : Tiled a (joinSpans spans).reverse b := by
  rw [joinSpans, List.reverse_reverse]
  exact (Tiled.nil a).foldl_appendSpan h

/-! ## Spans with a category -/

/-- The span has a category, and text to which it applies. -/
def Span.isToken (span : Span) : Bool :=
  span.category.isSome && !span.isEmpty

theorem Span.isToken_iff {span : Span} :
    span.isToken ↔ span.category.isSome ∧ span.start ≠ span.stop := by
  simp [isToken, isEmpty]

theorem filter_appendSpan (reversed : List Span) (span : Span) :
    (appendSpan reversed span).filter (·.category.isSome) =
      (if span.isToken then [span] else []) ++ reversed.filter (·.category.isSome) := by
  unfold appendSpan Span.isToken
  split
  · rename_i hempty
    simp [hempty]
  · rename_i hempty
    split
    · rename_i start stop others hcategory
      split <;> simp [hcategory]
    · cases hcategory : span.category <;> simp [hcategory, hempty]

/-- Joining keeps the spans that have a category, and their order. -/
theorem filter_joinSpans (spans : List Span) :
    (joinSpans spans).filter (·.category.isSome) = spans.filter Span.isToken := by
  have hfold : ∀ reversed : List Span, (spans.foldl appendSpan reversed).filter
      (·.category.isSome) =
        (spans.filter Span.isToken).reverse ++ reversed.filter (·.category.isSome) := by
    induction spans with
    | nil => exact fun reversed => rfl
    | cons span spans ih =>
        intro reversed
        rw [List.foldl_cons, ih, filter_appendSpan, List.filter_cons]
        split <;> simp
  rw [joinSpans, List.filter_reverse, hfold]
  simp

/-- A span with a category is in the joined spans if it is among the others and not empty. -/
theorem mem_joinSpans_iff {spans : List Span} {span : Span} {category : Category}
    (hcategory : span.category = some category) :
    span ∈ joinSpans spans ↔ span ∈ spans ∧ span.start ≠ span.stop := by
  have hmem : span ∈ joinSpans spans ↔ span ∈ spans.filter Span.isToken := by
    rw [← filter_joinSpans, List.mem_filter, hcategory]
    simp
  rw [hmem, List.mem_filter, Span.isToken_iff, hcategory]
  simp

end CodeTint
