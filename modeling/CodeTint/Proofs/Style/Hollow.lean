import CodeTint.Config.Basic
import CodeTint.Render
import CodeTint.Proofs.Style.Sequence

/-!
# Styles that select nothing

Whether a style is plain is asked of all of its bits, while the parameters of its escape sequence
come from its colors and its declared effects alone. So a style may select nothing and yet not be
plain: one without colors whose bits are none of the declared ones (`Style.IsHollow`). For such
styles, and only for them, there is an escape sequence without parameters
(`Style.sgrSequence?_eq_some_empty_iff`), and it is written wherever a span has one
(`Ansi.infix_render_iff`).
-/

namespace CodeTint

/-! ## What selects nothing -/

theorem Color.sgrParameters_eq_nil_iff {color : Color} {layer : Layer} :
    color.sgrParameters layer = [] ↔ color = .default := by
  cases color with
  | indexed index =>
      rw [sgrParameters]
      split <;> simp
  | _ => simp [sgrParameters]

namespace Effects

theorem toList_eq_nil_iff {effects : Effects} :
    effects.toList = [] ↔ ∀ effect, effects.contains effect = false := by
  have hall : ∀ effect, effect ∈ Effect.all := fun effect => by cases effect <;> decide
  simp [toList, hall]

theorem ofList_toList_eq_empty_iff {effects : Effects} :
    ofList effects.toList = empty ↔ effects.toList = [] := by
  refine ⟨fun h => toList_eq_nil_iff.mpr fun effect => ?_, fun h => by rw [h]; rfl⟩
  have hbits : effects.bits &&& declaredBits = 0 :=
    congrArg bits ((ofList_toList effects).symm.trans h)
  rw [← contains_and_declaredBits effects.bits effect, hbits]
  cases effect <;> rfl

theorem isEmpty_iff {effects : Effects} :
    effects.isEmpty ↔ effects.toList = [] ∧ effects.undeclared = 0 := by
  rw [isEmpty, decide_eq_true_iff]
  constructor
  · intro h
    obtain rfl : effects = empty := congrArg mk h
    exact ⟨by decide, by decide⟩
  · rintro ⟨htoList, hundeclared⟩
    rw [← ofList_toList_of_undeclared hundeclared, htoList]
    rfl

end Effects

namespace Style

/-- The style selects nothing, but is not the plain one: it has bits that no effect is declared
for. -/
def IsHollow (style : Style) : Prop :=
  style.sgrParameters = [] ∧ style.effects.undeclared ≠ 0

instance (style : Style) : Decidable style.IsHollow :=
  inferInstanceAs (Decidable (_ ∧ _))

variable {style : Style}

theorem sgrParameters_eq_nil_iff :
    style.sgrParameters = [] ↔
      style.foreground = .default ∧ style.background = .default ∧ style.effects.toList = [] := by
  rw [sgrParameters, List.append_eq_nil_iff, List.append_eq_nil_iff,
    Color.sgrParameters_eq_nil_iff, Color.sgrParameters_eq_nil_iff, Effects.sgrParameters,
    List.map_eq_nil_iff]
  tauto

theorem isPlain_iff : style.isPlain ↔ style.sgrParameters = [] ∧ style.effects.undeclared = 0 := by
  rw [sgrParameters_eq_nil_iff, isPlain, Bool.and_eq_true, Bool.and_eq_true, decide_eq_true_iff,
    decide_eq_true_iff, Effects.isEmpty_iff]
  tauto

theorem isPlain_iff_of_not_isHollow (h : ¬ style.IsHollow) :
    style.isPlain ↔ style.sgrParameters = [] :=
  isPlain_iff.trans ⟨And.left, fun hnil => ⟨hnil, not_not.mp fun hne => h ⟨hnil, hne⟩⟩⟩

theorem IsHollow.not_isPlain (h : style.IsHollow) : ¬ style.isPlain :=
  fun hplain => h.2 (isPlain_iff.mp hplain).2

/-- Text that a terminal shows like plain text has a style that selects nothing. -/
theorem shown_eq_plain_iff : style.shown = plain ↔ style.sgrParameters = [] := by
  rw [shown, plain, Style.mk.injEq, Color.byName_eq_default_iff, Color.byName_eq_default_iff,
    Effects.ofList_toList_eq_empty_iff, sgrParameters_eq_nil_iff]

theorem isHollow_iff_of_not_isPlain (h : style.isPlain = false) :
    style.IsHollow ↔ style.sgrParameters = [] := by
  refine ⟨And.left, fun hnil => ⟨hnil, fun hundeclared => ?_⟩⟩
  rw [isPlain_iff.mpr ⟨hnil, hundeclared⟩] at h
  cases h

theorem sgrSequence?_eq_none_iff : style.sgrSequence? = none ↔ style.isPlain := by
  rw [sgrSequence?]
  split
  next h => exact iff_of_true rfl h
  next h => exact iff_of_false (Option.some_ne_none _) h

theorem sgrSequence?_eq_some_empty_iff : style.sgrSequence? = some "\x1b[m" ↔ style.IsHollow := by
  cases hplain : style.isPlain with
  | true =>
      rw [sgrSequence?_eq_none_iff.mpr hplain]
      exact iff_of_false nofun fun h => h.not_isPlain hplain
  | false =>
      rw [sgrSequence?_of_not_isPlain hplain, Option.some.injEq, isHollow_iff_of_not_isPlain hplain]
      constructor
      · intro htext
        have hframe : "\x1b[m" = "\x1b[" ++ String.ofList [] ++ "m" := rfl
        have hnil : parametersText style.sgrParameters = [] :=
          text_eq_of_framed_eq (htext.trans hframe)
        exact not_not.mp fun hne => Sgr.parametersText_ne_nil hne hnil
      · intro hnil
        rw [hnil]
        rfl

theorem toList_of_sgrSequence?_eq_some {sequence : String}
    (h : style.sgrSequence? = some sequence) : style.isPlain = false ∧
      sequence.toList = '\x1b' :: '[' :: parametersText style.sgrParameters ++ ['m'] := by
  have hplain : style.isPlain = false := by
    refine eq_false_of_ne_true fun hplain => ?_
    rw [sgrSequence?_eq_none_iff.mpr hplain] at h
    cases h
  rw [sgrSequence?_of_not_isPlain hplain] at h
  refine ⟨hplain, ?_⟩
  rw [← Option.some.inj h, String.toList_append, String.toList_append,
    String.toList_ofList (l := parametersText _)]
  rfl

end Style

/-! ## Sequences without parameters in highlighted text -/

/-- What begins with a character begins behind any text that does not have this character. -/
theorem infix_append_iff_of_not_mem {α : Type} {c : α} {text : List α} (h : c ∉ text)
    {word rest : List α} : c :: word <:+: text ++ rest ↔ c :: word <:+: rest := by
  induction text with
  | nil => rfl
  | cons d text ih =>
      rw [List.mem_cons, not_or] at h
      rw [List.cons_append, List.infix_cons_iff, List.cons_prefix_cons, ih h.2]
      exact or_iff_right fun hprefix => h.1 hprefix.1

namespace Ansi

/-- An escape sequence without parameters. -/
def emptySequence : List Char := "\x1b[m".toList

variable {source : List Char} {theme : Theme} {rest : List Char}

theorem prefix_sequence_iff (parameters : List Nat) :
    emptySequence <+: '\x1b' :: '[' :: parametersText parameters ++ 'm' :: rest ↔
      parameters = [] := by
  constructor
  · intro hprefix
    by_contra hne
    -- The sequence would have to end where its first parameter begins.
    obtain ⟨c, text, htext⟩ := List.exists_cons_of_ne_nil (Sgr.parametersText_ne_nil hne)
    have hm : 'm' ∉ parametersText parameters :=
      not_mem_parametersText (by decide) (by decide) parameters
    rw [htext] at hprefix hm
    have hc : 'm' = c := by
      simpa [emptySequence, List.cons_prefix_cons] using hprefix
    exact hm (hc ▸ List.mem_cons_self)
  · rintro rfl
    exact List.prefix_append emptySequence rest

theorem infix_sequence_iff (parameters : List Nat) :
    emptySequence <:+: '\x1b' :: '[' :: parametersText parameters ++ 'm' :: rest ↔
      parameters = [] ∨ emptySequence <:+: rest := by
  have hescape : '\x1b' ∉ '[' :: (parametersText parameters ++ ['m']) := by
    have hparameters : '\x1b' ∉ parametersText parameters :=
      not_mem_parametersText (by decide) (by decide) parameters
    simp [hparameters]
  have hsplit : '[' :: parametersText parameters ++ 'm' :: rest =
      '[' :: (parametersText parameters ++ ['m']) ++ rest := by simp
  rw [List.cons_append, List.infix_cons_iff, ← List.cons_append, prefix_sequence_iff, hsplit]
  exact or_congr_right (infix_append_iff_of_not_mem hescape)

theorem infix_text_iff {text : List Char} (h : '\x1b' ∉ text) :
    emptySequence <:+: text ++ rest ↔ emptySequence <:+: rest :=
  infix_append_iff_of_not_mem h

/-- A span brings a sequence without parameters if the style of its category is hollow. -/
theorem infix_renderSpan_iff {span : Span} (h : '\x1b' ∉ (span.text source).toList) :
    emptySequence <:+: (renderSpan source theme span).toList ++ rest ↔
      (∃ category, span.category = some category ∧ (theme.styleOf category).IsHollow) ∨
        emptySequence <:+: rest := by
  have hreset : ∀ rest, emptySequence <:+: Style.sgrReset.toList ++ rest ↔
      emptySequence <:+: rest := fun rest =>
    (infix_sequence_iff [0]).trans (or_iff_right (List.cons_ne_nil _ _))
  rw [renderSpan]
  split
  next sequence hsequence =>
      obtain ⟨category, hcategory, hstyle⟩ := Option.bind_eq_some_iff.mp hsequence
      obtain ⟨hplain, hbegin⟩ := Style.toList_of_sgrSequence?_eq_some hstyle
      rw [String.toList_append, String.toList_append, hbegin, List.append_assoc, List.append_assoc,
        List.append_assoc, List.singleton_append, infix_sequence_iff, infix_text_iff h, hreset,
        ← Style.isHollow_iff_of_not_isPlain hplain, hcategory]
      simp
  next hnone =>
      rw [infix_text_iff h]
      refine (or_iff_right ?_).symm
      rintro ⟨category, hcategory, hhollow⟩
      rw [hcategory, Option.bind_some, Style.sgrSequence?_eq_none_iff] at hnone
      exact hhollow.not_isPlain hnone

/-- In highlighted text without escape characters of its own, a sequence without parameters stands
for every span whose category has a hollow style. -/
theorem infix_render_iff {source : String} {spans : List Span}
    (h : ∀ span ∈ spans, '\x1b' ∉ (span.text source.toList).toList) :
    emptySequence <:+: (render source spans theme).toList ↔
      ∃ span ∈ spans, ∃ category,
        span.category = some category ∧ (theme.styleOf category).IsHollow := by
  rw [render, String.toList_join, List.flatMap_map]
  induction spans with
  | nil => simp [emptySequence]
  | cons span spans ih =>
      obtain ⟨hspan, hspans⟩ := List.forall_mem_cons.mp h
      rw [List.flatMap_cons, infix_renderSpan_iff hspan, ih hspans]
      simp

end Ansi

/-! ## Where nothing is written -/

namespace Style

/-- A style selects nothing if it has neither a declared effect nor a color, and has no escape
sequence if it is plain. Both come to the same unless the style is hollow; and unless it is, the
plain style is the only one in which a terminal shows text as it is. Of a hollow style there is an
escape sequence without parameters. Highlighted text, as long as the text itself has no escape
characters, has such a sequence in it only if the category of one of its spans has a hollow style.
-/
theorem sgrSequence?_eq_none_iff_unless_hollow (style : Style) :
    (style.sgrParameters = [] ↔ style.foreground = .default ∧ style.background = .default ∧
      ∀ effect, style.effects.contains effect = false) ∧
    (style.sgrSequence? = none ↔ style.isPlain) ∧
    ((style.sgrSequence? = none ↔ style.sgrParameters = []) ↔ ¬ style.IsHollow) ∧
    ((style.isPlain ↔ style.shown = plain) ↔ ¬ style.IsHollow) ∧
    (style.sgrSequence? = some "\x1b[m" ↔ style.IsHollow) ∧
    ∀ (theme : Theme) (source : String) (spans : List Span),
      (∀ span ∈ spans, '\x1b' ∉ (span.text source.toList).toList) →
      ("\x1b[m".toList <:+: (Ansi.render source spans theme).toList ↔
        ∃ span ∈ spans, ∃ category,
          span.category = some category ∧ (theme.styleOf category).IsHollow) := by
  have hplain : (style.isPlain ↔ style.sgrParameters = []) ↔ ¬ style.IsHollow :=
    ⟨fun hiff hhollow => hhollow.not_isPlain (hiff.mpr hhollow.1), isPlain_iff_of_not_isHollow⟩
  refine ⟨?_, sgrSequence?_eq_none_iff, ?_, ?_, sgrSequence?_eq_some_empty_iff,
    fun theme source spans h => Ansi.infix_render_iff h⟩
  · rw [sgrParameters_eq_nil_iff, Effects.toList_eq_nil_iff]
  · rw [sgrSequence?_eq_none_iff, hplain]
  · rw [shown_eq_plain_iff, hplain]

/-- Bold text brings a sequence with a parameter, and text of an undeclared effect one without any.
-/
theorem sgrSequence?_eq_none_iff_unless_hollow_seventh_bit :
    let theme : Theme :=
      { Theme.initial with string := ⟨.default, .default, ⟨0x41⟩⟩
                           number := ⟨.default, .default, ⟨0x40⟩⟩ }
    let spans : List Span := [⟨some .number, 0, 1⟩, ⟨some .string, 1, 3⟩]
    (∀ span ∈ spans, '\x1b' ∉ (span.text "1''".toList).toList) ∧
      Ansi.render "1''" spans theme = "\x1b[m1\x1b[0m\x1b[1m''\x1b[0m" ∧
      theme.number.IsHollow ∧ ¬ theme.string.IsHollow ∧
      (theme.string.sgrSequence? = none ↔ theme.string.sgrParameters = []) ∧
      "\x1b[m".toList <:+: (Ansi.render "1''" spans theme).toList := by
  intro theme spans
  have htext : ∀ span ∈ spans, '\x1b' ∉ (span.text "1''".toList).toList := by decide
  have hhollow : theme.number.IsHollow := by decide
  have hnot : ¬ theme.string.IsHollow := by decide
  obtain ⟨-, -, hsequence, -, -, hrender⟩ := sgrSequence?_eq_none_iff_unless_hollow theme.string
  exact ⟨htext, by decide +kernel, hhollow, hnot, hsequence.mpr hnot,
    (hrender theme "1''" spans htext).mpr ⟨⟨some .number, 0, 1⟩, .head _, .number, rfl, hhollow⟩⟩

/-- The style that is read where the effects are the seventh bit selects nothing, and text in it
looks as it is; yet it is not plain, and has an escape sequence. -/
theorem sgrSequence?_of_seventh_bit :
    ∃ style, decoder.ofJson (.ofMembers [("flags", .string "0x40")]) = .ok style ∧
      (style.foreground = .default ∧ style.background = .default ∧
        ∀ effect, style.effects.contains effect = false) ∧
      style.sgrParameters = [] ∧ style.shown = plain ∧ style.isPlain = false ∧
      style.sgrSequence? = some "\x1b[m" ∧
      ¬ (style.sgrSequence? = none ↔ style.sgrParameters = []) := by
  refine ⟨⟨.default, .default, ⟨0x40⟩⟩, by decide +kernel, ⟨rfl, rfl, fun effect => ?_⟩, by decide,
    by decide, by decide, by decide +kernel, fun hiff => ?_⟩
  · cases effect <;> rfl
  · exact absurd (hiff.mpr (by decide)) (by decide +kernel)

end Style

end CodeTint
