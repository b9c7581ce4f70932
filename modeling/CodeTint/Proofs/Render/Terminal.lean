import CodeTint.Render
import CodeTint.Proofs.Highlight.Lookahead
import CodeTint.Proofs.Highlight.Tokens
import CodeTint.Proofs.Style.Sequence

/-!
# What a terminal shows

A terminal reads what it is sent character by character (`Terminal.step`). A control sequence makes
it show what follows in another way, until the next one. Sent a span in some style, a terminal
without an active sequence shows the text of the span under the sequence of the style and has no
active sequence again (`read_renderSpan`); so nothing of a style reaches what stands around the
span.
-/

namespace CodeTint

/-! ## Terminals -/

/-- How far a control sequence has been read. -/
inductive ControlSequence where
  /-- None is being read. -/
  | none
  /-- The escape character has been read. -/
  | begun
  /-- The bracket behind it has been read, and the given characters, the last one first. -/
  | opened (reversed : List Char)
deriving Repr, DecidableEq

/-- What has become of the characters that a terminal was sent. -/
structure Terminal where
  /-- The characters shown, each with the control sequence that was active. -/
  shown : List (Char × Option String)
  active : Option String
  control : ControlSequence
deriving Repr, DecidableEq

namespace Terminal

def start : Terminal :=
  ⟨[], none, .none⟩

/-- What is active behind a control sequence with the given parameters. -/
def activeBehind (parameters : List Char) : Option String :=
  if parameters = ['0'] then none else some ("\x1b[" ++ String.ofList parameters ++ "m")

/-- The terminal after a character. An escape character that begins no control sequence is refused.
-/
def step (t : Terminal) (c : Char) : Option Terminal :=
  match t.control with
  | .none =>
    if c = '\x1b' then some { t with control := .begun }
    else some { t with shown := t.shown ++ [(c, t.active)] }
  | .begun => if c = '[' then some { t with control := .opened [] } else none
  | .opened reversed =>
    if c = 'm' then some { t with active := activeBehind reversed.reverse, control := .none }
    else some { t with control := .opened (c :: reversed) }

def read (t : Terminal) (text : List Char) : Option Terminal :=
  text.foldlM step t

/-! ## Reading text and control sequences -/

variable {shown : List (Char × Option String)} {active : Option String}

theorem read_append (t : Terminal) (text more : List Char) :
    t.read (text ++ more) = (t.read text).bind (·.read more) :=
  List.foldlM_append

theorem read_cons (t : Terminal) (c : Char) (text : List Char) :
    t.read (c :: text) = (t.step c).bind (·.read text) :=
  List.foldlM_cons

theorem step_text {c : Char} (h : c ≠ '\x1b') :
    step ⟨shown, active, .none⟩ c = some ⟨shown ++ [(c, active)], active, .none⟩ :=
  if_neg h

theorem step_parameter {c : Char} {reversed : List Char} (h : c ≠ 'm') :
    step ⟨shown, active, .opened reversed⟩ c = some ⟨shown, active, .opened (c :: reversed)⟩ :=
  if_neg h

/-- Text without control sequences is shown as it is. -/
theorem read_text {text : List Char} (h : '\x1b' ∉ text) :
    read ⟨shown, active, .none⟩ text = some ⟨shown ++ text.map (·, active), active, .none⟩ := by
  induction text generalizing shown with
  | nil => rw [List.map_nil, List.append_nil]; rfl
  | cons c text ih =>
      rw [List.mem_cons, not_or] at h
      rw [read_cons, step_text (Ne.symm h.1), Option.bind_some, ih h.2, List.append_assoc]
      rfl

theorem read_parameters {parameters reversed : List Char} (h : 'm' ∉ parameters) :
    read ⟨shown, active, .opened reversed⟩ parameters =
      some ⟨shown, active, .opened (parameters.reverse ++ reversed)⟩ := by
  induction parameters generalizing reversed with
  | nil => rfl
  | cons c parameters ih =>
      rw [List.mem_cons, not_or] at h
      rw [read_cons, step_parameter (Ne.symm h.1), Option.bind_some, ih h.2, List.reverse_cons,
        List.append_assoc, List.singleton_append]

theorem read_sequence {parameters : List Char} (h : 'm' ∉ parameters) :
    read ⟨shown, active, .none⟩ ('\x1b' :: '[' :: (parameters ++ ['m'])) =
      some ⟨shown, activeBehind parameters, .none⟩ := by
  show read ⟨shown, active, .opened []⟩ (parameters ++ ['m']) = _
  rw [read_append, read_parameters h, List.append_nil, Option.bind_some]
  show some (Terminal.mk shown (activeBehind parameters.reverse.reverse) .none) = _
  rw [List.reverse_reverse]

/-! ## Reading highlighted text -/

/-- The sequence under which text of a category is shown; none for plain text and plain styles. -/
def sequenceOf (theme : Theme) (category : Option Category) : Option String :=
  category.bind fun category => (theme.styleOf category).sgrSequence?

/-- The characters of a span, under the sequence of its category. -/
def shownSpan (source : List Char) (theme : Theme) (span : Span) : List (Char × Option String) :=
  (span.text source).toList.map (·, sequenceOf theme span.category)

/-- A span is shown in its style, and nothing of the style remains. -/
theorem read_renderSpan {source : List Char} {theme : Theme} {span : Span}
    (h : '\x1b' ∉ (span.text source).toList) :
    read ⟨shown, none, .none⟩ (Ansi.renderSpan source theme span).toList =
      some ⟨shown ++ shownSpan source theme span, none, .none⟩ := by
  unfold Ansi.renderSpan shownSpan sequenceOf
  cases hsequence : span.category.bind fun category => (theme.styleOf category).sgrSequence? with
  | none => exact read_text h
  | some sequence =>
      obtain ⟨category, -, hstyle⟩ := Option.bind_eq_some_iff.mp hsequence
      obtain ⟨parameters, hframe, hm, hzero⟩ := Style.exists_parameters hstyle
      have hbegin : sequence.toList = '\x1b' :: '[' :: (parameters ++ ['m']) := by
        rw [hframe, String.toList_append, String.toList_append,
          String.toList_ofList (l := parameters), List.append_assoc]
        rfl
      have hend : Style.sgrReset.toList = '\x1b' :: '[' :: (['0'] ++ ['m']) := by decide
      rw [String.toList_append, String.toList_append, read_append, read_append, hbegin,
        read_sequence hm, Option.bind_some, activeBehind, if_neg hzero, ← hframe, read_text h,
        Option.bind_some, hend, read_sequence (by decide)]
      rfl

theorem read_render {source : String} {theme : Theme} {spans : List Span}
    (h : ∀ span ∈ spans, '\x1b' ∉ (span.text source.toList).toList) :
    read ⟨shown, none, .none⟩ (Ansi.render source spans theme).toList =
      some ⟨shown ++ spans.flatMap (shownSpan source.toList theme), none, .none⟩ := by
  rw [Ansi.render, String.toList_join, List.flatMap_map]
  induction spans generalizing shown with
  | nil => rw [List.flatMap_nil, List.flatMap_nil, List.append_nil]; rfl
  | cons span spans ih =>
      obtain ⟨hspan, hspans⟩ := List.forall_mem_cons.mp h
      rw [List.flatMap_cons, read_append, read_renderSpan hspan, Option.bind_some, ih hspans,
        List.flatMap_cons, List.append_assoc]

/-- A terminal that is sent highlighted text shows the characters of the source in order, each under
the sequence of the style that the theme has for the category of its span, and has no active
sequence in the end. -/
theorem read_render_highlight (h : Highlighter) (theme : Theme) {source : String}
    (hsource : '\x1b' ∉ source.toList) :
    ∃ terminal, start.read (Ansi.render source (h.highlight source) theme).toList = some terminal ∧
      terminal.shown.map Prod.fst = source.toList ∧
      terminal.shown = (h.highlight source).flatMap (fun span =>
        (span.text source.toList).toList.map fun c =>
          (c, span.category.bind fun category => (theme.styleOf category).sgrSequence?)) ∧
      terminal.active = none ∧ terminal.control = .none := by
  have hflat := h.flatMap_text_highlight source
  have hspans : ∀ span ∈ h.highlight source, '\x1b' ∉ (span.text source.toList).toList := by
    intro span hspan hmem
    exact hsource (hflat ▸ List.mem_flatMap.mpr ⟨span, hspan, hmem⟩)
  refine ⟨_, read_render hspans, ?_, rfl, rfl, rfl⟩
  show ((h.highlight source).flatMap (shownSpan source.toList theme)).map Prod.fst = source.toList
  rw [List.map_flatMap]
  refine Eq.trans (List.flatMap_congr fun span _ => ?_) hflat
  rw [shownSpan, List.map_map]
  exact List.map_id _

/-- A red number beside a string in the plain style. The keyword is in a style of undeclared effects
only, whose sequence has no parameters and becomes active all the same. -/
theorem read_render_highlight_beside_plain :
    '\x1b' ∉ "if 1\"a\"".toList ∧
      ∃ terminal, start.read (Ansi.render "if 1\"a\""
          (Highlighter.quotesAndNumbers.highlight "if 1\"a\"")
          { Theme.initial with
            string := .plain, number := .colored (.named .red),
            keyword := { Style.plain with effects := ⟨0x40⟩ } }).toList = some terminal ∧
        terminal.shown =
          [('i', some "\x1b[m"), ('f', some "\x1b[m"), (' ', none), ('1', some "\x1b[31m"),
            ('"', none), ('a', none), ('"', none)] ∧
        terminal.active = none := by
  have hsource : '\x1b' ∉ "if 1\"a\"".toList := by decide
  obtain ⟨terminal, hread, -, hshown, hactive, -⟩ := read_render_highlight
    Highlighter.quotesAndNumbers
    { Theme.initial with
      string := .plain, number := .colored (.named .red),
      keyword := { Style.plain with effects := ⟨0x40⟩ } }
    hsource
  exact ⟨hsource, terminal, hread, hshown.trans (by decide +kernel), hactive⟩

end Terminal

end CodeTint
