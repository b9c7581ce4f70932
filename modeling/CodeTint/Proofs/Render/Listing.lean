import CodeTint.Render
import CodeTint.Proofs.Highlight.Tokens
import CodeTint.Proofs.Text.Literals

/-!
# Listings are read back

A listing has one line for each classified span (`toList_render`). No line feed stands within a
line, so the listing falls apart into the lines it was written from (`linesIn_flatMap`), and a line
gives back the entry that was written on it (`readLine?_line`): a tab stands neither in the name of
a category nor in an offset, and what the text of the entry holds is behind the second tab.
-/

namespace CodeTint.Tokens

/-! ## Reading listings -/

/-- What a line of a listing says: a stretch of the source by its bytes, its category and its text.
-/
structure Entry where
  category : Category
  start : Nat
  stop : Nat
  text : String
deriving Repr, DecidableEq

/-- The lines of a text. What is behind the last line feed is a line unless it is empty. -/
def linesIn (text : List Char) : List (List Char) :=
  let lines := text.splitOn '\n'
  if lines.getLast? = some [] then lines.dropLast else lines

/-- What stands before the first separator, and what stands behind it. -/
def cutAtFirst? (separator : Char) : (text : List Char) → Option (List Char × List Char)
  | [] => none
  | c :: text =>
    if c = separator then some ([], text)
    else (cutAtFirst? separator text).map fun (before, behind) => (c :: before, behind)

/-- Two offsets with two dots between them. -/
def readOffsets? (text : List Char) : Option (Nat × Nat) :=
  match cutAtFirst? '.' text with
  | some (start, '.' :: stop) => do return (← digitsValue? 10 start, ← digitsValue? 10 stop)
  | _ => none

/-- The entry on a line: the name of its category, its offsets and its text, with tabs between them.
-/
def readLine? (line : List Char) : Option Entry := do
  let (name, behind) ← cutAtFirst? '\t' line
  let (offsets, text) ← cutAtFirst? '\t' behind
  let category ← Category.all.find? (·.name = String.ofList name)
  let (start, stop) ← readOffsets? offsets
  return ⟨category, start, stop, ← unquote? text⟩

/-! ## Lines -/

theorem splitOn_flatMap {lines : List (List Char)} (h : ∀ line ∈ lines, '\n' ∉ line) :
    (lines.flatMap (· ++ ['\n'])).splitOn '\n' = lines ++ [[]] := by
  induction lines with
  | nil => rfl
  | cons line lines ih =>
      obtain ⟨hline, hlines⟩ := List.forall_mem_cons.mp h
      rw [List.flatMap_cons, List.append_assoc, List.singleton_append,
        List.splitOn_append_cons_self_of_not_mem hline, ih hlines]
      rfl

theorem linesIn_flatMap {lines : List (List Char)} (h : ∀ line ∈ lines, '\n' ∉ line) :
    linesIn (lines.flatMap (· ++ ['\n'])) = lines := by
  rw [linesIn, splitOn_flatMap h, List.getLast?_concat, List.dropLast_concat]
  exact if_pos rfl

/-! ## Entries -/

theorem cutAtFirst?_append {separator : Char} {before : List Char} (h : separator ∉ before)
    (behind : List Char) :
    cutAtFirst? separator (before ++ separator :: behind) = some (before, behind) := by
  induction before with
  | nil => exact if_pos rfl
  | cons c before ih =>
      rw [List.mem_cons, not_or] at h
      rw [List.cons_append, cutAtFirst?, if_neg (Ne.symm h.1), ih h.2, Option.map_some]

def offsetsText (start stop : Nat) : List Char :=
  decimalDigits start ++ '.' :: '.' :: decimalDigits stop

theorem readOffsets?_offsetsText (start stop : Nat) :
    readOffsets? (offsetsText start stop) = some (start, stop) := by
  have hdot : '.' ∉ decimalDigits start := not_mem_decimalDigits (by decide) start
  rw [readOffsets?, offsetsText, cutAtFirst?_append hdot]
  simp [digitsValue?_decimalDigits]

theorem not_mem_offsetsText {c : Char} (hdot : c ≠ '.') (hc : digitValue? 10 c = none)
    (start stop : Nat) : c ∉ offsetsText start stop := by
  simp [offsetsText, not_mem_decimalDigits hc, hdot]

def Entry.line (entry : Entry) : List Char :=
  entry.category.name.toList ++ '\t' :: (offsetsText entry.start entry.stop ++
    '\t' :: (quoted entry.text).toList)

theorem not_mem_name (category : Category) :
    '\t' ∉ category.name.toList ∧ '\n' ∉ category.name.toList := by
  cases category <;> decide

theorem newline_not_mem_line (entry : Entry) : '\n' ∉ entry.line := by
  have hname := (not_mem_name entry.category).2
  have hoffsets : '\n' ∉ offsetsText entry.start entry.stop :=
    not_mem_offsetsText (by decide) (by decide) _ _
  simp [Entry.line, hname, hoffsets, newline_not_mem_quoted]

theorem readLine?_line (entry : Entry) : readLine? entry.line = some entry := by
  have hname := (not_mem_name entry.category).1
  have hoffsets : '\t' ∉ offsetsText entry.start entry.stop :=
    not_mem_offsetsText (by decide) (by decide) _ _
  have hfind : Category.all.find? (·.name = entry.category.name) = some entry.category := by
    cases entry.category <;> decide
  simp [readLine?, Entry.line, cutAtFirst?_append hname, cutAtFirst?_append hoffsets, hfind,
    readOffsets?_offsetsText, unquote?_quoted]

theorem mapM_readLine?_line (entries : List Entry) :
    (entries.map Entry.line).mapM readLine? = some entries := by
  induction entries with
  | nil => rfl
  | cons entry entries ih => simp [readLine?_line, ih]

/-! ## Listings of spans -/

def entryOf? (source : List Char) (span : Span) : Option Entry :=
  span.category.map fun category => ⟨category, span.start, span.stop, span.text source⟩

theorem toList_renderSpan (source : List Char) (span : Span) :
    (renderSpan source span).toList =
      (entryOf? source span).toList.flatMap fun entry => entry.line ++ ['\n'] := by
  unfold renderSpan entryOf?
  cases span.category with
  | none => rfl
  | some category =>
      simp [Entry.line, offsetsText, decimalDigits, Nat.toList_repr]

theorem toList_render (source : String) (spans : List Span) :
    (render source spans).toList =
      ((spans.filterMap (entryOf? source.toList)).map Entry.line).flatMap (· ++ ['\n']) := by
  rw [render, String.toList_join, List.flatMap_map, List.flatMap_map]
  induction spans with
  | nil => rfl
  | cons span spans ih =>
      rw [List.flatMap_cons, ih, toList_renderSpan, List.filterMap_cons]
      cases entryOf? source.toList span <;> simp

theorem linesIn_render (source : String) (spans : List Span) :
    linesIn (render source spans).toList =
      (spans.filterMap (entryOf? source.toList)).map Entry.line := by
  rw [toList_render]
  refine linesIn_flatMap fun line hline => ?_
  obtain ⟨entry, -, rfl⟩ := List.mem_map.mp hline
  exact newline_not_mem_line entry

theorem length_filterMap_entryOf? (source : List Char) (spans : List Span) :
    (spans.filterMap (entryOf? source)).length = (spans.filter (·.category.isSome)).length := by
  rw [List.length_filterMap_eq_countP, List.countP_eq_length_filter]
  simp only [entryOf?, Option.isSome_map]

/-! ## Highlighted text -/

/-- The listing of highlighted text has a line for each classified span, and the lines give back the
category, the bytes and the text of those spans in order. Their bytes do not overlap. -/
theorem mapM_readLine?_render_highlight (h : Highlighter) (source : String) :
    let spans := h.highlight source
    let lines := linesIn (render source spans).toList
    lines.length = (spans.filter (·.category.isSome)).length ∧
      ∃ entries, lines.mapM readLine? = some entries ∧
        entries = spans.filterMap (fun span => span.category.map fun category =>
          ⟨category, span.start, span.stop, span.text source.toList⟩) ∧
        (∀ entry ∈ entries, entry.start < entry.stop) ∧
        entries.Pairwise fun entry next => entry.stop ≤ next.start := by
  intro spans lines
  have hlines : lines = (spans.filterMap (entryOf? source.toList)).map Entry.line :=
    linesIn_render source spans
  refine ⟨?_, spans.filterMap (entryOf? source.toList), ?_, rfl, ?_, ?_⟩
  · rw [hlines, List.length_map, length_filterMap_entryOf?]
  · rw [hlines, mapM_readLine?_line]
  · intro entry hentry
    obtain ⟨span, hspan, heq⟩ := List.mem_filterMap.mp hentry
    obtain ⟨category, -, rfl⟩ := Option.map_eq_some_iff.mp heq
    exact Highlighter.start_lt_stop_of_mem_highlight hspan
  · refine (h.covers_highlight source).pairwise.filterMap _ ?_
    intro span next hle entry hentry entry' hentry'
    obtain ⟨category, -, rfl⟩ := Option.map_eq_some_iff.mp hentry
    obtain ⟨category', -, rfl⟩ := Option.map_eq_some_iff.mp hentry'
    exact hle

-- The tab and the line feed stand in the text of the one span, not between fields or lines.
example :
    let source := "1 \"\t\n\""
    let listing := render source [⟨some .number, 0, 1⟩, ⟨none, 1, 2⟩, ⟨some .string, 2, 6⟩]
    listing = "number\t0..1\t\"1\"\nstring\t2..6\t\"\\\"\\t\\n\\\"\"\n" ∧
      (linesIn listing.toList).mapM readLine? =
        some [⟨.number, 0, 1, "1"⟩, ⟨.string, 2, 6, "\"\t\n\""⟩] := by
  decide +kernel

end CodeTint.Tokens
