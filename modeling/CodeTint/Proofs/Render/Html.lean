import CodeTint.Render
import CodeTint.Proofs.Highlight.Tokens

/-!
# Pages are read back

A page is escaped text and elements of categories, one behind the other (`IsPage`). Taking the tags
out of it leaves the escaped source (`withoutTags_render_highlight`), from which the entities give
back the source itself (`unescape_escape`). Reading it tag by tag gives the spans that it was
written from (`readChars?_written`): plain neighbours could not be told apart, but in highlighted
text there are none.
-/

namespace CodeTint.Html

/-! ## Reading pages -/

/-- The characters with every entity replaced by the one that it stands for. -/
def unescapeChars : List Char → List Char
  | '&' :: 'a' :: 'm' :: 'p' :: ';' :: rest => '&' :: unescapeChars rest
  | '&' :: 'l' :: 't' :: ';' :: rest => '<' :: unescapeChars rest
  | '&' :: 'g' :: 't' :: ';' :: rest => '>' :: unescapeChars rest
  | '&' :: 'q' :: 'u' :: 'o' :: 't' :: ';' :: rest => '"' :: unescapeChars rest
  | '&' :: '#' :: 'x' :: '2' :: '7' :: ';' :: rest => '\'' :: unescapeChars rest
  | c :: rest => c :: unescapeChars rest
  | [] => []

def unescape (text : String) : String :=
  String.ofList (unescapeChars text.toList)

/-- The characters outside of angle brackets. -/
def outsideTags : (inTag : Bool) → (page : List Char) → List Char
  | _, [] => []
  | inTag, c :: page =>
    if c = '<' then outsideTags true page
    else if c = '>' then outsideTags false page
    else if inTag then outsideTags inTag page
    else c :: outsideTags inTag page

def withoutTags (page : String) : String :=
  String.ofList (outsideTags false page.toList)

/-- A tag, by what stands between its brackets, or the text between two tags. -/
inductive Markup where
  | tag (content : String)
  | text (content : String)
deriving Repr, DecidableEq

/-- The tags of a page and the text before, between and behind them. A bracket that opens or closes
no tag is refused. `reversed` holds what has been read of a tag or text, the last character first.
-/
def markupFrom? : (inTag : Bool) → (reversed page : List Char) → Option (List Markup)
  | false, reversed, [] => some [.text (String.ofList reversed.reverse)]
  | true, _, [] => none
  | inTag, reversed, c :: page =>
    if c = '<' then
      if inTag then none
      else (markupFrom? true [] page).map (.text (String.ofList reversed.reverse) :: ·)
    else if c = '>' then
      if inTag then (markupFrom? false [] page).map (.tag (String.ofList reversed.reverse) :: ·)
      else none
    else markupFrom? inTag (c :: reversed) page

/-- What stands between the brackets of the tag that begins an element of the category. -/
def openingTag (category : Category) : String :=
  "span class=\"" ++ classStart ++ category.name ++ "\""

def closingTag : String :=
  "/span"

/-- A piece of the text that a page shows, and its category. -/
abbrev Piece := Option Category × String

def plainPieces (text : String) : List Piece :=
  if text = "" then [] else [(none, text)]

/-- The pieces that a page shows: the text of its elements, and the text between them. -/
def pieces? : List Markup → Option (List Piece)
  | [.text content] => some (plainPieces (unescape content))
  | .text before :: .tag opening :: .text content :: .tag closing :: page =>
    match Category.all.find? (openingTag · = opening) with
    | some category =>
      if closing = closingTag then
        (pieces? page).map fun pieces =>
          plainPieces (unescape before) ++ (some category, unescape content) :: pieces
      else none
    | none => none
  | _ => none

def readChars? (page : List Char) : Option (List Piece) :=
  (markupFrom? false [] page).bind pieces?

/-- The pieces that the page shows, if it is one. -/
def readPieces? (page : String) : Option (List Piece) :=
  readChars? page.toList

/-! ## The form of a page -/

/-- The characters that mean something in HTML. -/
def special : List Char :=
  ['&', '<', '>', '"', '\'']

/-- What stands for them in text. -/
def entities : List (List Char) :=
  ["&amp;".toList, "&lt;".toList, "&gt;".toList, "&quot;".toList, "&#x27;".toList]

/-- Text in which nothing means anything in HTML but the entities. -/
inductive IsEscaped : List Char → Prop
  | nil : IsEscaped []
  | char {c : Char} {rest : List Char} (h : c ∉ special) (hrest : IsEscaped rest) :
      IsEscaped (c :: rest)
  | entity {entity rest : List Char} (h : entity ∈ entities) (hrest : IsEscaped rest) :
      IsEscaped (entity ++ rest)

/-- A tag around what stands between its brackets. -/
def inBrackets (tag : String) : List Char :=
  '<' :: tag.toList ++ ['>']

/-- Escaped text and elements that hold escaped text, so that no element stands in another and every
bracket is that of a tag. -/
inductive IsPage : List Char → Prop
  | nil : IsPage []
  | text {content page : List Char} (h : IsEscaped content) (hpage : IsPage page) :
      IsPage (content ++ page)
  | element (category : Category) {content page : List Char} (h : IsEscaped content)
      (hpage : IsPage page) :
      IsPage (inBrackets (openingTag category) ++ content ++ inBrackets closingTag ++ page)

/-! ## Escaped text -/

theorem escapeChar_eq_or (c : Char) :
    escapeChar c ∈ entities ∨ c ∉ special ∧ escapeChar c = [c] := by
  unfold escapeChar
  split
  case h_6 hamp hlt hgt hquot hapos =>
    refine .inr ⟨?_, rfl⟩
    simp only [special, List.mem_cons, List.not_mem_nil, or_false, not_or]
    exact ⟨hamp, hlt, hgt, hquot, hapos⟩
  all_goals exact .inl (by decide)

theorem toList_escape (text : String) :
    (escape text).toList = text.toList.flatMap escapeChar :=
  String.toList_ofList

theorem toList_escape_empty : (escape "").toList = [] :=
  rfl

theorem isEscaped_escape (text : String) : IsEscaped (escape text).toList := by
  rw [toList_escape]
  induction text.toList with
  | nil => exact .nil
  | cons c rest ih =>
      rw [List.flatMap_cons]
      rcases escapeChar_eq_or c with hentity | ⟨hplain, heq⟩
      · exact .entity hentity ih
      · rw [heq]
        exact .char hplain ih

theorem not_bracket_of_not_mem {text : List Char} (h : '<' ∉ text ∧ '>' ∉ text) :
    ∀ c ∈ text, c ≠ '<' ∧ c ≠ '>' :=
  fun _ hc => ⟨ne_of_mem_of_not_mem hc h.1, ne_of_mem_of_not_mem hc h.2⟩

theorem IsEscaped.not_bracket {content : List Char} (h : IsEscaped content) :
    ∀ c ∈ content, c ≠ '<' ∧ c ≠ '>' := by
  induction h with
  | nil => exact fun c hc => absurd hc List.not_mem_nil
  | @char c rest hplain _ ih =>
      refine List.forall_mem_cons.mpr ⟨?_, ih⟩
      constructor <;> rintro rfl <;> exact hplain (by decide)
  | @entity entity rest hentity _ ih =>
      have hentities : ∀ entity ∈ entities, '<' ∉ entity ∧ '>' ∉ entity := by decide
      exact List.forall_mem_append.mpr ⟨not_bracket_of_not_mem (hentities entity hentity), ih⟩

/-- An escaped character is taken back as the character, whatever follows. -/
theorem unescapeChars_escapeChar (c : Char) (rest : List Char) :
    unescapeChars (escapeChar c ++ rest) = c :: unescapeChars rest := by
  unfold escapeChar
  split
  any_goals rfl
  rename_i hamp _ _ _ _
  show unescapeChars (c :: rest) = _
  rw [unescapeChars]
  all_goals simp_all

theorem unescape_escape (text : String) : unescape (escape text) = text := by
  have hchars : ∀ chars : List Char, unescapeChars (chars.flatMap escapeChar) = chars := by
    intro chars
    induction chars with
    | nil => rfl
    | cons c rest ih => rw [List.flatMap_cons, unescapeChars_escapeChar, ih]
  rw [unescape, toList_escape, hchars, String.ofList_toList]

/-! ## Passing text and tags -/

variable {content page reversed : List Char} {inTag : Bool}

theorem openingTag_not_bracket (category : Category) :
    ∀ c ∈ (openingTag category).toList, c ≠ '<' ∧ c ≠ '>' :=
  not_bracket_of_not_mem (by cases category <;> decide)

theorem closingTag_not_bracket : ∀ c ∈ closingTag.toList, c ≠ '<' ∧ c ≠ '>' :=
  not_bracket_of_not_mem (by decide)

theorem outsideTags_append (h : ∀ c ∈ content, c ≠ '<' ∧ c ≠ '>') :
    outsideTags inTag (content ++ page) =
      (if inTag then [] else content) ++ outsideTags inTag page := by
  induction content with
  | nil => simp
  | cons c content ih =>
      obtain ⟨⟨hlt, hgt⟩, hrest⟩ := List.forall_mem_cons.mp h
      rw [List.cons_append, outsideTags, if_neg hlt, if_neg hgt, ih hrest]
      cases inTag <;> rfl

theorem outsideTags_inBrackets {tag : String} (h : ∀ c ∈ tag.toList, c ≠ '<' ∧ c ≠ '>') :
    outsideTags false (inBrackets tag ++ page) = outsideTags false page := by
  rw [inBrackets, List.append_assoc, List.cons_append, outsideTags, if_pos rfl,
    outsideTags_append h]
  rfl

/-- Characters that are no brackets belong to what is being read. -/
theorem markupFrom?_append (h : ∀ c ∈ content, c ≠ '<' ∧ c ≠ '>') :
    markupFrom? inTag reversed (content ++ page) =
      markupFrom? inTag (content.reverse ++ reversed) page := by
  induction content generalizing reversed with
  | nil => rfl
  | cons c content ih =>
      obtain ⟨⟨hlt, hgt⟩, hrest⟩ := List.forall_mem_cons.mp h
      rw [List.cons_append, markupFrom?, if_neg hlt, if_neg hgt, ih hrest, List.reverse_cons,
        List.append_assoc, List.singleton_append]

theorem markupFrom?_text_tag {tag : String} (h : ∀ c ∈ content, c ≠ '<' ∧ c ≠ '>')
    (htag : ∀ c ∈ tag.toList, c ≠ '<' ∧ c ≠ '>') :
    markupFrom? false [] (content ++ (inBrackets tag ++ page)) =
      (markupFrom? false [] page).map fun markup =>
        .text (String.ofList content) :: .tag tag :: markup := by
  have hbehind : markupFrom? true [] (tag.toList ++ '>' :: page) =
      (markupFrom? false [] page).map (.tag tag :: ·) := by
    rw [markupFrom?_append htag, markupFrom?, if_neg (by decide), if_pos rfl, if_pos rfl,
      List.append_nil, List.reverse_reverse, String.ofList_toList]
  rw [markupFrom?_append h, inBrackets, List.append_assoc, List.cons_append, markupFrom?,
    if_pos rfl, if_neg Bool.false_ne_true, List.append_nil, List.reverse_reverse,
    List.singleton_append, hbehind, Option.map_map]
  rfl

theorem readChars?_escape (text : String) :
    readChars? (escape text).toList = some (plainPieces text) := by
  rw [← List.append_nil (escape text).toList, readChars?,
    markupFrom?_append (isEscaped_escape text).not_bracket, markupFrom?, List.append_nil,
    List.reverse_reverse, String.ofList_toList, Option.bind_some, pieces?, unescape_escape]

/-- Text and the element behind it are read as their pieces. -/
theorem readChars?_element (before text : String) (category : Category) :
    readChars? ((escape before).toList ++ (inBrackets (openingTag category) ++
        ((escape text).toList ++ (inBrackets closingTag ++ page)))) =
      (readChars? page).map (plainPieces before ++ (some category, text) :: ·) := by
  have hfind : Category.all.find? (openingTag · = openingTag category) = some category := by
    cases category <;> decide
  rw [readChars?, readChars?,
    markupFrom?_text_tag (isEscaped_escape before).not_bracket (openingTag_not_bracket category),
    markupFrom?_text_tag (isEscaped_escape text).not_bracket closingTag_not_bracket]
  cases markupFrom? false [] page with
  | none => rfl
  | some markup =>
      simp only [Option.map_some, Option.bind_some, pieces?, String.ofList_toList, hfind,
        unescape_escape, if_true]

/-! ## Pieces as they are written -/

def pieceOf (source : String) (span : Span) : Piece :=
  (span.category, span.text source.toList)

def written : Piece → List Char
  | (none, text) => (escape text).toList
  | (some category, text) =>
    inBrackets (openingTag category) ++ (escape text).toList ++ inBrackets closingTag

theorem toList_renderSpan (source : String) (span : Span) :
    (renderSpan source.toList span).toList = written (pieceOf source span) := by
  unfold renderSpan pieceOf
  split
  · rename_i category hcategory
    rw [hcategory]
    simp [written, inBrackets, openingTag, closingTag]
  · rename_i hcategory
    rw [hcategory, written]

theorem toList_render (source : String) (spans : List Span) :
    (render source spans).toList = (spans.map (pieceOf source)).flatMap written := by
  rw [render, String.toList_join, List.flatMap_map, List.flatMap_map]
  exact List.flatMap_congr fun span _ => toList_renderSpan source span

theorem isPage_written (pieces : List Piece) : IsPage (pieces.flatMap written) := by
  induction pieces with
  | nil => exact .nil
  | cons piece pieces ih =>
      obtain ⟨category, text⟩ := piece
      rw [List.flatMap_cons]
      cases category with
      | none => exact .text (isEscaped_escape text) ih
      | some category => exact .element category (isEscaped_escape text) ih

theorem outsideTags_written (pieces : List Piece) :
    outsideTags false (pieces.flatMap written) =
      pieces.flatMap fun piece => (escape piece.2).toList := by
  induction pieces with
  | nil => rfl
  | cons piece pieces ih =>
      obtain ⟨category, text⟩ := piece
      have htext := (isEscaped_escape text).not_bracket
      rw [List.flatMap_cons, List.flatMap_cons, ← ih]
      cases category with
      | none => exact outsideTags_append htext
      | some category =>
          rw [written, List.append_assoc, List.append_assoc,
            outsideTags_inBrackets (openingTag_not_bracket category), outsideTags_append htext,
            outsideTags_inBrackets closingTag_not_bracket]
          rfl

/-- Pieces are read as they were written, unless they are empty or two plain ones meet. `before` is
the plain text before them, if any. -/
theorem readChars?_written {pieces : List Piece}
    (happart : pieces.IsChain fun piece next => piece.1.isSome ∨ next.1.isSome)
    (hne : ∀ piece ∈ pieces, piece.2 ≠ "") :
    ∀ before : String, (∀ first ∈ pieces.head?, before = "" ∨ first.1.isSome) →
      readChars? ((escape before).toList ++ pieces.flatMap written) =
        some (plainPieces before ++ pieces) := by
  induction pieces with
  | nil =>
      intro before _
      rw [List.flatMap_nil, List.append_nil, List.append_nil]
      exact readChars?_escape before
  | cons piece pieces ih =>
      intro before hbefore
      obtain ⟨hfirst, hchain⟩ := List.isChain_cons.mp happart
      obtain ⟨hnonempty, hrest⟩ := List.forall_mem_cons.mp hne
      obtain ⟨category, text⟩ := piece
      rw [List.flatMap_cons]
      cases category with
      | none =>
          obtain rfl : before = "" := (hbefore _ rfl).resolve_right Bool.false_ne_true
          have hread := ih hchain hrest text fun next hnext =>
            .inr ((hfirst next hnext).resolve_left Bool.false_ne_true)
          rw [plainPieces, if_neg hnonempty] at hread
          rw [written, toList_escape_empty, List.nil_append, hread]
          rfl
      | some category =>
          have hread := ih hchain hrest "" fun _ _ => .inl rfl
          rw [toList_escape_empty, List.nil_append] at hread
          rw [written, List.append_assoc, List.append_assoc, readChars?_element, hread]
          rfl

/-! ## Highlighted text -/

theorem withoutTags_render_highlight (h : Highlighter) (source : String) :
    withoutTags (render source (h.highlight source)) = escape source := by
  rw [withoutTags, toList_render, outsideTags_written, List.flatMap_map]
  conv_rhs => rw [escape, ← h.flatMap_text_highlight source, List.flatMap_assoc]
  exact congrArg String.ofList (List.flatMap_congr fun span _ => toList_escape _)

theorem readPieces?_render_highlight (h : Highlighter) (source : String) :
    readPieces? (render source (h.highlight source)) =
      some ((h.highlight source).map (pieceOf source)) := by
  have happart : ((h.highlight source).map (pieceOf source)).IsChain
      fun piece next => piece.1.isSome ∨ next.1.isSome :=
    (List.isChain_map _).mpr (h.isChain_highlight source)
  have hne : ∀ piece ∈ (h.highlight source).map (pieceOf source), piece.2 ≠ "" := by
    intro piece hpiece hempty
    obtain ⟨span, hspan, rfl⟩ := List.mem_map.mp hpiece
    exact Highlighter.text_ne_nil_of_mem_highlight hspan (congrArg String.toList hempty)
  have hread := readChars?_written happart hne "" fun _ _ => .inl rfl
  rw [toList_escape_empty, List.nil_append] at hread
  rw [readPieces?, toList_render, hread]
  rfl

/-- Nothing is lost on a page of highlighted text, whatever stands in the source. It is escaped text
and elements of categories. Without its tags it is the escaped source, and with the entities
replaced the source; reading it gives the category and the text of every span. No two texts are
escaped alike, and every text comes back from its escaped form. -/
theorem lossless_render_highlight (h : Highlighter) (source : String) :
    IsPage (render source (h.highlight source)).toList ∧
      withoutTags (render source (h.highlight source)) = escape source ∧
      unescape (withoutTags (render source (h.highlight source))) = source ∧
      readPieces? (render source (h.highlight source)) =
        some ((h.highlight source).map fun span => (span.category, span.text source.toList)) ∧
      (∀ text, unescape (escape text) = text) ∧ Function.Injective escape := by
  have hwithout := withoutTags_render_highlight h source
  refine ⟨?_, hwithout, ?_, readPieces?_render_highlight h source, unescape_escape,
    Function.LeftInverse.injective unescape_escape⟩
  · rw [toList_render]
    exact isPage_written _
  · rw [hwithout, unescape_escape]

-- A closing tag and an entity that stand in the source are text like any other.
example :
    let source := "\"</span>\"&lt;"
    let page := render source [⟨some .string, 0, 9⟩, ⟨none, 9, 13⟩]
    page = "<span class=\"hljs-string\">&quot;&lt;/span&gt;&quot;</span>&amp;lt;" ∧
      readPieces? page = some [(some .string, "\"</span>\""), (none, "&lt;")] := by
  decide +kernel

end CodeTint.Html
