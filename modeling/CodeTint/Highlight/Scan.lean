import CodeTint.Highlight.Basic

/-!
# Highlighting

Text is highlighted part by part. From a place in the text each rule finds where it next begins. The
rule that begins earliest takes its token there, or is rejected and leaves its opening as plain
text; the text before it, which no rule takes, is searched for words.
-/

namespace CodeTint

/-! ## The earliest of several things

Of things that may be there or not, each at a place, the one that comes earliest is taken; if
several come together, the one listed first is. -/

section Earliest

variable {α : Type}

/-- Of two things the one at the earlier place, or the first if they are at the same place. -/
def earlierBy (place : α → Nat) : Option α → Option α → Option α
  | none, second => second
  | first, none => first
  | some first, some second => if place second < place first then some second else some first

/-- Of the things in the list the one at the earliest place, or the first of those there. -/
def earliestBy (place : α → Nat) (options : List (Option α)) : Option α :=
  options.foldr (earlierBy place) none

end Earliest

/-! ## Parts -/

/-! ### Beginnings -/

namespace CompiledRule

/-- Where the rule next begins, from the given place on: at its opening, or at the earliest match of
a variant. -/
def nextBegin (rule : CompiledRule) (c : Cursor) : Option Stretch :=
  match rule with
  | region _ opening _ _ => opening.findNonEmpty c
  | pattern _ variants => earliestBy (·.start.offset) (variants.map (·.findNonEmpty c))

end CompiledRule

/-! ### Tokens -/

/-- The spans of a part of the text, and the place where it ends. -/
structure Scanned where
  spans : List Span
  next : Cursor

/-- Whether the pattern matches in the body of a region, which starts at `body` and is followed by
`closing`. The text is searched as if it ended where the closing starts, and a match that starts
only there does not count. -/
def isIllegalWithin (illegal : Pattern) (body : Cursor) (closing : Stretch) : Bool :=
  match illegal.find (body.cutAt closing.start) with
  | some found => found.start.offset < closing.start.offset
  | none => false

namespace CompiledRule

/-- The token of a rule that begins with the given match. A region that is not closed, or that holds
something illegal, is rejected: its opening becomes plain text, and scanning resumes behind it. -/
def take (rule : CompiledRule) (begin : Stretch) : Scanned :=
  match rule with
  | pattern category _ => ⟨[⟨some category, begin.start.offset, begin.stop.offset⟩], begin.stop⟩
  | region category _ closing illegal =>
    let rejected : Scanned := ⟨[⟨none, begin.start.offset, begin.stop.offset⟩], begin.stop⟩
    match closing.findNonEmpty begin.stop with
    | none => rejected
    | some close =>
      if illegal.any (isIllegalWithin · begin.stop close) then rejected
      else ⟨[⟨some category, begin.start.offset, close.stop.offset⟩], close.stop⟩

end CompiledRule

/-! ### Words -/

namespace Highlighter

/-- The words from the given place to the end of its text, with the text between them. `fuel` need
only exceed the number of characters. -/
def classifyFrom (h : Highlighter) : (fuel : Nat) → (c : Cursor) → List Span
  | 0, c => [⟨none, c.offset, c.offset + byteSize c.rest⟩]
  | fuel + 1, c =>
    match h.wordPattern.findNonEmpty c with
    | none => [⟨none, c.offset, c.offset + byteSize c.rest⟩]
    | some word =>
      ⟨none, c.offset, word.start.offset⟩ ::
        ⟨h.classifyWord (String.ofList word.text), word.start.offset, word.stop.offset⟩ ::
        h.classifyFrom fuel word.stop

/-- The spans of a gap, which is the whole of a text of its own. -/
def classifyGap (h : Highlighter) (gap : Cursor) : List Span :=
  h.classifyFrom (gap.rest.length + 1) gap

end Highlighter

structure Candidate where
  /-- The place of the rule among the rules. -/
  index : Nat
  rule : CompiledRule
  begin : Stretch

def earliestCandidate (candidates : List (Option Candidate)) : Option Candidate :=
  earliestBy (·.begin.start.offset) candidates

namespace Highlighter

/-- The part of the text from the given place to the end of the candidate's token, or to the end of
the text if no rule begins any more. -/
def scanPart (h : Highlighter) (c : Cursor) : Option Candidate → Scanned
  | some candidate =>
    let token := candidate.rule.take candidate.begin
    ⟨h.classifyGap (c.alone candidate.begin.start) ++ token.spans, token.next⟩
  | none =>
    ⟨h.classifyGap (.atStart c.rest c.offset), c.atEnd⟩

end Highlighter

/-! ## With memory

At every step the rule that begins earliest takes its token; of rules that begin at the same place
the one listed first does. Where a rule begins next is remembered from step to step: it remains true
until the scan has passed the beginning, and a rule that begins nowhere will never begin again. -/

/-- What is remembered of where a rule begins next. -/
inductive Lookahead where
  | unknown
  | found (begin : Stretch)
  | exhausted

namespace Lookahead

def ofSearch : Option Stretch → Lookahead
  | some begin => found begin
  | none => exhausted

def begin? : Lookahead → Option Stretch
  | found begin => some begin
  | _ => none

/-- The lookahead of a rule, searched again if it is unknown or lies before the place. -/
def refresh (lookahead : Lookahead) (rule : CompiledRule) (c : Cursor) : Lookahead :=
  match lookahead with
  | unknown => ofSearch (rule.nextBegin c)
  | found begin =>
    if begin.start.offset < c.offset then ofSearch (rule.nextBegin c) else found begin
  | exhausted => exhausted

end Lookahead

structure Watch where
  rule : CompiledRule
  lookahead : Lookahead

namespace Watch

/-- The candidate of a rule that stands at the given place among the rules. -/
def candidate (index : Nat) (watch : Watch) : Option Candidate :=
  watch.lookahead.begin?.map fun begin => ⟨index, watch.rule, begin⟩

end Watch

/-- What is remembered of all rules, searched again where necessary. -/
def refreshAll (c : Cursor) (watches : List Watch) : List Watch :=
  watches.map fun watch => { watch with lookahead := watch.lookahead.refresh watch.rule c }

/-- The candidate that begins earliest, as far as is remembered. -/
def bestCandidate (watches : List Watch) : Option Candidate :=
  earliestCandidate (watches.mapIdx Watch.candidate)

/-- The spans from the given place to the end of the text, in parts. `fuel` need only exceed the
number of characters. -/
def Highlighter.scanFrom (h : Highlighter) : (fuel : Nat) → (watches : List Watch) → (c : Cursor) →
    List Span
  | 0, _, _ => []
  | fuel + 1, watches, c =>
    if c.rest.isEmpty then []
    else
      let watches := refreshAll c watches
      let part := h.scanPart c (bestCandidate watches)
      part.spans ++ h.scanFrom fuel watches part.next

/-- The spans that cover the text, in order. -/
def Highlighter.highlight (h : Highlighter) (text : String) : List Span :=
  let text := text.toList
  joinSpans (h.scanFrom (text.length + 1) (h.rules.map (⟨·, .unknown⟩)) (.atStart text 0))

/-! ## Without memory

The same highlighting, with every rule searched again at every step. -/

def CompiledRule.candidate (c : Cursor) (index : Nat) (rule : CompiledRule) : Option Candidate :=
  (rule.nextBegin c).map fun begin => ⟨index, rule, begin⟩

/-- The candidate that begins earliest from the given place on. -/
def Highlighter.earliestRule (h : Highlighter) (c : Cursor) : Option Candidate :=
  earliestCandidate (h.rules.mapIdx (CompiledRule.candidate c))

/-- The spans from the given place to the end of the text, in parts. `fuel` need only exceed the
number of characters. -/
def Highlighter.scanAfreshFrom (h : Highlighter) : (fuel : Nat) → (c : Cursor) → List Span
  | 0, _ => []
  | fuel + 1, c =>
    if c.rest.isEmpty then []
    else
      let part := h.scanPart c (h.earliestRule c)
      part.spans ++ h.scanAfreshFrom fuel part.next

/-- The spans that cover the text, in order. -/
def Highlighter.highlightAfresh (h : Highlighter) (text : String) : List Span :=
  let text := text.toList
  joinSpans (h.scanAfreshFrom (text.length + 1) (.atStart text 0))

end CodeTint
