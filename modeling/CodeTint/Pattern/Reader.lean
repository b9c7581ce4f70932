import CodeTint.Pattern.Notation
import CodeTint.Pattern.Search

/-!
# Reading patterns

The notation of patterns: literals, escapes, brackets, groups, alternatives and repetitions, under
the flags of the place. Whatever is not in the notation is refused: look-around, a repetition with
nothing to repeat, a group that is not closed, and a pattern that is too deep. Names of Unicode
properties are not known, and no pattern is too large. A highlighter may be made with another reader
of patterns just as well (`Highlighter.ofGrammar`).
-/

namespace CodeTint.Notation

/-! ## Groups -/

/-- Reads the letters of flags up to `:` or `)`. No letter may come twice, and the sign that clears
the flags behind it may come once and not last. -/
def readFlags? (flags : Flags) (seen : List Char) (on : Bool) (text : List Char) :
    Option (Flags × List Char × List Char) :=
  match text with
  | [] => none
  | ':' :: _ => if seen.head? = some '-' then none else some (flags, seen, text)
  | ')' :: _ => if seen.head? = some '-' then none else some (flags, seen, text)
  | c :: rest =>
    if seen.contains c then none
    else if c = '-' then readFlags? flags (c :: seen) false rest
    else
      match flags.set? c on with
      | none => none
      | some flags => readFlags? flags (c :: seen) on rest

def readGroupName? (text : List Char) : Option (String × List Char) :=
  let name := text.takeWhile (· ≠ '>')
  let fitsFirst (c : Char) : Bool := c = '_' || isLetter c
  let fitsLater (c : Char) : Bool := c = '_' || c = '.' || c = '[' || c = ']' || isLetterOrNumber c
  match name, text.dropWhile (· ≠ '>') with
  | first :: later, '>' :: rest =>
    if fitsFirst first && later.all fitsLater then some (String.ofList name, rest) else none
  | _, _ => none

inductive GroupStart where
  /-- New flags for the rest of the enclosing group. -/
  | flags (flags : Flags) (rest : List Char)
  | group (flags : Flags) (name : Option String) (rest : List Char)

/-- Reads what stands behind an opening parenthesis. -/
def readGroupStart? (flags : Flags) (text : List Char) : Option GroupStart :=
  let named (rest : List Char) : Option GroupStart :=
    (readGroupName? rest).map fun (name, rest) => .group flags (some name) rest
  match flags.skip text with
  | '?' :: '=' :: _ => none
  | '?' :: '!' :: _ => none
  | '?' :: '<' :: '=' :: _ => none
  | '?' :: '<' :: '!' :: _ => none
  | '?' :: 'P' :: '<' :: rest => named rest
  | '?' :: '<' :: rest => named rest
  | '?' :: rest =>
    match readFlags? flags [] true rest with
    | some (_, [], ')' :: _) => none
    | some (flags, _, ')' :: rest) => some (.flags flags rest)
    | some (flags, _, ':' :: rest) => some (.group flags none rest)
    | _ => none
  | rest => some (.group flags none rest)

/-! ## Parts of a pattern -/

/-- A part of a pattern, with the depth to which its notation nests. Flags are a part that cannot be
repeated. -/
structure Piece where
  node : Node
  depth : Nat
  repeatable : Bool

namespace Piece

/-- The parts, the last one first, one after another. -/
def concat (reversed : List Piece) : Piece :=
  match reversed with
  | [] => ⟨.empty, 0, true⟩
  | [piece] => piece
  | pieces => ⟨.seqOf (pieces.reverse.map (·.node)), (pieces.map (·.depth)).foldl max 0 + 1, true⟩

/-- The parts, the last one first, as alternatives. -/
def alternatives (reversed : List Piece) : Piece :=
  match reversed with
  | [piece] => piece
  | pieces => ⟨.altOf (pieces.reverse.map (·.node)), (pieces.map (·.depth)).foldl max 0 + 1, true⟩

/-- The last part read, repeated, and the parts before it. There must be something to repeat. -/
def repeatLast? (flags : Flags) (least : Nat) (most : Option Nat) (lazy : Bool)
    (reversed : List Piece) : Option (List Piece) :=
  match reversed with
  | [] => none
  | piece :: pieces =>
    if piece.repeatable then
      let node : Node := .repetition piece.node least most (lazy == flags.swapGreed)
      some (⟨node, piece.depth + 1, true⟩ :: pieces)
    else none

end Piece

/-- Whether the text begins with the sign that makes a repetition lazy, and the text behind it. -/
def readLazy (text : List Char) : Bool × List Char :=
  match text with
  | '?' :: text => (true, text)
  | text => (false, text)

/-- The bounds of a repetition whose opening brace has been read, and the rest of the text. -/
def readBounds? (flags : Flags) (text : List Char) : Option (Nat × Option Nat × List Char) := do
  let (least, rest) ← readCount? flags (flags.skip text)
  match rest with
  | '\x7d' :: rest => some (least, some least, rest)
  | ',' :: rest =>
    match flags.skip rest with
    | '\x7d' :: rest => some (least, none, rest)
    | rest =>
      let (most, rest) ← readCount? flags rest
      match rest with
      | '\x7d' :: rest => if least ≤ most then some (least, some most, rest) else none
      | _ => none
  | _ => none

def Flags.charPiece? (flags : Flags) (c : Char) (byte : Bool) : Option Piece :=
  if !flags.unicode && byte && 0x80 ≤ c.toNat then none
  else some ⟨.one (flags.closeCase (.single c)), 0, true⟩

/-- What the dot, the signs for the ends of a line, an escape or any other character stands for. -/
def readPrimitive? (flags : Flags) : (text : List Char) → Option (Piece × List Char)
  | [] => none
  | '.' :: rest =>
    if !flags.unicode then none
    else
      let lineEnds :=
        if flags.dotAll then CharSet.empty
        else if flags.anyLineEnd then .union (.single '\n') (.single '\r')
        else .single '\n'
      some (⟨.one (.complement lineEnds), 0, true⟩, rest)
  | '^' :: rest =>
    let a : Assertion :=
      if !flags.multiLine then .textStart
      else if flags.anyLineEnd then .anyLineStart
      else .lineStart
    some (⟨.assertion a, 0, true⟩, rest)
  | '$' :: rest =>
    let a : Assertion :=
      if !flags.multiLine then .textEnd
      else if flags.anyLineEnd then .anyLineEnd
      else .lineEnd
    some (⟨.assertion a, 0, true⟩, rest)
  | '\\' :: rest => do
    match ← readEscape? flags rest with
    | (.char c byte, rest) => some (← flags.charPiece? c byte, rest)
    | (.charClass name negated, rest) =>
      some (⟨.one (← flags.classSet? name negated), 0, true⟩, rest)
    | (.assertion a, rest) => some (⟨.assertion a, 0, true⟩, rest)
  | c :: rest => (flags.charPiece? c false).map (·, rest)

/-- Reads the inside of a group, or a whole pattern, up to the closing parenthesis or the end: what
it matches, the names of groups met so far, and the rest of the text. Flags that are set hold to the
end of the group, across its alternatives. `fuel` need only exceed the length of the text. -/
def readGroup? : (fuel : Nat) → (flags : Flags) → (names : List String) →
    (alternatives : List Piece) → (pieces : List Piece) → (text : List Char) →
    Option (Piece × List String × List Char)
  | 0, _, _, _, _, _ => none
  | fuel + 1, flags, names, alternatives, pieces, text =>
    let repeated (least : Nat) (most : Option Nat) (text : List Char) :
        Option (Piece × List String × List Char) := do
      let (lazy, rest) := readLazy text
      let pieces ← Piece.repeatLast? flags least most lazy pieces
      readGroup? fuel flags names alternatives pieces rest
    match flags.skip text with
    | [] => some (.alternatives (.concat pieces :: alternatives), names, [])
    | ')' :: rest => some (.alternatives (.concat pieces :: alternatives), names, ')' :: rest)
    | '|' :: rest => readGroup? fuel flags names (.concat pieces :: alternatives) [] rest
    | '?' :: rest => repeated 0 (some 1) rest
    | '*' :: rest => repeated 0 none rest
    | '+' :: rest => repeated 1 none rest
    | '\x7b' :: rest => do
      let (least, most, rest) ← readBounds? flags rest
      repeated least most (flags.skip rest)
    | '[' :: rest => do
      let (set, depth, rest) ← readBracket? flags rest
      readGroup? fuel flags names alternatives (⟨.one set, depth, true⟩ :: pieces) rest
    | '(' :: rest => do
      match ← readGroupStart? flags rest with
      | .flags flags rest =>
        readGroup? fuel flags names alternatives (⟨.empty, 0, false⟩ :: pieces) rest
      | .group inner name rest =>
        if name.any names.contains then none
        else
          let (piece, names, rest) ← readGroup? fuel inner (name.toList ++ names) [] [] rest
          match rest with
          | ')' :: rest =>
            let piece : Piece := ⟨piece.node, piece.depth + 1, true⟩
            readGroup? fuel flags names alternatives (piece :: pieces) rest
          | _ => none
    | text => do
      let (piece, rest) ← readPrimitive? flags text
      readGroup? fuel flags names alternatives (piece :: pieces) rest

/-! ## Whole patterns -/

def depthLimit : Nat := 250

end CodeTint.Notation

namespace CodeTint

/-- The tree of the pattern that the text writes, if the text is one and nests within the limit. -/
def Node.ofString? (source : String) : Option Node := do
  let text := source.toList
  let (piece, _, rest) ← Notation.readGroup? (text.length + 1) .initial [] [] [] text
  if rest.isEmpty && piece.depth ≤ Notation.depthLimit then some piece.node else none

/-- The pattern that the text writes. -/
def Pattern.ofString? (source : String) : Option Pattern :=
  (Node.ofString? source).map Node.pattern

end CodeTint
