import CodeTint.Pattern.Node

/-!
# The notation of patterns

What stands in a pattern for a set of characters or a condition on a place: escapes and brackets,
read under the flags of the place.
-/

namespace CodeTint.Notation

/-! ## Flags

The notation of patterns is read under the flags of the place: `i` ignores case, `m` lets `^` and
`$` match at lines, `s` lets `.` match line ends, `U` exchanges greedy and lazy, `x` allows blanks
and comments, `R` lets lines end in a carriage return, and `u`, which alone is set at first, reads
characters of all scripts. -/

/-- The flags in force at a place of a pattern. -/
structure Flags where
  ignoreCase : Bool
  multiLine : Bool
  dotAll : Bool
  swapGreed : Bool
  unicode : Bool
  anyLineEnd : Bool
  verbose : Bool
deriving Repr, DecidableEq

namespace Flags

def initial : Flags :=
  ⟨false, false, false, false, true, false, false⟩

/-- Sets or clears the flag with the given letter. -/
def set? (flags : Flags) (letter : Char) (on : Bool) : Option Flags :=
  match letter with
  | 'i' => some { flags with ignoreCase := on }
  | 'm' => some { flags with multiLine := on }
  | 's' => some { flags with dotAll := on }
  | 'U' => some { flags with swapGreed := on }
  | 'u' => some { flags with unicode := on }
  | 'R' => some { flags with anyLineEnd := on }
  | 'x' => some { flags with verbose := on }
  | _ => none

end Flags

/-- Drops the blanks and comments that the text begins with. A comment runs from `#` to the end of
its line. -/
def dropComments : (inComment : Bool) → (text : List Char) → List Char
  | _, [] => []
  | true, c :: text => dropComments (c != '\n') text
  | false, c :: text =>
    if isBlank c then dropComments false text
    else if c = '#' then dropComments true text
    else c :: text

/-- Drops what the flags allow between the parts of a pattern. -/
def Flags.skip (flags : Flags) (text : List Char) : List Char :=
  if flags.verbose then dropComments false text else text

/-- The characters that `accept` takes, with whatever the flags allow between and after them, and
the rest of the text. `fuel` need only exceed the length of the text. -/
def Flags.takeWhile (flags : Flags) (accept : Char → Bool) :
    (fuel : Nat) → (text : List Char) → List Char × List Char
  | 0, text => ([], text)
  | _, [] => ([], [])
  | fuel + 1, c :: text =>
    if accept c then
      let (taken, rest) := flags.takeWhile accept fuel (flags.skip text)
      (c :: taken, rest)
    else ([], c :: text)

/-! ### Numbers -/

/-- The number that the digits write. There must be one at least, and the number must fit 32 bits.
-/
def number? (base : Nat) (digits : List Char) : Option Nat := do
  if digits.isEmpty then none
  let value ← digitsValue? base digits
  if value < UInt32.size then some value else none

def charAt? (point : Nat) : Option Char :=
  if point.isValidChar then some (Char.ofNat point) else none

/-- A count of a repetition, with blanks around it, and the rest of the text. -/
def readCount? (flags : Flags) (text : List Char) : Option (Nat × List Char) := do
  let (digits, rest) := flags.takeWhile isAsciiDigit (text.length + 1) (dropBlanks text)
  return (← number? 10 digits, dropBlanks rest)

/-! ## Escapes

What a backslash and the characters after it stand for. Letters and digits that have no meaning
there are refused, among them references to groups. Names of Unicode properties are refused as well,
as there are no tables of them here. -/

/-- What a backslash and the characters after it stand for. -/
inductive Escape where
  /-- A character; `byte` tells that two hexadecimal digits wrote it. -/
  | char (c : Char) (byte : Bool)
  | charClass (name : CharClass) (negated : Bool)
  | assertion (a : Assertion)
deriving Repr, DecidableEq

def metaChars : List Char :=
  "\\.+*?()|[]\x7b\x7d^$#&-~".toList

/-- The characters that stand for themselves after a backslash: those of ASCII but letters, digits
and the two signs that mark the edges of words. -/
def isEscapable (c : Char) : Bool :=
  metaChars.contains c || (c.toNat < 0x80 && !c.isAlphanum && c ≠ '<' && c ≠ '>')

/-- The code point that `count` hexadecimal digits write, and the rest of the text. -/
def readHexDigits? (flags : Flags) : (count : Nat) → (digits : List Char) → (text : List Char) →
    Option (List Char × List Char)
  | 0, digits, text => some (digits.reverse, text)
  | _, _, [] => none
  | count + 1, digits, c :: text =>
    match digitValue? 16 c with
    | none => none
    | some _ => readHexDigits? flags count (c :: digits) (flags.skip text)

/-- The character written by its code point: in braces, or with `count` digits. -/
def readCodePoint? (flags : Flags) (count : Nat) (text : List Char) : Option (Escape × List Char) :=
  match flags.skip text with
  | '\x7b' :: text => do
    let text := flags.skip text
    let (digits, rest) :=
      flags.takeWhile (fun c => (digitValue? 16 c).isSome) (text.length + 1) text
    match rest with
    | '\x7d' :: rest =>
      let c ← charAt? (← number? 16 digits)
      some (.char c false, flags.skip rest)
    | _ => none
  | text => do
    let (digits, rest) ← readHexDigits? flags count [] text
    let c ← charAt? (← number? 16 digits)
    some (.char c (count = 2), rest)

/-- The edge of a word that is named in braces after `\b`, if a name stands there: what does not
begin like a name is left for the repetition that it may be. -/
def readEdgeName? (flags : Flags) (text : List Char) : Option (WordEdge × List Char) :=
  match text with
  | '\x7b' :: inner =>
    let isNameChar (c : Char) : Bool := c.isAlpha || c = '-'
    let (name, rest) := flags.takeWhile isNameChar (inner.length + 1) (flags.skip inner)
    match flags.skip inner, name, rest with
    | [], _, _ => none
    | _, [], _ => some (.boundary, text)
    | _, name, '\x7d' :: rest =>
      match String.ofList name with
      | "start" => some (.wordStart, rest)
      | "end" => some (.wordEnd, rest)
      | "start-half" => some (.startHalf, rest)
      | "end-half" => some (.endHalf, rest)
      | _ => none
    | _, _, _ => none
  | text => some (.boundary, text)

/-- What the text behind a backslash stands for, and the rest of the text. -/
def readEscape? (flags : Flags) : (text : List Char) → Option (Escape × List Char)
  | [] => none
  | c :: text =>
    let edge (edge : WordEdge) : Escape := .assertion (.word edge !flags.unicode)
    match c with
    | 'x' => readCodePoint? flags 2 text
    | 'u' => readCodePoint? flags 4 text
    | 'U' => readCodePoint? flags 8 text
    | 'd' => some (.charClass .digit false, text)
    | 'D' => some (.charClass .digit true, text)
    | 's' => some (.charClass .blank false, text)
    | 'S' => some (.charClass .blank true, text)
    | 'w' => some (.charClass .word false, text)
    | 'W' => some (.charClass .word true, text)
    | 'a' => some (.char '\x07' false, text)
    | 'f' => some (.char '\x0c' false, text)
    | 't' => some (.char '\t' false, text)
    | 'n' => some (.char '\n' false, text)
    | 'r' => some (.char '\r' false, text)
    | 'v' => some (.char '\x0b' false, text)
    | 'A' => some (.assertion .textStart, text)
    | 'z' => some (.assertion .textEnd, text)
    | 'b' => (readEdgeName? flags text).map fun (name, rest) => (edge name, rest)
    | 'B' => some (edge .inside, text)
    | '<' => some (edge .wordStart, text)
    | '>' => some (edge .wordEnd, text)
    | c => if isEscapable c then some (.char c false, text) else none

/-! ## Brackets

A bracket lists characters, ranges, classes and further brackets, of which it takes the union;
unions are combined by `&&`, `--` and `~~` from the left. -/

/-! ### Sets under flags -/

/-- The set with the case variants of its members, if the flags ignore case. -/
def Flags.closeCase (flags : Flags) (set : CharSet) : CharSet :=
  if !flags.ignoreCase then set
  else if flags.unicode then .caseClosed set
  else .asciiCaseClosed set

/-- Without the flag `u` a set holds bytes and must not hold one that is part of a longer character.
-/
def Flags.checkBytes? (flags : Flags) (set : CharSet) : Option CharSet :=
  if flags.unicode then some set
  else if (List.range 0x80).any fun point => set.mem (Char.ofNat (0x80 + point)) then none
  else some (.inter set .ascii)

def Flags.classSet? (flags : Flags) (name : CharClass) (negated : Bool) : Option CharSet :=
  if flags.unicode then some ((CharSet.ofClass name).negatedIf negated)
  else if negated then none
  else some (.asciiClass name)

/-! ### Named classes -/

/-- The classes that brackets inside brackets name. -/
def namedSet? (name : String) : Option CharSet :=
  let digits := CharSet.range '0' '9'
  let lower := CharSet.range 'a' 'z'
  let upper := CharSet.range 'A' 'Z'
  match name with
  | "alnum" => some (.unionOf [digits, lower, upper])
  | "alpha" => some (.unionOf [lower, upper])
  | "ascii" => some .ascii
  | "blank" => some (.unionOf [.single '\t', .single ' '])
  | "cntrl" => some (.unionOf [.range '\x00' '\x1f', .single '\x7f'])
  | "digit" => some digits
  | "graph" => some (.range '!' '~')
  | "lower" => some lower
  | "print" => some (.range ' ' '~')
  | "punct" =>
    some (.unionOf [.range '!' '/', .range ':' '@', .range '[' '\x60', .range '\x7b' '~'])
  | "space" => some (.asciiClass .blank)
  | "upper" => some upper
  | "word" => some (.asciiClass .word)
  | "xdigit" => some (.unionOf [digits, .range 'a' 'f', .range 'A' 'F'])
  | _ => none

/-- The class `[:name:]` or `[:^name:]` whose opening bracket has been read, and the rest of the
text. -/
def readNamedSet? (text : List Char) : Option (CharSet × Bool × List Char) :=
  match text with
  | ':' :: text =>
    let (negated, text) :=
      match text with
      | '^' :: text => (true, text)
      | text => (false, text)
    match text.dropWhile (· ≠ ':') with
    | ':' :: ']' :: rest =>
      (namedSet? (String.ofList (text.takeWhile (· ≠ ':')))).map (·, negated, rest)
    | _ => none
  | _ => none

/-! ### Items -/

/-- One item of a bracket: a character, which may begin or end a range, or a set. -/
inductive BracketItem where
  | char (c : Char) (byte : Bool)
  | set (s : CharSet)

/-- The character as a member of a bracket. Without the flag `u` it has to be a byte. -/
def Flags.bracketChar? (flags : Flags) (c : Char) (byte : Bool) : Option Char :=
  if flags.unicode || byte || c.toNat < 0x80 then some c else none

/-- Reads one item of a bracket. A condition on a place is no item. -/
def readBracketItem? (flags : Flags) : (text : List Char) → Option (BracketItem × List Char)
  | [] => none
  | '\\' :: text => do
    match ← readEscape? flags text with
    | (.char c byte, rest) => some (.char c byte, rest)
    | (.charClass name negated, rest) => some (.set (← flags.classSet? name negated), rest)
    | (.assertion _, _) => none
  | c :: text => some (.char c false, text)

/-- The next character that is not skipped, looking past one comment sign at most. -/
def Flags.peek? (flags : Flags) (text : List Char) : Option Char :=
  if flags.verbose then
    match dropBlanks text with
    | '#' :: text => (dropBlanks text).head?
    | text => text.head?
  else text.head?

/-- Reads an item of a bracket, or two characters with `-` between them for the range from one to
the other. A `-` before the closing bracket or before another `-` makes no range. -/
def readBracketRange? (flags : Flags) (text : List Char) : Option (CharSet × List Char) := do
  let (item, rest) ← readBracketItem? flags text
  let alone (rest : List Char) : Option (CharSet × List Char) :=
    match item with
    | .char c byte => (flags.bracketChar? c byte).map (CharSet.single ·, rest)
    | .set s => some (s, rest)
  match flags.skip rest with
  | [] => none
  | '-' :: behind =>
    if flags.peek? behind = some ']' || flags.peek? behind = some '-' then alone ('-' :: behind)
    else
      let (last, rest) ← readBracketItem? flags (flags.skip behind)
      match item, last with
      | .char first firstByte, .char last lastByte =>
        let first ← flags.bracketChar? first firstByte
        let last ← flags.bracketChar? last lastByte
        if first ≤ last then some (.range first last, rest) else none
      | _, _ => none
  | rest => alone rest

/-! ### Operations and nesting -/

inductive SetOp where
  | inter
  | difference
  | symmetricDifference

/-- The result of the operation, with the case variants of both sides if the flags ignore case. -/
def SetOp.apply (flags : Flags) (op : SetOp) (s t : CharSet) : CharSet :=
  let s := flags.closeCase s
  let t := flags.closeCase t
  match op with
  | inter => .inter s t
  | difference => .inter s (.complement t)
  | symmetricDifference => .union (.inter s (.complement t)) (.inter t (.complement s))

/-- The items of a bracket read so far: their union, their number, and the depth of the deepest. -/
structure BracketItems where
  union : CharSet
  count : Nat
  depth : Nat

namespace BracketItems

def empty : BracketItems := ⟨.empty, 0, 0⟩

/-- The items with one more, which nests to the given depth. -/
def add (items : BracketItems) (s : CharSet) (depth : Nat) : BracketItems :=
  ⟨if items.count = 0 then s else .union items.union s, items.count + 1, max items.depth depth⟩

/-- How deep the items nest: several items are one level deeper than the deepest of them. -/
def nesting (items : BracketItems) : Nat :=
  if items.count ≤ 1 then items.depth else items.depth + 1

/-- The items as the right side of the operation that waits for them. -/
def close (flags : Flags) (left : Option (SetOp × CharSet × Nat)) (items : BracketItems) :
    CharSet × Nat :=
  match left with
  | none => (items.union, items.nesting)
  | some (op, s, depth) => (op.apply flags s items.union, max depth items.nesting + 1)

end BracketItems

/-- The beginning of a bracket: whether it is negated, and the items `-` and `]` that stand for
themselves there. -/
def readBracketStart? (flags : Flags) (text : List Char) :
    Option (Bool × BracketItems × List Char) := do
  let text := flags.skip text
  let (negated, text) :=
    match text with
    | '^' :: text => (true, flags.skip text)
    | text => (false, text)
  let (dashes, text) := flags.takeWhile (· = '-') (text.length + 1) text
  let items := dashes.foldl (fun items _ => items.add (.single '-') 0) BracketItems.empty
  match items.count, text with
  | _, [] => none
  | 0, ']' :: text => some (negated, items.add (.single ']') 0, flags.skip text)
  | _, text => some (negated, items, text)

/-- Reads the items and operations of a bracket up to the closing bracket: the set, its depth, and
the rest of the text. `fuel` need only exceed the length of the text. -/
def readBracketBody? (flags : Flags) : (fuel : Nat) → (left : Option (SetOp × CharSet × Nat)) →
    (items : BracketItems) → (text : List Char) → Option (CharSet × Nat × List Char)
  | 0, _, _, _ => none
  | fuel + 1, left, items, text =>
    let operation (op : SetOp) (text : List Char) : Option (CharSet × Nat × List Char) :=
      readBracketBody? flags fuel (some (op, items.close flags left)) .empty text
    match flags.skip text with
    | [] => none
    | ']' :: rest => some (items.close flags left |>.1, items.close flags left |>.2, rest)
    | '&' :: '&' :: rest => operation .inter rest
    | '-' :: '-' :: rest => operation .difference rest
    | '~' :: '~' :: rest => operation .symmetricDifference rest
    | '[' :: inner =>
      match readNamedSet? inner with
      | some (set, negated, rest) => do
        let set ← flags.checkBytes? ((flags.closeCase set).negatedIf negated)
        readBracketBody? flags fuel left (items.add set 0) rest
      | none => do
        let (negated, start, inner) ← readBracketStart? flags inner
        let (set, depth, rest) ← readBracketBody? flags fuel none start inner
        let set ← flags.checkBytes? ((flags.closeCase set).negatedIf negated)
        readBracketBody? flags fuel left (items.add set (depth + 1)) rest
    | text => do
      let (set, rest) ← readBracketRange? flags text
      readBracketBody? flags fuel left (items.add set 0) rest

/-- Reads a bracket whose opening has been read: its set, its depth, and the rest of the text. -/
def readBracket? (flags : Flags) (text : List Char) : Option (CharSet × Nat × List Char) := do
  let (negated, start, inner) ← readBracketStart? flags text
  let (set, depth, rest) ← readBracketBody? flags (text.length + 1) none start inner
  return (← flags.checkBytes? ((flags.closeCase set).negatedIf negated), depth + 1, rest)

end CodeTint.Notation
