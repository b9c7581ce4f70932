import CodeTint.Json.Basic
import CodeTint.Text.Chars
import CodeTint.Text.Cursor

/-!
# Reading JSON texts

The draft that a text gives. Reading goes on as long as the end of what is read can be told, and the
draft ends where it cannot.
-/

namespace CodeTint

/-! ## Texts between quotes

Reading a text of a JSON text from its opening quote to its closing one. A character may be escaped
by the units of sixteen bits that UTF-16 has for it: a character in two halves then takes two
escapes, and half a character that stands alone can be skipped but not read. -/

namespace JsonText

/-- A draft and the text behind it, if reading got that far. -/
structure Drafted (α : Type) where
  result : α
  rest : Option (List Char)

def shortEscape? (c : Char) : Option Char :=
  match c with
  | '"' => some '"'
  | '\\' => some '\\'
  | '/' => some '/'
  | 'b' => some '\x08'
  | 'f' => some '\x0c'
  | 'n' => some '\n'
  | 'r' => some '\r'
  | 't' => some '\t'
  | _ => none

/-- What has been read of a text between quotes: the characters, the last one first; the first half
of a character in two halves, if the text behind it should be the second; and whether half a
character stands alone. -/
structure Quotation where
  reversed : List Char
  half : Option Nat
  loose : Bool

namespace Quotation

def empty : Quotation := ⟨[], none, false⟩

/-- The text with a further character. A first half that waits for its second stands alone. -/
def push (q : Quotation) (c : Char) : Quotation :=
  ⟨c :: q.reversed, none, q.loose || q.half.isSome⟩

/-- The text with a further unit of sixteen bits: a character or half of one. -/
def pushUnit (q : Quotation) (unit : Nat) : Quotation :=
  if 0xdc00 ≤ unit && unit ≤ 0xdfff then
    match q.half with
    | some half =>
      let point := (half - 0xd800) * 0x400 + (unit - 0xdc00) + 0x10000
      ⟨Char.ofNat point :: q.reversed, none, q.loose⟩
    | none => { q with loose := true }
  else if 0xd800 ≤ unit && unit ≤ 0xdbff then
    ⟨q.reversed, some unit, q.loose || q.half.isSome⟩
  else q.push (Char.ofNat unit)

def close (q : Quotation) : Draft :=
  if q.loose || q.half.isSome then .looseString else .string (String.ofList q.reversed.reverse)

/-- The text when it goes wrong: whoever reads it has met an earlier half character first. -/
def goWrong (q : Quotation) (fault : Fault) : Draft :=
  .brokenString (if q.loose then .malformed else fault) fault

end Quotation

/-- Reads a text whose opening quote has been read. An escape by code needs four further bytes, or
the text has ended too early. -/
def readQuotation (q : Quotation) (text : List Char) : Drafted Draft :=
  match text with
  | [] => ⟨q.goWrong .truncated, none⟩
  | '"' :: rest => ⟨q.close, some rest⟩
  | ['\\'] => ⟨q.goWrong .truncated, none⟩
  | '\\' :: 'u' :: a :: b :: c :: d :: rest =>
    match digitsValue? 16 [a, b, c, d] with
    | some unit => readQuotation (q.pushUnit unit) rest
    | none => ⟨q.goWrong .malformed, none⟩
  | '\\' :: 'u' :: short =>
    ⟨q.goWrong (if byteSize short < 4 then .truncated else .malformed), none⟩
  | '\\' :: c :: rest =>
    match shortEscape? c with
    | some c => readQuotation (q.push c) rest
    | none => ⟨q.goWrong .malformed, none⟩
  | c :: rest =>
    if c.toNat < 0x20 then ⟨q.goWrong .malformed, none⟩
    else readQuotation (q.push c) rest

/-! ## Numbers

Reading a number of a JSON text. Only a whole number has a value here; of any other number it
matters whether it exceeds all finite numbers of double precision, which is decided from its first
digits: as many as fit 64 bits, rounded as a double is, times the power of ten, rounded likewise. -/

def digitsValue (digits : List Char) : Nat :=
  digits.foldl (fun value c => value * 10 + (c.toNat - '0'.toNat)) 0

/-- The largest significand that is kept exactly. -/
def significandLimit : Nat := UInt64.size - 1

/-- The number rounded to its 53 leading binary digits, a half going to the even neighbour. -/
def roundSignificant (n : Nat) : Nat :=
  if n < Nat.pow 2 53 then n
  else
    let unit := Nat.pow 2 (n.log2 - 52)
    let kept := n / unit
    let twice := 2 * (n % unit)
    let up := unit < twice || (twice = unit && kept % 2 = 1)
    (if up then kept + 1 else kept) * unit

/-- A significand and a power of ten, of a number read digit by digit. -/
structure Scaled where
  significand : Nat
  exponent : Int
  full : Bool

namespace Scaled

/-- A further digit before the point. Once the significand is full, digits only count. -/
def pushWhole (s : Scaled) (c : Char) : Scaled :=
  let next := s.significand * 10 + (c.toNat - '0'.toNat)
  if s.full || significandLimit < next then { s with exponent := s.exponent + 1, full := true }
  else { s with significand := next }

/-- A further digit behind the point. Once the significand is full, digits are dropped. -/
def pushFraction (s : Scaled) (c : Char) : Scaled :=
  let next := s.significand * 10 + (c.toNat - '0'.toNat)
  if s.full || significandLimit < next then { s with full := true }
  else { s with significand := next, exponent := s.exponent - 1 }

def isHuge (s : Scaled) : Bool :=
  if s.significand = 0 || s.exponent < 0 then false
  else if 308 < s.exponent then true
  else
    Nat.pow 2 1024 - Nat.pow 2 970 ≤
      roundSignificant s.significand * roundSignificant (Nat.pow 10 s.exponent.toNat)

end Scaled

/-- Whether the number with the given digits before and behind the point and the given exponent
exceeds every finite number of double precision. -/
def isHugeNumber (whole fraction : List Char) (exponent : Int) : Bool :=
  let s : Scaled := whole.foldl Scaled.pushWhole ⟨0, 0, false⟩
  let s := fraction.foldl Scaled.pushFraction { s with full := false }
  { s with exponent := s.exponent + exponent }.isHuge

/-- The digits of a fraction behind its point, or the fault where the digits should begin. -/
def readDigits (text : List Char) : Except Fault (List Char × List Char) :=
  match text.takeWhile isAsciiDigit, text with
  | [], [] => .error .truncated
  | [], _ => .error .malformed
  | digits, text => .ok (digits, text.dropWhile isAsciiDigit)

/-- The part of a number that the mark in `marks` opens, after a sign if there may be one: whether
the sign is a minus, the digits, and the rest of the text. All are empty if the mark does not stand
here. -/
def readNumberPart (marks signs : List Char) (text : List Char) :
    Except Fault (Bool × List Char × List Char) :=
  match text with
  | mark :: text =>
    if marks.contains mark then
      match text with
      | sign :: behind =>
        if signs.contains sign then
          (readDigits behind).map fun (digits, rest) => (sign = '-', digits, rest)
        else (readDigits text).map fun (digits, rest) => (false, digits, rest)
      | [] => .error .truncated
    else .ok (false, [], mark :: text)
  | [] => .ok (false, [], [])

/-- Reads the number behind its sign: its digits before and behind the point, its exponent if one is
written, and the rest of the text. -/
def readNumberBody (text : List Char) :
    Except Fault (List Char × List Char × Option (Bool × List Char) × List Char) := do
  let (whole, rest) ← readDigits text
  if whole.head? = some '0' && whole.length ≠ 1 then .error .malformed
  let (_, fraction, rest) ← readNumberPart ['.'] [] rest
  let (minus, exponent, rest) ← readNumberPart ['e', 'E'] ['+', '-'] rest
  return (whole, fraction, if exponent.isEmpty then none else some (minus, exponent), rest)

def readNumber (text : List Char) : Drafted Draft :=
  let (negative, body) : Bool × List Char :=
    match text with
    | '-' :: body => (true, body)
    | body => (false, body)
  match readNumberBody body with
  | .error fault => ⟨.brokenToken (text.headD '-') fault .malformed, none⟩
  | .ok (whole, fraction, exponent, rest) =>
    let power : Int :=
      match exponent with
      | some (true, digits) => -(digitsValue digits : Int)
      | some (false, digits) => digitsValue digits
      | none => 0
    let value := digitsValue whole
    if isHugeNumber whole fraction power then ⟨.hugeNumber, some rest⟩
    else if fraction.isEmpty && exponent.isNone && !(negative && value = 0) then
      ⟨.number (.whole (if negative then -(value : Int) else value)), some rest⟩
    else
      let spelling := text.take (text.length - rest.length)
      ⟨.number (.decimal (String.ofList spelling)), some rest⟩

/-! ## Values -/

/-- The text without the blanks that JSON allows between its parts. -/
def dropSpace (text : List Char) : List Char :=
  text.dropWhile fun c => c = ' ' || c = '\n' || c = '\t' || c = '\r'

def readWord (first : Char) (value : Draft) :
    (letters : List Char) → (text : List Char) → Drafted Draft
  | [], text => ⟨value, some text⟩
  | _ :: _, [] => ⟨.brokenToken first .truncated .truncated, none⟩
  | letter :: letters, c :: text =>
    if letter = c then readWord first value letters text
    else ⟨.brokenToken first .malformed .malformed, none⟩

mutual

/-- Reads a value. Three units of `fuel` for each character of the text and one more are enough. -/
def readValue (fuel : Nat) (text : List Char) : Drafted Draft :=
  match fuel with
  | 0 => ⟨.absent .truncated, none⟩
  | fuel + 1 =>
    match dropSpace text with
    | [] => ⟨.absent .truncated, none⟩
    | '"' :: rest => readQuotation .empty rest
    | '[' :: rest =>
      let items := readItems fuel true rest
      ⟨.array items.result, items.rest⟩
    | '\x7b' :: rest =>
      let members := readMembers fuel true rest
      ⟨.object members.result, members.rest⟩
    | 'n' :: rest => readWord 'n' .null ['u', 'l', 'l'] rest
    | 't' :: rest => readWord 't' (.bool true) ['r', 'u', 'e'] rest
    | 'f' :: rest => readWord 'f' (.bool false) ['a', 'l', 's', 'e'] rest
    | c :: rest =>
      if c = '-' || isAsciiDigit c then readNumber (c :: rest)
      else ⟨.brokenToken c .malformed .malformed, none⟩

/-- Reads the items of an array, the `first` one or those behind an item. -/
def readItems (fuel : Nat) (first : Bool) (text : List Char) : Drafted DraftItems :=
  match fuel with
  | 0 => ⟨.cut .truncated, none⟩
  | fuel + 1 =>
    match dropSpace text with
    | [] => ⟨.cut .truncated, none⟩
    | ']' :: rest => ⟨.closed, some rest⟩
    | c :: rest =>
      if first then readItem fuel (c :: rest)
      else if c = ',' then
        match dropSpace rest with
        | ']' :: _ => ⟨.more (.absent .malformed) (.cut .malformed), none⟩
        | _ => readItem fuel rest
      else ⟨.cut .malformed, none⟩

def readItem (fuel : Nat) (text : List Char) : Drafted DraftItems :=
  match fuel with
  | 0 => ⟨.cut .truncated, none⟩
  | fuel + 1 =>
    let item := readValue fuel text
    match item.rest with
    | none => ⟨.more item.result (.cut .malformed), none⟩
    | some rest =>
      let items := readItems fuel false rest
      ⟨.more item.result items.result, items.rest⟩

/-- Reads the members of an object, the `first` one or those behind a member. -/
def readMembers (fuel : Nat) (first : Bool) (text : List Char) : Drafted DraftMembers :=
  match fuel with
  | 0 => ⟨.cut .truncated, none⟩
  | fuel + 1 =>
    match dropSpace text with
    | [] => ⟨.cut .truncated, none⟩
    | '\x7d' :: rest => ⟨.closed, some rest⟩
    | c :: rest =>
      if first then
        if c = '"' then readMember fuel rest else ⟨.odd (readValue fuel (c :: rest)).result, none⟩
      else if c = ',' then
        match dropSpace rest with
        | '"' :: rest => readMember fuel rest
        | [] => ⟨.badName .truncated, none⟩
        | _ => ⟨.badName .malformed, none⟩
      else ⟨.cut .malformed, none⟩

/-- Reads a member whose name has begun, and those behind it. -/
def readMember (fuel : Nat) (text : List Char) : Drafted DraftMembers :=
  match fuel with
  | 0 => ⟨.cut .truncated, none⟩
  | fuel + 1 =>
    let name := readQuotation .empty text
    match name.result, name.rest with
    | .brokenString whenRead whenSkipped, _ =>
      if whenRead = whenSkipped then ⟨.badName whenRead, none⟩
      else ⟨.more none (.absent whenSkipped) (.cut whenSkipped), none⟩
    | _, none => ⟨.badName .truncated, none⟩
    | read, some rest =>
      let name : Option String :=
        match read with
        | .string name => some name
        | _ => none
      match dropSpace rest with
      | ':' :: rest =>
        let value := readValue fuel rest
        match value.rest with
        | none => ⟨.more name value.result (.cut .malformed), none⟩
        | some rest =>
          let members := readMembers fuel false rest
          ⟨.more name value.result members.result, members.rest⟩
      | [] => ⟨.more name (.absent .truncated) (.cut .truncated), none⟩
      | _ => ⟨.more name (.absent .malformed) (.cut .malformed), none⟩

end

end JsonText

/-- A text as a whole: the value it begins with, and whether anything but blanks follows. -/
structure DraftText where
  value : Draft
  trailing : Bool

def DraftText.ofString (text : String) : DraftText :=
  let text := text.toList
  let read := JsonText.readValue (3 * text.length + 3) text
  ⟨read.result, read.rest.any fun rest => !(JsonText.dropSpace rest).isEmpty⟩

end CodeTint
