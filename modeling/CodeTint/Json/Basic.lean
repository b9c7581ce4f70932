/-!
# JSON values

A JSON value, with the members of every object in the order of their names and no name twice.
Numbers are whole or kept as they were written: nothing here computes with a fraction.
-/

namespace CodeTint

inductive JsonNumber where
  | whole (value : Int)
  /-- A number with a fraction or an exponent, or the negative zero, as it is written. -/
  | decimal (spelling : String)
deriving Repr, DecidableEq

inductive Json where
  | null
  | bool (value : Bool)
  | number (value : JsonNumber)
  | string (text : String)
  | array (items : List Json)
  | object (members : List (String × Json))
deriving Repr, Inhabited

/-- The members with `name` set to `value`, in the order of the names. -/
def putMember {α : Type} (name : String) (value : α) : List (String × α) → List (String × α)
  | [] => [(name, value)]
  | (other, old) :: members =>
    if name < other then (name, value) :: (other, old) :: members
    else if name = other then (name, value) :: members
    else (other, old) :: putMember name value members

/-- The members in the order of their names, of which a later one replaces an earlier one of its
name. -/
def putMembers (members : List (String × Json)) : List (String × Json) :=
  members.foldl (fun object (name, value) => putMember name value object) []

namespace Json

/-- The object with the given members, of which a later one replaces an earlier one of its name. -/
def ofMembers (members : List (String × Json)) : Json :=
  .object (putMembers members)

def ofNat (n : Nat) : Json :=
  .number (.whole n)

def ofStrings (texts : List String) : Json :=
  .array (texts.map .string)

def optionalMember (name : String) : Option String → List (String × Json)
  | some text => [(name, .string text)]
  | none => []

/-- The member of the name, if the value is an object that has it. -/
def get? (name : String) : Json → Option Json
  | .object members => members.lookup name
  | _ => none

end Json

/-! ## What a text says, as far as it can be read

A text that should be JSON may break off or go wrong at any place, and whoever reads it meets what
is written before that place first. A `Draft` is therefore a value as far as the text gives one,
with the fault at the place where reading stopped. A reader that wants something else than what is
written finds so before it comes to the fault; a reader that has no use for a value skips it, and is
then stopped only by the faults that hide the end of the value. -/

/-- Why a text does not give what was asked for. -/
inductive Fault where
  | malformed
  | truncated
  /-- The text is JSON up to here, but not what was asked for. -/
  | mismatch
deriving Repr, DecidableEq

mutual

/-- A value as far as the text gives one. -/
inductive Draft where
  | null
  | bool (value : Bool)
  | number (value : JsonNumber)
  /-- A number that is too large to be read. -/
  | hugeNumber
  | string (text : String)
  /-- A text with half a character in it, which can be skipped but not read. -/
  | looseString
  | array (items : DraftItems)
  | object (members : DraftMembers)
  /-- No value begins here. -/
  | absent (fault : Fault)
  /-- A text between quotes that goes wrong, with the fault for who reads it and for who skips it.
  -/
  | brokenString (whenRead whenSkipped : Fault)
  /-- Another value that goes wrong behind its first character. -/
  | brokenToken (first : Char) (whenRead whenSkipped : Fault)

/-- The items of an array, up to the place where the array is closed or goes wrong. -/
inductive DraftItems where
  | closed
  /-- Neither a further item nor the end of the array stands here. -/
  | cut (fault : Fault)
  | more (item : Draft) (items : DraftItems)

/-- The members of an object, up to the place where the object is closed or goes wrong. -/
inductive DraftMembers where
  | closed
  /-- Neither a further member nor the end of the object stands here. -/
  | cut (fault : Fault)
  /-- The object begins with something else than the name of a member. -/
  | odd (name : Draft)
  /-- The name of the member goes wrong. -/
  | badName (fault : Fault)
  /-- A member; its name is none if there is half a character in it. -/
  | more (name : Option String) (value : Draft) (members : DraftMembers)

end

/-! ### The draft of a value -/

mutual

/-- The draft of a value that is known in full. -/
def Draft.ofJson : Json → Draft
  | .null => .null
  | .bool value => .bool value
  | .number value => .number value
  | .string text => .string text
  | .array items => .array (DraftItems.ofList items)
  | .object members => .object (DraftMembers.ofList members)

def DraftItems.ofList : List Json → DraftItems
  | [] => .closed
  | item :: items => .more (Draft.ofJson item) (DraftItems.ofList items)

def DraftMembers.ofList : List (String × Json) → DraftMembers
  | [] => .closed
  | (name, value) :: members => .more (some name) (Draft.ofJson value) (DraftMembers.ofList members)

end

/-! ## Writing JSON

A value is written compactly on one line, or pretty with two blanks for each level and the names of
members followed by a colon and a blank. In texts only the quote, the backslash and the control
characters are escaped. -/

/-- The hexadecimal digits of the number, at least `width` of them. -/
def paddedHex (width n : Nat) : List Char :=
  let digits := Nat.toDigits 16 n
  List.replicate (width - digits.length) '0' ++ digits

namespace Json

def escapedChar (c : Char) : List Char :=
  match c with
  | '"' => ['\\', '"']
  | '\\' => ['\\', '\\']
  | '\x08' => ['\\', 'b']
  | '\x0c' => ['\\', 'f']
  | '\n' => ['\\', 'n']
  | '\r' => ['\\', 'r']
  | '\t' => ['\\', 't']
  | c => if c.toNat < 0x20 then ['\\', 'u'] ++ paddedHex 4 c.toNat else [c]

def writeString (text : String) : List Char :=
  '"' :: (text.toList.flatMap escapedChar ++ ['"'])

def writeNumber : JsonNumber → List Char
  | .whole value => (toString value).toList
  | .decimal spelling => spelling.toList

mutual

/-- The value on one line, without blanks. -/
def write : Json → List Char
  | .null => "null".toList
  | .bool true => "true".toList
  | .bool false => "false".toList
  | .number n => writeNumber n
  | .string text => writeString text
  | .array items => '[' :: writeItems items
  | .object members => '\x7b' :: writeMembers members

def writeItems : List Json → List Char
  | [] => [']']
  | [item] => write item ++ [']']
  | item :: items => write item ++ ',' :: writeItems items

def writeMembers : List (String × Json) → List Char
  | [] => ['\x7d']
  | [(name, value)] => writeString name ++ ':' :: (write value ++ ['\x7d'])
  | (name, value) :: members =>
    writeString name ++ ':' :: (write value ++ ',' :: writeMembers members)

end

/-- The end of a line and the blanks before what stands at the given level. -/
def newLine (level : Nat) : List Char :=
  '\n' :: List.replicate (2 * level) ' '

mutual

/-- The value over several lines, standing at the given level. -/
def writePretty (level : Nat) : Json → List Char
  | .null => "null".toList
  | .bool true => "true".toList
  | .bool false => "false".toList
  | .number n => writeNumber n
  | .string text => writeString text
  | .array [] => ['[', ']']
  | .array (item :: items) => '[' :: writePrettyItems level (item :: items)
  | .object [] => ['\x7b', '\x7d']
  | .object (m :: members) => '\x7b' :: writePrettyMembers level (m :: members)

/-- The items of an array that stands at the given level, and its closing bracket. -/
def writePrettyItems (level : Nat) : List Json → List Char
  | [] => newLine level ++ [']']
  | [item] => newLine (level + 1) ++ (writePretty (level + 1) item ++ (newLine level ++ [']']))
  | item :: items =>
    newLine (level + 1) ++ (writePretty (level + 1) item ++ ',' :: writePrettyItems level items)

/-- The members of an object that stands at the given level, and its closing brace. -/
def writePrettyMembers (level : Nat) : List (String × Json) → List Char
  | [] => newLine level ++ ['\x7d']
  | [(name, value)] =>
    newLine (level + 1) ++ (writeString name ++ ':' :: ' ' ::
      (writePretty (level + 1) value ++ (newLine level ++ ['\x7d'])))
  | (name, value) :: members =>
    newLine (level + 1) ++ (writeString name ++ ':' :: ' ' ::
      (writePretty (level + 1) value ++ ',' :: writePrettyMembers level members))

end

def compact (value : Json) : String :=
  String.ofList (write value)

def pretty (value : Json) : String :=
  String.ofList (writePretty 0 value)

end Json

end CodeTint
