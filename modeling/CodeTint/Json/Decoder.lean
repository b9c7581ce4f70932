import CodeTint.Json.Reader
import CodeTint.Json.Walk

/-!
# Reading values of a known kind

A `Decoder` takes what it wants from a draft, in the order in which the text gives it, and stops at
the first thing that is not as it should be. A text is read in this way while it is being parsed, so
that a mismatch that stands before a fault of the text is what is reported. A value that is known in
full has no faults, so that reading it can only end in a mismatch.

A record is written as an object, or as the array of its fields in order. An object may hold members
that the record does not know, but none of its own twice. A choice is written as its name, or as the
object whose only member has that name.
-/

namespace CodeTint

/-- Where a value is read: how deep it may nest, and whether it was read in full before. -/
structure Reading where
  nesting : Nesting
  settled : Bool

namespace Reading

def enter (reading : Reading) : Except Fault Reading :=
  reading.nesting.enter.map fun nesting => { reading with nesting }

end Reading

/-- A way to read values of one kind. -/
abbrev Decoder (α : Type) := Reading → Draft → Except Fault α

namespace Decoder

variable {α β : Type}

/-- Reads a value that is known in full. -/
def ofJson (decoder : Decoder α) (value : Json) : Except Fault α :=
  match decoder ⟨none, false⟩ (Draft.ofJson value) with
  | .ok a => .ok a
  | .error _ => .error .mismatch

/-- Reads a text as a whole. -/
def ofText (decoder : Decoder α) (text : String) : Except Fault α :=
  let draft := DraftText.ofString text
  match decoder ⟨textNesting, false⟩ draft.value with
  | .ok a => if draft.trailing then .error .malformed else .ok a
  | .error fault => .error fault

/-! ## Single values -/

def json : Decoder Json :=
  fun reading draft => draft.toJson reading.nesting

def string : Decoder String
  | _, .string text => .ok text
  | _, draft => .error draft.mismatch

def byte : Decoder UInt8
  | _, .number (.whole value) =>
    if 0 ≤ value && value < 256 then .ok (UInt8.ofNat value.toNat) else .error .mismatch
  | _, draft => .error draft.mismatch

/-- A value of the decoder that `convert` accepts. -/
def filterMap (decoder : Decoder α) (convert : α → Option β) : Decoder β :=
  fun reading draft => do
    match convert (← decoder reading draft) with
    | some b => .ok b
    | none => .error .mismatch

/-- A value of the decoder, or `null` for none. -/
def option (decoder : Decoder α) : Decoder (Option α)
  | _, .null => .ok none
  | reading, .brokenToken first whenRead whenSkipped =>
    if first = 'n' then .error whenRead
    else some <$> decoder reading (.brokenToken first whenRead whenSkipped)
  | reading, draft => some <$> decoder reading draft

/-! ## Lists -/

def items (decoder : Decoder α) (reading : Reading) : DraftItems → Except Fault (List α)
  | .closed => .ok []
  | .cut fault => .error fault
  | .more item rest => do
    let a ← decoder reading item
    return a :: (← items decoder reading rest)

def list (decoder : Decoder α) : Decoder (List α)
  | reading, .array draft => do items decoder (← reading.enter) draft
  | _, draft => .error draft.mismatch

/-! ## Records -/

/-- A field of a record of the type `α`. -/
structure Field (α : Type) where
  name : String
  required : Bool
  /-- Reads the value of the field into the record. -/
  read : Reading → Draft → α → Except Fault α

/-- The field that the decoder reads and `set` writes. -/
def field (name : String) (required : Bool) (decoder : Decoder β) (set : β → α → α) : Field α :=
  ⟨name, required, fun reading draft record => return set (← decoder reading draft) record⟩

/-- Reads the fields in order from the items of an array. Fields that may be missing may be left out
at the end. -/
def fieldsFromItems (reading : Reading) : List (Field α) → α → DraftItems → Except Fault α
  | [], record, items => do
    items.close
    return record
  | _ :: _, _, .cut fault => .error fault
  | fields, record, .closed => if fields.any (·.required) then .error .mismatch else .ok record
  | field :: fields, record, .more item items => do
    let record ← field.read reading item record
    fieldsFromItems reading fields record items

/-- Reads the fields from the members of an object. `given` holds the names of the fields that were
met before. -/
def fieldsFromMembers (reading : Reading) (fields : List (Field α)) (given : List String)
    (record : α) : DraftMembers → Except Fault α
  | .closed =>
    if fields.any fun field => field.required && !given.contains field.name then .error .mismatch
    else .ok record
  | .cut fault => .error fault
  | .odd _ => .error .malformed
  | .badName fault => .error fault
  | .more none _ _ => .error .malformed
  | .more (some name) value members =>
    match fields.find? (·.name = name) with
    | none => do
      value.skip
      fieldsFromMembers reading fields given record members
    | some field =>
      if given.contains name then .error .mismatch
      else do
        let record ← field.read reading value record
        fieldsFromMembers reading fields (name :: given) record members

/-- A record that is always written as the array of its fields. -/
def tuple (fields : List (Field α)) (start : α) : Decoder α
  | reading, .array items => do fieldsFromItems (← reading.enter) fields start items
  | _, draft => .error draft.mismatch

/-- A record with the given fields; those that are not given keep what they are in `start`. -/
def record (fields : List (Field α)) (start : α) : Decoder α
  | reading, .object members => do fieldsFromMembers (← reading.enter) fields [] start members
  | reading, draft => tuple fields start reading draft

/-! ## Choices -/

/-- One case of a choice: its names, and what it holds. -/
inductive Variant (α : Type) where
  | plain (names : List String) (value : α)
  | holding (name : String) (decoder : Decoder α)

namespace Variant

def hasName (variant : Variant α) (name : String) : Bool :=
  match variant with
  | plain names _ => names.contains name
  | holding own _ => own = name

/-- The case when only its name is given. -/
def ofName (variant : Variant α) : Except Fault α :=
  match variant with
  | plain _ value => .ok value
  | holding _ _ => .error .mismatch

/-- The case with what is given behind its name. A case that holds nothing has `null` there, or
nothing in braces where the value was read in full before. -/
def ofContent (variant : Variant α) (reading : Reading) (draft : Draft) : Except Fault α :=
  match variant, draft with
  | plain _ value, .null => .ok value
  | plain _ value, .object .closed => if reading.settled then .ok value else .error .mismatch
  | plain _ _, draft => .error draft.mismatch
  | holding _ decoder, draft => decoder reading draft

end Variant

def choice (variants : List (Variant α)) : Decoder α
  | _, .string name =>
    match variants.find? (·.hasName name) with
    | some variant => variant.ofName
    | none => .error .mismatch
  | reading, .object members => do
    let reading ← reading.enter
    match members with
    | .closed => .error .malformed
    | .cut fault => .error fault
    | .odd name => .error name.mismatch
    | .badName fault => .error fault
    | .more none _ _ => .error .malformed
    | .more (some name) content members =>
      match variants.find? (·.hasName name) with
      | some variant =>
        let a ← variant.ofContent reading content
        members.close
        return a
      | none => .error .mismatch
  | _, .absent fault => .error fault
  | _, .brokenString whenRead _ => .error whenRead
  | _, _ => .error .malformed

/-! ## Tagged records -/

/-- The decoder for the tag, which is known by its name alone. -/
def tag (variants : List (String × Decoder α)) : Decoder (Decoder α) :=
  string.filterMap fun name => variants.lookup name

/-- Reads the members of an object in full, and finds the one that holds the tag. -/
def findTag (name : String) (variants : List (String × Decoder α)) (reading : Reading)
    (found : Option (Decoder α)) : DraftMembers → Except Fault (Decoder α × DraftMembers)
  | .closed =>
    match found with
    | some decoder => .ok (decoder, .closed)
    | none => .error .mismatch
  | .cut fault => .error fault
  | .odd _ => .error .malformed
  | .badName fault => .error fault
  | .more none _ _ => .error .malformed
  | .more (some own) value members =>
    if own = name then
      match found with
      | some _ => .error .mismatch
      | none => do
        let decoder ← tag variants reading value
        findTag name variants reading (some decoder) members
    else do
      value.settle reading.nesting
      let (decoder, others) ← findTag name variants reading found members
      return (decoder, .more (some own) value others)

/-- What a decoder reads from a draft that was read in full before, so that all its faults are
mismatches. -/
def fromSettled (decoder : Decoder α) (draft : Draft) : Except Fault α :=
  match decoder ⟨none, true⟩ draft with
  | .ok a => .ok a
  | .error _ => .error .mismatch

/-- A record of which one member, or the first item, tells the kind. The other members are read by
the decoder of that kind, once the whole record has been read. -/
def tagged (name : String) (variants : List (String × Decoder α)) : Decoder α
  | reading, .object members => do
    let (decoder, others) ← findTag name variants (← reading.enter) none members
    decoder.fromSettled (.object others)
  | reading, .array items => do
    let reading ← reading.enter
    match items with
    | .closed => .error .mismatch
    | .cut fault => .error fault
    | .more kind items =>
      let decoder ← tag variants reading kind
      items.settle reading.nesting
      decoder.fromSettled (.array items)
  | _, draft => .error draft.mismatch

end Decoder

end CodeTint
