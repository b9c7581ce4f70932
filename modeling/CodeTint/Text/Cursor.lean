/-!
# Places in a text

Offsets into a text count the bytes of its UTF-8 form. A `Cursor` is a place between two characters
of a text. It knows the text before it and the text after it, so that whatever a pattern may ask
about the place can be answered. Places of one text are ordered by what lies between them: `c ≤ d`
says that `d` is reached from `c` by passing over characters.
-/

namespace CodeTint

/-- The number of bytes that the characters take in UTF-8. -/
def byteSize (text : List Char) : Nat :=
  text.foldr (fun c size => c.utf8Size + size) 0

@[simp] theorem byteSize_nil : byteSize [] = 0 := rfl

@[simp] theorem byteSize_cons (x : Char) (text : List Char) :
    byteSize (x :: text) = x.utf8Size + byteSize text := rfl

@[simp] theorem byteSize_append (a b : List Char) :
    byteSize (a ++ b) = byteSize a + byteSize b := by
  induction a with
  | nil => simp
  | cons x a ih => simp [ih, Nat.add_assoc]

/-- The characters that begin within the first `size` bytes. -/
def takeBytes : (size : Nat) → (text : List Char) → List Char
  | _, [] => []
  | size, c :: text => if size = 0 then [] else c :: takeBytes (size - c.utf8Size) text

/-- The characters that begin at or after the first `size` bytes. -/
def dropBytes : (size : Nat) → (text : List Char) → List Char
  | _, [] => []
  | size, c :: text => if size = 0 then c :: text else dropBytes (size - c.utf8Size) text

/-- A place between two characters of a text. -/
structure Cursor where
  /-- The characters before the place, the last one first. -/
  passed : List Char
  /-- The characters from the place to the end of the text. -/
  rest : List Char
  /-- The number of bytes before the place, and of those before the text if it is an excerpt. -/
  offset : Nat
deriving Repr, DecidableEq

namespace Cursor

def before (c : Cursor) : Option Char :=
  c.passed.head?

/-- The beginning of a text whose first byte has the given offset. -/
def atStart (text : List Char) (offset : Nat) : Cursor :=
  ⟨[], text, offset⟩

def next? (c : Cursor) : Option Cursor :=
  match c.rest with
  | [] => none
  | x :: rest => some ⟨x :: c.passed, rest, c.offset + x.utf8Size⟩

def atEnd (c : Cursor) : Cursor :=
  ⟨c.rest.reverse ++ c.passed, [], c.offset + byteSize c.rest⟩

/-! ## The order of places -/

/-- The place behind the characters `passed`, which `rest` follows. -/
def pass (c : Cursor) (passed rest : List Char) : Cursor :=
  ⟨passed.reverse ++ c.passed, rest, c.offset + byteSize passed⟩

/-- A place lies at another one or behind it. -/
instance : LE Cursor where
  le c d := ∃ passed, c.rest = passed ++ d.rest ∧ d = c.pass passed d.rest

theorem pass_nil (c : Cursor) : c.pass [] c.rest = c := by
  simp [pass]

theorem pass_pass (c : Cursor) (a b rest rest' : List Char) :
    (c.pass a rest).pass b rest' = c.pass (a ++ b) rest' := by
  simp [pass, Nat.add_assoc]

theorem le_self (c : Cursor) : c ≤ c :=
  ⟨[], rfl, c.pass_nil.symm⟩

theorem le_of_le {c d e : Cursor} : c ≤ d → d ≤ e → c ≤ e := by
  rintro ⟨a, hc, hd⟩ ⟨b, hd', he⟩
  refine ⟨a ++ b, by rw [hc, hd', List.append_assoc], ?_⟩
  rw [hd, pass_pass] at he
  exact he

theorem next_le {c e : Cursor} (h : c.next? = some e) : c ≤ e := by
  obtain ⟨passed, rest, offset⟩ := c
  cases rest with
  | nil => cases h
  | cons x rest =>
      obtain rfl := Option.some.inj h
      exact ⟨[x], rfl, rfl⟩

/-! ## Excerpts -/

/-- The text between a place and a later one. -/
def textTo (c stop : Cursor) : List Char :=
  takeBytes (stop.offset - c.offset) c.rest

/-- The same place in the text as it is when it ends at the later place `stop`. -/
def cutAt (c stop : Cursor) : Cursor :=
  { c with rest := c.textTo stop }

/-- The beginning of the text between a place and a later one, taken as a text of its own. -/
def alone (c stop : Cursor) : Cursor :=
  atStart (c.textTo stop) c.offset

end Cursor

/-- A stretch of a text, from one place to a later one. -/
structure Stretch where
  start : Cursor
  stop : Cursor
deriving Repr, DecidableEq

namespace Stretch

def isEmpty (s : Stretch) : Bool :=
  s.start.offset = s.stop.offset

def text (s : Stretch) : List Char :=
  s.start.textTo s.stop

end Stretch

end CodeTint
