import Mathlib.Data.List.Basic
import CodeTint.Text.Chars
import CodeTint.Proofs.Text.Cursor

/-!
# Runs of characters

A text is taken apart at its places: what lies before a place and what lies behind it make up the
text (`Cursor.between`). A maximal run of characters of a class is such a part with no character of
the class on either side (`IsMaximalRun`), and a stretch that ends next to no character of the class
holds all of the run or nothing of it (`Cursor.pass_le_of_rest`, `Cursor.pass_le_of_before`).
-/

namespace CodeTint

/-! ## Letters -/

def isAsciiLetter (x : Char) : Bool :=
  ('a' ≤ x && x ≤ 'z') || ('A' ≤ x && x ≤ 'Z')

/-- The characters of words that are no digits. -/
def isLetterOrUnderscore (x : Char) : Bool :=
  isAsciiLetter x || x = '_'

theorem isAsciiWord_eq (x : Char) : isAsciiWord x = (isAsciiDigit x || isLetterOrUnderscore x) := by
  rw [isLetterOrUnderscore, Bool.or_left_comm, ← Bool.or_assoc]
  rfl

theorem isAsciiWord_of_isAsciiLetter {x : Char} (h : isAsciiLetter x) : isAsciiWord x := by
  simp [isAsciiWord_eq, isLetterOrUnderscore, h]

theorem isAsciiDigit_eq_false_of_isAsciiLetter {x : Char} (h : isAsciiLetter x) :
    isAsciiDigit x = false := by
  simp only [isAsciiLetter, isAsciiDigit, Char.le_def, UInt32.le_iff_toNat_le] at *
  simp at *
  omega

/-- Next to something stands no word character if neither a digit nor another one does. -/
theorem any_isAsciiWord_eq (x : Option Char) :
    x.any isAsciiWord = (x.any isAsciiDigit || x.any isLetterOrUnderscore) := by
  cases x with
  | none => rfl
  | some x => exact isAsciiWord_eq x

/-! ## Parts of a text -/

/-- The part `run` of the text, which lies between `front` and `back`, consists of characters of the
class, and has none of them on either side. -/
structure IsMaximalRun (p : Char → Bool) (text front run back : List Char) : Prop where
  text_eq : text = front ++ run ++ back
  ne_nil : run ≠ []
  all : ∀ x ∈ run, p x
  before : front.getLast?.any p = false
  behind : back.head?.any p = false

namespace Span

/-- The span of the part `middle` of a text that lies behind `front`. -/
def covering (category : Option Category) (front middle : List Char) : Span :=
  ⟨category, byteSize front, byteSize (front ++ middle)⟩

theorem covering_start_lt_stop (category : Option Category) (front : List Char)
    {middle : List Char} (h : middle ≠ []) :
    (covering category front middle).start < (covering category front middle).stop := by
  rw [covering, byteSize_append]
  exact Nat.lt_add_of_pos_right (byteSize_pos h)

/-- The span holds all of the part `middle`, which lies behind `front`. -/
def Holds (span : Span) (front middle : List Char) : Prop :=
  span.start ≤ byteSize front ∧ byteSize (front ++ middle) ≤ span.stop

/-- The span has characters in common with the part `middle`, which lies behind `front`. -/
def Overlaps (span : Span) (front middle : List Char) : Prop :=
  span.start < byteSize (front ++ middle) ∧ byteSize front < span.stop

end Span

namespace Cursor

variable {c d e : Cursor} {p : Char → Bool} {text front middle back : List Char}

/-- The place between the two parts of a text. -/
def between (front back : List Char) : Cursor :=
  ⟨front.reverse, back, byteSize front⟩

@[simp] theorem before_between (front back : List Char) :
    (between front back).before = front.getLast? :=
  List.head?_reverse

theorem atStart_eq_between (text : List Char) : atStart text 0 = between [] text :=
  rfl

theorem between_pass (front middle back : List Char) :
    (between front (middle ++ back)).pass middle back = between (front ++ middle) back := by
  simp [between, pass]

theorem between_le (front middle back : List Char) :
    between front (middle ++ back) ≤ between (front ++ middle) back :=
  ⟨middle, rfl, (between_pass front middle back).symm⟩

theorem between_lt (front back : List Char) (hne : middle ≠ []) :
    between front (middle ++ back) < between (front ++ middle) back :=
  between_pass front middle back ▸ lt_pass _ rfl hne

theorem atStart_le_between (h : text = front ++ back) : atStart text 0 ≤ between front back := by
  rw [h]
  exact between_le [] front back

/-- Every place of a text lies between two parts of it. -/
theorem exists_eq_between (h : atStart text 0 ≤ c) :
    ∃ front, text = front ++ c.rest ∧ c = between front c.rest := by
  obtain ⟨front, htext, hc⟩ := h
  refine ⟨front, htext, ?_⟩
  obtain rfl : text = front ++ c.rest := htext
  rw [atStart_eq_between, between_pass] at hc
  exact hc

theorem exists_le_of_lt (h : c < d) :
    ∃ e x, c ≤ e ∧ e.rest = x :: d.rest ∧ d.before = some x ∧ e < d := by
  have hne : c.textTo d ≠ [] := fun hnil => h.ne ((textTo_eq_nil_iff h.le).mp hnil)
  obtain ⟨passed, x, hpassed⟩ := (List.eq_nil_or_concat' _).resolve_left hne
  have hrest : c.rest = passed ++ ([x] ++ d.rest) := by
    rw [rest_eq_textTo_append h.le, hpassed, List.append_assoc]
  have hd : (c.pass passed ([x] ++ d.rest)).pass [x] d.rest = d := by
    rw [pass_pass, ← hpassed, ← eq_pass_textTo h.le]
  refine ⟨_, x, c.le_pass hrest, rfl, ?_, hd ▸ lt_pass _ rfl (List.cons_ne_nil x [])⟩
  rw [← hd]
  rfl

theorem any_getLast?_textTo (h : c ≤ d) (hd : d.before.any p = false) :
    (c.textTo d).getLast?.any p = false := by
  have hbefore := before_eq_getLast?_textTo h
  cases hlast : (c.textTo d).getLast? with
  | none => rfl
  | some x =>
      rw [hlast, Option.some_or] at hbefore
      exact hbefore ▸ hd

/-- A maximal run of the text is one of every part of the text in which it lies. -/
theorem isMaximalRun_textTo {run : List Char} (hrun : IsMaximalRun p text front run back)
    (hc : c ≤ between front (run ++ back)) (hd : between (front ++ run) back ≤ d) :
    IsMaximalRun p (c.textTo d) (c.textTo (between front (run ++ back))) run
      ((between (front ++ run) back).textTo d) := by
  have hbetween := between_le front run back
  refine ⟨?_, hrun.ne_nil, hrun.all, ?_, ?_⟩
  · have hmiddle : (between front (run ++ back)).textTo (between (front ++ run) back) = run := by
      rw [← between_pass, textTo_pass rfl]
    rw [← textTo_append_textTo hc (hbetween.trans hd), ← textTo_append_textTo hbetween hd, hmiddle,
      List.append_assoc]
  · exact any_getLast?_textTo hc (by rw [before_between, hrun.before])
  · have hrest := rest_eq_textTo_append hd
    cases hmore : (between (front ++ run) back).textTo d with
    | nil => rfl
    | cons x more =>
        rw [hmore] at hrest
        obtain rfl : back = x :: (more ++ d.rest) := hrest
        exact hrun.behind

/-! ## Places within a run -/

/-- A place within a run has one of its characters ahead. -/
theorem any_head?_of_lt_pass {run : List Char} (hrun : ∀ x ∈ run, p x) (hc : c.rest = run ++ back)
    (hcd : c ≤ d) (hlt : d < c.pass run back) : d.rest.head?.any p := by
  have hrest := rest_eq_textTo_append hcd
  rw [hc] at hrest
  rcases List.append_eq_append_iff.mp hrest with ⟨more, hmore, -⟩ | ⟨more, hmore, hd⟩
  · -- The place would lie behind the run.
    have hoffset := offset_eq_add_byteSize_textTo hcd
    have hlt := (lt_iff.mp hlt).2
    rw [hmore, byteSize_append] at hoffset
    simp only [pass] at hlt
    omega
  · cases more with
    | nil =>
        have hoffset := offset_eq_add_byteSize_textTo hcd
        have hlt := (lt_iff.mp hlt).2
        rw [List.append_nil] at hmore
        simp only [pass, hmore] at hlt
        omega
    | cons x more =>
        rw [hd]
        exact hrun x (hmore ▸ List.mem_append_right _ List.mem_cons_self)

theorem any_before_of_le_pass {run : List Char} (hrun : ∀ x ∈ run, p x) (hc : c.rest = run ++ back)
    (hlt : c < d) (hle : d ≤ c.pass run back) : d.before.any p := by
  obtain ⟨e, x, hce, he, hx, hed⟩ := exists_le_of_lt hlt
  have hahead := any_head?_of_lt_pass hrun hc hce (hed.trans_le hle)
  rw [he] at hahead
  rw [hx]
  exact hahead

/-- What ends before no character of the class does not end within a run of them. -/
theorem pass_le_of_rest {run : List Char} (hrun : ∀ x ∈ run, p x) (hc : c.rest = run ++ back)
    (hcd : c ≤ d) (hd : d.rest.head?.any p = false) : c.pass run back ≤ d := by
  refine (lt_or_le hcd (c.le_pass hc)).resolve_left fun hlt => ?_
  rw [any_head?_of_lt_pass hrun hc hcd hlt] at hd
  cases hd

/-- What ends behind no character of the class does not end within a run of them. -/
theorem pass_le_of_before {run : List Char} (hrun : ∀ x ∈ run, p x) (hc : c.rest = run ++ back)
    (hlt : c < d) (hd : d.before.any p = false) : c.pass run back ≤ d := by
  refine ((lt_or_le hlt.le (c.le_pass hc)).resolve_left fun hbefore => ?_)
  rw [any_before_of_le_pass hrun hc hlt hbefore.le] at hd
  cases hd

end Cursor

end CodeTint
