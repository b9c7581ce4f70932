import Mathlib.Tactic.Common
import CodeTint.Json.Basic
import CodeTint.Json.Reader
import CodeTint.Text.Chars
import CodeTint.Text.Quoted

/-!
# Numbers and quoted texts are read back

What is written in digits or between quotes gives the number or the text that it stands for, and
does not run into what stands behind it.
-/

namespace CodeTint

/-! ## Digits

The digits of a number in a base of at most sixteen give the number (`digitsValue?_toDigits`), and
no other character stands among them (`not_mem_toDigits`). -/

section Digits

variable {base : Nat}

theorem digitValue?_digitChar :
    ∀ base ≤ 16, ∀ digit < base, digitValue? base digit.digitChar = some digit := by
  decide

theorem digitsValue?_append_singleton (digits : List Char) (c : Char) :
    digitsValue? base (digits ++ [c]) =
      (digitsValue? base digits).bind fun value =>
        (digitValue? base c).map (value * base + ·) := by
  rw [digitsValue?, List.foldlM_append]
  refine congrArg _ (funext fun value => ?_)
  rw [List.foldlM_cons]
  cases digitValue? base c <;> rfl

theorem digitsValue?_toDigits (hbase : 1 < base) (hle : base ≤ 16) (n : Nat) :
    digitsValue? base (Nat.toDigits base n) = some n := by
  induction n using Nat.strongRecOn with
  | ind n ih =>
      have hlast := digitValue?_digitChar base hle (n % base) (Nat.mod_lt n (by omega))
      by_cases hn : n < base
      · rw [Nat.mod_eq_of_lt hn] at hlast
        rw [Nat.toDigits_of_lt_base hn, ← List.nil_append [_], digitsValue?_append_singleton, hlast]
        simp [digitsValue?]
      · have hrest := ih (n / base) (Nat.div_lt_self (by omega) hbase)
        rw [Nat.toDigits_of_base_le hbase (by omega), digitsValue?_append_singleton, hrest, hlast,
          Option.bind_some, Option.map_some, Nat.mul_comm, Nat.div_add_mod]

/-- What holds of the single digits holds of each digit of a number. -/
theorem forall_mem_toDigits {p : Char → Prop} (hbase : 1 < base)
    (h : ∀ digit < base, p digit.digitChar) (n : Nat) : ∀ c ∈ Nat.toDigits base n, p c := by
  induction n using Nat.strongRecOn with
  | ind n ih =>
      by_cases hn : n < base
      · rw [Nat.toDigits_of_lt_base hn]
        exact List.forall_mem_singleton.mpr (h n hn)
      · rw [Nat.toDigits_of_base_le hbase (by omega)]
        exact List.forall_mem_append.mpr ⟨ih (n / base) (Nat.div_lt_self (by omega) hbase),
          List.forall_mem_singleton.mpr (h (n % base) (Nat.mod_lt n (by omega)))⟩

theorem isSome_digitValue?_of_mem_toDigits (hbase : 1 < base) (hle : base ≤ 16) (n : Nat) :
    ∀ c ∈ Nat.toDigits base n, (digitValue? base c).isSome :=
  forall_mem_toDigits hbase (fun digit hdigit => by
    rw [digitValue?_digitChar base hle digit hdigit]
    rfl) n

theorem not_mem_toDigits (hbase : 1 < base) (hle : base ≤ 16) {c : Char}
    (hc : digitValue? base c = none) (n : Nat) : c ∉ Nat.toDigits base n := by
  intro hmem
  have hsome := isSome_digitValue?_of_mem_toDigits hbase hle n c hmem
  rw [hc] at hsome
  cases hsome

/-! ### Decimal numbers -/

def decimalDigits (n : Nat) : List Char :=
  Nat.toDigits 10 n

theorem toList_toString (n : Nat) : (toString n).toList = decimalDigits n :=
  Nat.toList_repr

theorem digitsValue?_decimalDigits (n : Nat) : digitsValue? 10 (decimalDigits n) = some n :=
  digitsValue?_toDigits (by decide) (by decide) n

theorem forall_mem_decimalDigits {p : Char → Prop} (h : ∀ digit < 10, p digit.digitChar) (n : Nat) :
    ∀ c ∈ decimalDigits n, p c :=
  forall_mem_toDigits (by decide) h n

theorem decimalDigits_ne_nil (n : Nat) : decimalDigits n ≠ [] :=
  Nat.toDigits_ne_nil

theorem not_mem_decimalDigits {c : Char} (hc : digitValue? 10 c = none) (n : Nat) :
    c ∉ decimalDigits n :=
  not_mem_toDigits (by decide) (by decide) hc n

end Digits

/-! ## Quoted text

A quoted text gives back the text when its escapes are undone (`unquote?_quoted`), and it stands on
one line (`newline_not_mem_quoted`). -/

/-! ### Undoing quotation -/

/-- The character that an escape of one letter stands for. -/
def shortEscaped? (c : Char) : Option Char :=
  match c with
  | '"' => some '"'
  | '\\' => some '\\'
  | 'n' => some '\n'
  | 'r' => some '\r'
  | 't' => some '\t'
  | '0' => some '\x00'
  | _ => none

/-- Reads up to the closing quote, behind which nothing may stand. `point` holds what has been read
of a code point in braces, the last digit first. -/
def unquoteFrom? : (point : Option (List Char)) → (text : List Char) → Option (List Char)
  | _, [] => none
  | some reversed, '\x7d' :: text =>
    (digitsValue? 16 reversed.reverse).bind fun point =>
      (unquoteFrom? none text).map (Char.ofNat point :: ·)
  | some reversed, c :: text => unquoteFrom? (some (c :: reversed)) text
  | none, ['"'] => some []
  | none, '\\' :: 'u' :: '\x7b' :: text => unquoteFrom? (some []) text
  | none, '\\' :: c :: text =>
    (shortEscaped? c).bind fun c => (unquoteFrom? none text).map (c :: ·)
  | none, c :: text =>
    if c = '"' || c = '\\' then none else (unquoteFrom? none text).map (c :: ·)

def unquote? (text : List Char) : Option String :=
  match text with
  | '"' :: text => (unquoteFrom? none text).map String.ofList
  | _ => none

/-! ### What is read of quoted text -/

theorem unquoteFrom?_digits {digits reversed text : List Char} (h : '\x7d' ∉ digits) :
    unquoteFrom? (some reversed) (digits ++ text) =
      unquoteFrom? (some (digits.reverse ++ reversed)) text := by
  induction digits generalizing reversed with
  | nil => rfl
  | cons c digits ih =>
      rw [List.mem_cons, not_or] at h
      rw [List.cons_append, unquoteFrom?, ih h.2, List.reverse_cons, List.append_assoc,
        List.singleton_append]
      exact fun heq => h.1 heq.symm

theorem not_mem_hexDigits {c : Char} (h : digitValue? 16 c = none) (n : Nat) : c ∉ hexDigits n :=
  not_mem_toDigits (by decide) (Nat.le_refl _) h n

/-- A quoted character is read as the character, whatever follows. -/
theorem unquoteFrom?_quotedChar (c : Char) (text : List Char) :
    unquoteFrom? none (quotedChar c ++ text) = (unquoteFrom? none text).map (c :: ·) := by
  have hclose : '\x7d' ∉ hexDigits c.toNat := not_mem_hexDigits (by decide) _
  have hvalue : digitsValue? 16 (hexDigits c.toNat) = some c.toNat :=
    digitsValue?_toDigits (by decide) (Nat.le_refl _) _
  unfold quotedChar
  split
  case h_7 hquote hbackslash _ _ _ _ =>
    split
    · show unquoteFrom? (some []) (hexDigits c.toNat ++ ['\x7d'] ++ text) = _
      rw [List.append_assoc, unquoteFrom?_digits hclose, List.singleton_append, unquoteFrom?,
        List.append_nil, List.reverse_reverse, hvalue, Option.bind_some, Char.ofNat_toNat]
    · rw [List.singleton_append, unquoteFrom?]
      all_goals simp_all
  all_goals rfl

theorem unquote?_quoted (text : String) : unquote? (quoted text).toList = some text := by
  have hread : ∀ chars : List Char,
      unquoteFrom? none (chars.flatMap quotedChar ++ ['"']) = some chars := by
    intro chars
    induction chars with
    | nil => rfl
    | cons c chars ih =>
        rw [List.flatMap_cons, List.append_assoc, unquoteFrom?_quotedChar, ih, Option.map_some]
  rw [quoted, String.toList_ofList, unquote?, hread, Option.map_some, String.ofList_toList]

theorem newline_not_mem_quotedChar (c : Char) : '\n' ∉ quotedChar c := by
  have hdigits : '\n' ∉ hexDigits c.toNat := not_mem_hexDigits (by decide) _
  unfold quotedChar
  split
  case h_7 hnewline _ _ _ =>
    split
    · simp [hdigits]
    · simpa using Ne.symm hnewline
  all_goals decide

theorem newline_not_mem_quoted (text : String) : '\n' ∉ (quoted text).toList := by
  rw [quoted, String.toList_ofList]
  simp [newline_not_mem_quotedChar]

/-! ## Texts between quotes in JSON

Writing escapes the quote, the backslash and the control characters, and reading undoes each escape
(`readQuotation_escapedChar`), so that any text comes back from between its quotes
(`readQuotation_escaped`). -/

namespace JsonText

open Json (escapedChar)

/-- Every control character is written by four digits that give its code point. -/
theorem digitsValue?_paddedHex : ∀ n < 0x20, ∃ a b c d,
    paddedHex 4 n = [a, b, c, d] ∧ digitsValue? 16 [a, b, c, d] = some n := by
  have hdigits : ∀ n < 0x20, (paddedHex 4 n).length = 4 ∧
      digitsValue? 16 (paddedHex 4 n) = some n := by
    decide
  intro n hn
  obtain ⟨hlength, hvalue⟩ := hdigits n hn
  generalize paddedHex 4 n = digits at hlength hvalue
  match digits, hlength with
  | [a, b, c, d], _ => exact ⟨a, b, c, d, rfl, hvalue⟩

theorem pushUnit_toNat (q : Quotation) {c : Char} (h : c.toNat < 0xd800) :
    q.pushUnit c.toNat = q.push c := by
  have hlow : (0xdc00 ≤ c.toNat && c.toNat ≤ 0xdfff) = false := by
    simp only [Bool.and_eq_false_imp, decide_eq_true_eq, decide_eq_false_iff_not]
    omega
  have hhigh : (0xd800 ≤ c.toNat && c.toNat ≤ 0xdbff) = false := by
    simp only [Bool.and_eq_false_imp, decide_eq_true_eq, decide_eq_false_iff_not]
    omega
  rw [Quotation.pushUnit, hlow, hhigh, Char.ofNat_toNat]
  rfl

theorem readQuotation_escapedChar (q : Quotation) (c : Char) (rest : List Char) :
    readQuotation q (escapedChar c ++ rest) = readQuotation (q.push c) rest := by
  unfold escapedChar
  split
  any_goals rfl
  rename_i hquote hbackslash _ _ _ _ _
  split
  · rename_i hcontrol
    obtain ⟨a, b, c', d, hdigits, hvalue⟩ := digitsValue?_paddedHex c.toNat hcontrol
    rw [hdigits]
    show readQuotation q ('\\' :: 'u' :: a :: b :: c' :: d :: rest) = _
    rw [readQuotation, hvalue]
    simp only [pushUnit_toNat q (show c.toNat < 0xd800 by omega)]
  · rename_i hcontrol
    show readQuotation q (c :: rest) = _
    rw [readQuotation, if_neg hcontrol]
    all_goals simp_all

/-- A text is read back from between its quotes, whatever follows. -/
theorem readQuotation_escaped (text rest : List Char) :
    ∀ reversed, readQuotation ⟨reversed, none, false⟩ (text.flatMap escapedChar ++ '"' :: rest) =
      ⟨.string (String.ofList (reversed.reverse ++ text)), some rest⟩ := by
  induction text with
  | nil =>
      intro reversed
      rw [List.append_nil]
      rfl
  | cons c text ih =>
      intro reversed
      rw [List.flatMap_cons, List.append_assoc, readQuotation_escapedChar]
      refine (ih (c :: reversed)).trans ?_
      rw [List.reverse_cons, List.append_assoc, List.singleton_append]

theorem readQuotation_writeString (text : String) (rest : List Char) :
    readQuotation .empty (text.toList.flatMap escapedChar ++ '"' :: rest) =
      ⟨.string text, some rest⟩ := by
  refine (readQuotation_escaped text.toList rest []).trans ?_
  rw [List.reverse_nil, List.nil_append, String.ofList_toList]

end JsonText

end CodeTint
