import Mathlib.Data.List.DropRight
import Mathlib.Tactic.IntervalCases
import CodeTint.Json.Reader
import CodeTint.Proofs.Text.Literals

/-!
# JSON texts are read as what they spell

A value all of whose numbers are bytes can be spelled in many ways, with blanks between the parts of
its text (`Json.SpelledBy`). Each of them is read as the draft of the value, with whatever follows
left over (`readValue_of_spelledBy`), as long as what follows a number does not go on with it
(`EndsNumber`). The compact text and the pretty one are two of the spellings
(`Json.spelledBy_write`, `Json.spelledBy_writePretty`).
-/

namespace CodeTint

open JsonText Json

/-! ## Blanks between the parts of a text -/

/-- Nothing but characters that may stand between the parts of a JSON text. -/
def IsSpace (text : List Char) : Prop :=
  ∀ c ∈ text, c = ' ' ∨ c = '\n' ∨ c = '\t' ∨ c = '\r'

theorem isSpace_nil : IsSpace [] :=
  fun _ h => absurd h List.not_mem_nil

theorem isSpace_newLine (level : Nat) : IsSpace (newLine level) := by
  intro c hc
  rcases List.mem_cons.mp hc with rfl | hc
  · exact .inr (.inl rfl)
  · exact .inl (List.eq_of_mem_replicate hc)

theorem dropSpace_append {space : List Char} (h : IsSpace space) (text : List Char) :
    dropSpace (space ++ text) = dropSpace text := by
  refine List.dropWhile_append_of_pos fun c hc => ?_
  simpa [or_assoc] using h c hc

theorem dropSpace_dropSpace (text : List Char) : dropSpace (dropSpace text) = dropSpace text :=
  List.dropWhile_idempotent _ text

theorem readValue_of_dropSpace_eq {text text' : List Char} (h : dropSpace text = dropSpace text')
    (fuel : Nat) : readValue fuel text = readValue fuel text' := by
  cases fuel with
  | zero => rfl
  | succ fuel => rw [readValue, readValue, h]

theorem readItem_of_dropSpace_eq {text text' : List Char} (h : dropSpace text = dropSpace text')
    (fuel : Nat) : readItem fuel text = readItem fuel text' := by
  cases fuel with
  | zero => rfl
  | succ fuel => rw [readItem, readItem, readValue_of_dropSpace_eq h]

/-! ## Spellings -/

namespace Json

mutual

/-- The text is one of those that say the value. -/
inductive SpelledBy : Json → List Char → Prop
  | null : SpelledBy .null ['n', 'u', 'l', 'l']
  | true : SpelledBy (.bool Bool.true) ['t', 'r', 'u', 'e']
  | false : SpelledBy (.bool Bool.false) ['f', 'a', 'l', 's', 'e']
  | byte {n : Nat} (lt : n < 256) : SpelledBy (.ofNat n) (decimalDigits n)
  | string (text : String) : SpelledBy (.string text) (writeString text)
  | array {items : List Json} {text : List Char} (spelled : ItemsSpelledBy items text) :
      SpelledBy (.array items) ('[' :: text)
  | object {members : List (String × Json)} {text : List Char}
      (spelled : MembersSpelledBy members text) : SpelledBy (.object members) ('\x7b' :: text)

/-- The text says the items of an array, and then that the array ends. -/
inductive ItemsSpelledBy : List Json → List Char → Prop
  | none {space : List Char} (space_isSpace : IsSpace space) : ItemsSpelledBy [] (space ++ [']'])
  | last {item : Json} {before text behind : List Char} (before_isSpace : IsSpace before)
      (spelled : SpelledBy item text) (behind_isSpace : IsSpace behind) :
      ItemsSpelledBy [item] (before ++ (text ++ (behind ++ [']'])))
  | more {item next : Json} {items : List Json} {before text behind others : List Char}
      (before_isSpace : IsSpace before) (spelled : SpelledBy item text)
      (behind_isSpace : IsSpace behind) (others_spelled : ItemsSpelledBy (next :: items) others) :
      ItemsSpelledBy (item :: next :: items) (before ++ (text ++ (behind ++ ',' :: others)))

/-- The text says the members of an object, and then that the object ends. -/
inductive MembersSpelledBy : List (String × Json) → List Char → Prop
  | none {space : List Char} (space_isSpace : IsSpace space) :
      MembersSpelledBy [] (space ++ ['\x7d'])
  | last {name : String} {value : Json} {before colon space text behind : List Char}
      (before_isSpace : IsSpace before) (colon_isSpace : IsSpace colon)
      (space_isSpace : IsSpace space) (spelled : SpelledBy value text)
      (behind_isSpace : IsSpace behind) :
      MembersSpelledBy [(name, value)]
        (before ++ (writeString name ++ (colon ++ ':' :: (space ++ (text ++
          (behind ++ ['\x7d']))))))
  | more {name : String} {value : Json} {next : String × Json} {members : List (String × Json)}
      {before colon space text behind others : List Char}
      (before_isSpace : IsSpace before) (colon_isSpace : IsSpace colon)
      (space_isSpace : IsSpace space) (spelled : SpelledBy value text)
      (behind_isSpace : IsSpace behind)
      (others_spelled : MembersSpelledBy (next :: members) others) :
      MembersSpelledBy ((name, value) :: next :: members)
        (before ++ (writeString name ++ (colon ++ ':' :: (space ++ (text ++
          (behind ++ ',' :: others))))))

end

end Json

/-! ## Numbers -/

namespace JsonText

/-- What follows a number does not go on with it. -/
def EndsNumber (rest : List Char) : Prop :=
  ∀ c ∈ rest.head?, isAsciiDigit c = false ∧ c ∉ ['.', 'e', 'E']

theorem endsNumber_nil : EndsNumber [] :=
  fun _ hc => nomatch hc

theorem endsNumber_of_isSpace {space rest : List Char} {mark : Char} (h : IsSpace space)
    (hmark : mark ∈ [',', ']', '\x7d']) : EndsNumber (space ++ mark :: rest) := by
  intro c hc
  cases space with
  | nil =>
      obtain rfl := Option.some.inj hc
      simp only [List.mem_cons, List.not_mem_nil, or_false] at hmark
      rcases hmark with rfl | rfl | rfl <;> decide
  | cons blank space =>
      obtain rfl := Option.some.inj hc
      rcases h _ List.mem_cons_self with rfl | rfl | rfl | rfl <;> decide

theorem isAsciiDigit_of_mem_decimalDigits (n : Nat) : ∀ c ∈ decimalDigits n, isAsciiDigit c :=
  forall_mem_decimalDigits (by decide) n

theorem opens_of_mem_decimalDigits (n : Nat) : ∀ c ∈ decimalDigits n,
    c ≠ ']' ∧ ∀ rest, dropSpace (c :: rest) = c :: rest := by
  refine forall_mem_decimalDigits (fun digit hdigit => ?_) n
  interval_cases digit <;> exact ⟨by decide, fun _ => rfl⟩

theorem readValue_of_mem_decimalDigits (n : Nat) : ∀ c ∈ decimalDigits n, ∀ fuel text,
    readValue (fuel + 1) (c :: text) = readNumber (c :: text) := by
  refine forall_mem_decimalDigits (fun digit hdigit => ?_) n
  interval_cases digit <;> exact fun _ _ => rfl

section Number

variable {digits rest : List Char}

theorem readDigits_append (hdigits : ∀ c ∈ digits, isAsciiDigit c) (hne : digits ≠ [])
    (hrest : EndsNumber rest) : readDigits (digits ++ rest) = .ok (digits, rest) := by
  have hstop : rest.takeWhile isAsciiDigit = [] ∧ rest.dropWhile isAsciiDigit = rest := by
    cases rest with
    | nil => exact ⟨rfl, rfl⟩
    | cons c rest => simp [(hrest c rfl).1]
  have htake : (digits ++ rest).takeWhile isAsciiDigit = digits := by
    rw [List.takeWhile_append_of_pos hdigits, hstop.1, List.append_nil]
  have hdrop : (digits ++ rest).dropWhile isAsciiDigit = rest := by
    rw [List.dropWhile_append_of_pos hdigits, hstop.2]
  obtain ⟨c, digits, rfl⟩ := List.exists_cons_of_ne_nil hne
  unfold readDigits
  rw [htake]
  exact congrArg (fun behind => Except.ok (c :: digits, behind)) hdrop

/-- A part of a number is missing where its mark does not stand. -/
theorem readNumberPart_of_endsNumber {marks : List Char} (signs : List Char)
    (hrest : EndsNumber rest) (hmarks : ∀ mark ∈ marks, mark ∈ ['.', 'e', 'E']) :
    readNumberPart marks signs rest = .ok (false, [], rest) := by
  cases rest with
  | nil => rfl
  | cons c rest =>
      have hc : marks.contains c = false := by
        simpa using fun hmem => (hrest c rfl).2 (hmarks c hmem)
      unfold readNumberPart
      simp only [hc]
      rfl

/-- Each of the 256 bytes is within what is read exactly, and is written without zeros in front. -/
theorem decimalDigits_byte : ∀ n < 256,
    digitsValue (decimalDigits n) = n ∧ isHugeNumber (decimalDigits n) [] 0 = false ∧
      ((decimalDigits n).head? = some '0' → (decimalDigits n).length = 1) := by
  decide +kernel

theorem readNumberBody_byte {n : Nat} (hn : n < 256) (hrest : EndsNumber rest) :
    readNumberBody (decimalDigits n ++ rest) = .ok (decimalDigits n, [], none, rest) := by
  have hzero : ((decimalDigits n).head? = some '0' && (decimalDigits n).length ≠ 1) = false := by
    simpa using (decimalDigits_byte n hn).2.2
  rw [readNumberBody, readDigits_append (isAsciiDigit_of_mem_decimalDigits n)
    (decimalDigits_ne_nil n) hrest]
  simp only [bind, Except.bind, hzero]
  rw [readNumberPart_of_endsNumber [] hrest (by simp)]
  simp only
  rw [readNumberPart_of_endsNumber _ hrest (by simp)]
  rfl

theorem readNumber_byte {n : Nat} (hn : n < 256) (hrest : EndsNumber rest) :
    readNumber (decimalDigits n ++ rest) = ⟨Draft.ofJson (.ofNat n), some rest⟩ := by
  obtain ⟨hvalue, hhuge, -⟩ := decimalDigits_byte n hn
  have hbody := readNumberBody_byte hn hrest
  have hminus : '-' ∉ decimalDigits n := not_mem_decimalDigits (by decide) n
  obtain ⟨c, digits, hdigits⟩ := List.exists_cons_of_ne_nil (decimalDigits_ne_nil n)
  rw [hdigits] at hvalue hhuge hbody hminus ⊢
  rw [List.cons_append] at hbody ⊢
  have hsign : ∀ body, c :: (digits ++ rest) = '-' :: body → False := fun body heq =>
    hminus ((List.cons.inj heq).1 ▸ List.mem_cons_self)
  rw [readNumber, hbody]
  case x => exact hsign
  simp [hhuge, hvalue, Draft.ofJson, Json.ofNat]

end Number

end JsonText

theorem Json.SpelledBy.exists_eq_cons {value : Json} {text : List Char}
    (h : value.SpelledBy text) : ∃ c text', text = c :: text' ∧ c ≠ ']' ∧
      ∀ rest, dropSpace (c :: rest) = c :: rest := by
  cases h with
  | @byte n _ =>
      obtain ⟨c, text, hdigits⟩ := List.exists_cons_of_ne_nil (decimalDigits_ne_nil n)
      exact ⟨c, text, hdigits, opens_of_mem_decimalDigits n c (hdigits ▸ List.mem_cons_self)⟩
  | null => exact ⟨'n', _, rfl, by decide, fun _ => rfl⟩
  | true => exact ⟨'t', _, rfl, by decide, fun _ => rfl⟩
  | false => exact ⟨'f', _, rfl, by decide, fun _ => rfl⟩
  | string text => exact ⟨'"', _, rfl, by decide, fun _ => rfl⟩
  | array => exact ⟨'[', _, rfl, by decide, fun _ => rfl⟩
  | object => exact ⟨'\x7b', _, rfl, by decide, fun _ => rfl⟩

/-! ## Arrays -/

theorem readItems_close {space : List Char} (h : IsSpace space) (fuel : Nat) (first : Bool)
    (rest : List Char) :
    readItems (fuel + 1) first (space ++ ']' :: rest) = ⟨.closed, some rest⟩ := by
  rw [readItems, dropSpace_append h]
  rfl

section Items

variable {text text' : List Char} {c : Char} (h : dropSpace text = c :: text') (hc : c ≠ ']')
include h hc

theorem readItems_first (fuel : Nat) : readItems (fuel + 1) true text = readItem fuel text := by
  rw [readItems, h]
  split
  · cases ‹_›
  · rename_i heq
    exact absurd (List.cons.inj heq).1 hc
  · rename_i heq
    rw [if_pos rfl, ← heq, ← h]
    exact readItem_of_dropSpace_eq (dropSpace_dropSpace text) fuel

theorem readItems_comma {space : List Char} (hspace : IsSpace space) (fuel : Nat) :
    readItems (fuel + 1) false (space ++ ',' :: text) = readItem fuel text := by
  have hcomma : dropSpace (space ++ ',' :: text) = ',' :: text := dropSpace_append hspace _
  rw [readItems, hcomma]
  split
  · cases ‹_›
  · rename_i heq
    exact absurd (List.cons.inj heq).1 (by decide)
  · rename_i heq
    obtain ⟨rfl, rfl⟩ := List.cons.inj heq
    rw [if_neg Bool.false_ne_true, if_pos rfl, h]
    split
    · rename_i heq
      exact absurd (List.cons.inj heq).1 hc
    · rfl

end Items

theorem readItem_more {fuel : Nat} {text rest : List Char} {item : Draft}
    {items : Drafted DraftItems}
    (hitem : readValue fuel text = ⟨item, some rest⟩) (hitems : readItems fuel false rest = items) :
    readItem (fuel + 1) text = ⟨.more item items.result, items.rest⟩ := by
  rw [readItem, hitem]
  simp only [hitems]

/-- The text of items starts, behind blanks, as that of the first item does. -/
theorem Json.ItemsSpelledBy.exists_dropSpace_eq {item : Json} {items : List Json}
    {text : List Char} (h : ItemsSpelledBy (item :: items) text) (rest : List Char) :
    ∃ c text', dropSpace (text ++ rest) = c :: text' ∧ c ≠ ']' := by
  cases h with
  | last hbefore hspelled _ =>
      obtain ⟨c, text, rfl, hc, hdrop⟩ := hspelled.exists_eq_cons
      simp only [List.append_assoc, dropSpace_append hbefore, List.cons_append, hdrop]
      exact ⟨c, _, rfl, hc⟩
  | more hbefore hspelled _ _ =>
      obtain ⟨c, text, rfl, hc, hdrop⟩ := hspelled.exists_eq_cons
      simp only [List.append_assoc, dropSpace_append hbefore, List.cons_append, hdrop]
      exact ⟨c, _, rfl, hc⟩

/-- Items are read from behind the opening bracket if they are read from the first one on. -/
theorem readItems_of_readItem {items : List Json} {text rest : List Char} {fuel : Nat}
    (h : ItemsSpelledBy items text) (hread : items ≠ [] →
      readItem fuel (text ++ rest) = ⟨DraftItems.ofList items, some rest⟩) :
    readItems (fuel + 1) true (text ++ rest) = ⟨DraftItems.ofList items, some rest⟩ := by
  cases items with
  | nil =>
      cases h with
      | none hspace =>
          rw [List.append_assoc]
          exact readItems_close hspace fuel true rest
  | cons item items =>
      obtain ⟨c, text', hdrop, hc⟩ := h.exists_dropSpace_eq rest
      rw [readItems_first hdrop hc]
      exact hread (List.cons_ne_nil _ _)

/-! ## Objects -/

theorem readMembers_close {space : List Char} (h : IsSpace space) (fuel : Nat) (first : Bool)
    (rest : List Char) :
    readMembers (fuel + 1) first (space ++ '\x7d' :: rest) = ⟨.closed, some rest⟩ := by
  rw [readMembers, dropSpace_append h]
  rfl

theorem readMembers_first {text text' : List Char} (h : dropSpace text = '"' :: text')
    (fuel : Nat) :
    readMembers (fuel + 1) true text = readMember fuel text' := by
  rw [readMembers, h]
  rfl

theorem readMembers_comma {space text text' : List Char} (hspace : IsSpace space)
    (h : dropSpace text = '"' :: text') (fuel : Nat) :
    readMembers (fuel + 1) false (space ++ ',' :: text) = readMember fuel text' := by
  have hcomma : dropSpace (space ++ ',' :: text) = ',' :: text := dropSpace_append hspace _
  rw [readMembers, hcomma]
  split
  · cases ‹_›
  · rename_i heq
    exact absurd (List.cons.inj heq).1 (by decide)
  · rename_i heq
    obtain ⟨rfl, rfl⟩ := List.cons.inj heq
    rw [if_neg Bool.false_ne_true, if_pos rfl, h]
    rfl

theorem readMember_more {fuel : Nat} {name : String} {colon space text rest : List Char}
    {value : Draft} {members : Drafted DraftMembers} (hcolon : IsSpace colon)
    (hspace : IsSpace space) (hvalue : readValue fuel text = ⟨value, some rest⟩)
    (hmembers : readMembers fuel false rest = members) :
    readMember (fuel + 1)
        (name.toList.flatMap escapedChar ++ '"' :: (colon ++ ':' :: (space ++ text))) =
      ⟨.more (some name) value members.result, members.rest⟩ := by
  have hdrop : dropSpace (colon ++ ':' :: (space ++ text)) = ':' :: (space ++ text) :=
    dropSpace_append hcolon _
  have hread := (readValue_of_dropSpace_eq (dropSpace_append hspace text) fuel).trans hvalue
  rw [readMember, readQuotation_writeString]
  simp only [hdrop, hread, hmembers]

theorem readMembers_of_readMember {members : List (String × Json)} {text rest : List Char}
    {fuel : Nat} (h : MembersSpelledBy members text) (hread : members ≠ [] →
      ∃ text', dropSpace (text ++ rest) = '"' :: text' ∧
        readMember fuel text' = ⟨DraftMembers.ofList members, some rest⟩) :
    readMembers (fuel + 1) true (text ++ rest) = ⟨DraftMembers.ofList members, some rest⟩ := by
  cases members with
  | nil =>
      cases h with
      | none hspace =>
          rw [List.append_assoc]
          exact readMembers_close hspace fuel true rest
  | cons member members =>
      obtain ⟨text', hdrop, hmember⟩ := hread (List.cons_ne_nil _ _)
      rw [readMembers_first hdrop, hmember]

/-! ## Reading what is spelled -/

mutual

/-- A text that spells a value is read as the draft of the value, and what follows is left over. -/
theorem readValue_of_spelledBy {value : Json} {text : List Char} (h : value.SpelledBy text)
    (fuel : Nat) {rest : List Char} (hrest : EndsNumber rest) (hfuel : 3 * text.length ≤ fuel) :
    readValue fuel (text ++ rest) = ⟨Draft.ofJson value, some rest⟩ := by
  cases h with
  | null | true | false =>
      simp only [List.length_cons] at hfuel
      obtain ⟨fuel, rfl⟩ : ∃ n, fuel = n + 1 := ⟨fuel - 1, by omega⟩
      rfl
  | @byte n hn =>
      have hread := readNumber_byte hn hrest
      have hdigit := readValue_of_mem_decimalDigits n
      obtain ⟨c, digits, hdigits⟩ := List.exists_cons_of_ne_nil (decimalDigits_ne_nil n)
      rw [hdigits] at hfuel hread hdigit ⊢
      simp only [List.length_cons] at hfuel
      obtain ⟨fuel, rfl⟩ : ∃ n, fuel = n + 1 := ⟨fuel - 1, by omega⟩
      exact (hdigit c List.mem_cons_self fuel (digits ++ rest)).trans hread
  | string text =>
      simp only [writeString, List.length_cons] at hfuel
      obtain ⟨fuel, rfl⟩ : ∃ n, fuel = n + 1 := ⟨fuel - 1, by omega⟩
      simp only [writeString, List.cons_append, List.append_assoc, List.nil_append]
      rw [readValue]
      exact readQuotation_writeString text rest
  | array hitems =>
      simp only [List.length_cons] at hfuel
      obtain ⟨fuel, rfl⟩ : ∃ n, fuel = n + 2 := ⟨fuel - 2, by omega⟩
      have hread := readItems_of_readItem hitems fun hne =>
        readItem_of_spelledBy hitems hne fuel rest (by omega)
      rw [List.cons_append, readValue]
      show (⟨.array (readItems (fuel + 1) true _).result, _⟩ : Drafted Draft) = _
      rw [hread]
      rfl
  | object hmembers =>
      simp only [List.length_cons] at hfuel
      obtain ⟨fuel, rfl⟩ : ∃ n, fuel = n + 2 := ⟨fuel - 2, by omega⟩
      have hread := readMembers_of_readMember hmembers fun hne =>
        readMember_of_spelledBy hmembers hne fuel rest (by omega)
      rw [List.cons_append, readValue]
      show (⟨.object (readMembers (fuel + 1) true _).result, _⟩ : Drafted Draft) = _
      rw [hread]
      rfl

theorem readItem_of_spelledBy {items : List Json} {text : List Char}
    (h : ItemsSpelledBy items text) (hne : items ≠ []) (fuel : Nat) (rest : List Char)
    (hfuel : 3 * text.length ≤ fuel) :
    readItem fuel (text ++ rest) = ⟨DraftItems.ofList items, some rest⟩ := by
  cases h with
  | none => exact absurd rfl hne
  | last hbefore hspelled hbehind =>
      simp only [List.length_append, List.length_cons] at hfuel
      obtain ⟨fuel, rfl⟩ : ∃ n, fuel = n + 2 := ⟨fuel - 2, by omega⟩
      simp only [List.append_assoc, List.singleton_append]
      rw [readItem_of_dropSpace_eq (dropSpace_append hbefore _)]
      exact readItem_more (readValue_of_spelledBy hspelled _
        (endsNumber_of_isSpace hbehind (by decide)) (by omega))
        (readItems_close hbehind fuel false rest)
  | more hbefore hspelled hbehind hothers =>
      simp only [List.length_append, List.length_cons] at hfuel
      obtain ⟨fuel, rfl⟩ : ∃ n, fuel = n + 2 := ⟨fuel - 2, by omega⟩
      obtain ⟨c, text', hdrop, hc⟩ := hothers.exists_dropSpace_eq rest
      simp only [List.append_assoc, List.cons_append]
      rw [readItem_of_dropSpace_eq (dropSpace_append hbefore _)]
      exact readItem_more (readValue_of_spelledBy hspelled _
        (endsNumber_of_isSpace hbehind (by decide)) (by omega))
        ((readItems_comma hdrop hc hbehind fuel).trans
          (readItem_of_spelledBy hothers (List.cons_ne_nil _ _) fuel rest (by omega)))

/-- The text of members starts, behind blanks, with the name of the first one. -/
theorem readMember_of_spelledBy {members : List (String × Json)} {text : List Char}
    (h : MembersSpelledBy members text) (hne : members ≠ []) (fuel : Nat) (rest : List Char)
    (hfuel : 3 * text.length ≤ fuel) :
    ∃ text', dropSpace (text ++ rest) = '"' :: text' ∧
      readMember fuel text' = ⟨DraftMembers.ofList members, some rest⟩ := by
  cases h with
  | none => exact absurd rfl hne
  | last hbefore hcolon hspace hspelled hbehind =>
      simp only [writeString, List.length_append, List.length_cons] at hfuel
      obtain ⟨fuel, rfl⟩ : ∃ n, fuel = n + 2 := ⟨fuel - 2, by omega⟩
      simp only [writeString, List.append_assoc, List.cons_append, List.nil_append,
        dropSpace_append hbefore]
      exact ⟨_, rfl, readMember_more hcolon hspace
        (readValue_of_spelledBy hspelled _ (endsNumber_of_isSpace hbehind (by decide)) (by omega))
        (readMembers_close hbehind fuel false rest)⟩
  | more hbefore hcolon hspace hspelled hbehind hothers =>
      simp only [writeString, List.length_append, List.length_cons] at hfuel
      obtain ⟨fuel, rfl⟩ : ∃ n, fuel = n + 2 := ⟨fuel - 2, by omega⟩
      obtain ⟨text', hdrop, hread⟩ :=
        readMember_of_spelledBy hothers (List.cons_ne_nil _ _) fuel rest (by omega)
      simp only [writeString, List.append_assoc, List.cons_append, List.nil_append,
        dropSpace_append hbefore]
      exact ⟨_, rfl, readMember_more hcolon hspace
        (readValue_of_spelledBy hspelled _ (endsNumber_of_isSpace hbehind (by decide)) (by omega))
        ((readMembers_comma hbehind hdrop fuel).trans hread)⟩

end

/-! ## What is written -/

/-- A value all of whose numbers are bytes, with arrays and objects within each other up to the
given depth. -/
inductive Json.IsTextual : (depth : Nat) → Json → Prop
  | null (depth : Nat) : IsTextual depth .null
  | bool (depth : Nat) (value : Bool) : IsTextual depth (.bool value)
  | byte (depth : Nat) {n : Nat} (lt : n < 256) : IsTextual depth (.ofNat n)
  | string (depth : Nat) (text : String) : IsTextual depth (.string text)
  | array {depth : Nat} {items : List Json} (items_textual : ∀ item ∈ items, IsTextual depth item) :
      IsTextual (depth + 1) (.array items)
  | object {depth : Nat} {members : List (String × Json)}
      (members_textual : ∀ member ∈ members, IsTextual depth member.2) :
      IsTextual (depth + 1) (.object members)

namespace Json

theorem itemsSpelledBy_writeItems {items : List Json}
    (h : ∀ item ∈ items, item.SpelledBy (write item)) :
    ItemsSpelledBy items (writeItems items) := by
  induction items with
  | nil => exact .none isSpace_nil
  | cons item items ih =>
      obtain ⟨hitem, hitems⟩ := List.forall_mem_cons.mp h
      cases items with
      | nil => exact .last isSpace_nil hitem isSpace_nil
      | cons next items => exact .more isSpace_nil hitem isSpace_nil (ih hitems)

theorem membersSpelledBy_writeMembers {members : List (String × Json)}
    (h : ∀ member ∈ members, member.2.SpelledBy (write member.2)) :
    MembersSpelledBy members (writeMembers members) := by
  induction members with
  | nil => exact .none isSpace_nil
  | cons member members ih =>
      obtain ⟨hmember, hmembers⟩ := List.forall_mem_cons.mp h
      cases members with
      | nil => exact .last isSpace_nil isSpace_nil isSpace_nil hmember isSpace_nil
      | cons next members =>
          exact .more isSpace_nil isSpace_nil isSpace_nil hmember isSpace_nil (ih hmembers)

theorem write_ofNat (n : Nat) : write (.ofNat n) = decimalDigits n :=
  toList_toString n

theorem writePretty_ofNat (level n : Nat) : writePretty level (.ofNat n) = decimalDigits n :=
  toList_toString n

/-- The compact text of a value spells it. -/
theorem spelledBy_write {depth : Nat} {value : Json} (h : value.IsTextual depth) :
    value.SpelledBy (write value) := by
  induction h with
  | null => exact .null
  | bool depth value => cases value <;> constructor
  | @byte depth n hn => exact write_ofNat n ▸ .byte hn
  | string depth text => exact .string text
  | array _ ih => exact .array (itemsSpelledBy_writeItems ih)
  | object _ ih => exact .object (membersSpelledBy_writeMembers ih)

theorem itemsSpelledBy_writePrettyItems {items : List Json} (level : Nat)
    (h : ∀ item ∈ items, item.SpelledBy (writePretty (level + 1) item)) :
    ItemsSpelledBy items (writePrettyItems level items) := by
  induction items with
  | nil => exact .none (isSpace_newLine level)
  | cons item items ih =>
      obtain ⟨hitem, hitems⟩ := List.forall_mem_cons.mp h
      cases items with
      | nil => exact .last (isSpace_newLine _) hitem (isSpace_newLine _)
      | cons next items => exact .more (isSpace_newLine _) hitem isSpace_nil (ih hitems)

theorem membersSpelledBy_writePrettyMembers {members : List (String × Json)} (level : Nat)
    (h : ∀ member ∈ members, member.2.SpelledBy (writePretty (level + 1) member.2)) :
    MembersSpelledBy members (writePrettyMembers level members) := by
  have hblank : IsSpace [' '] := fun c hc => .inl (List.mem_singleton.mp hc)
  induction members with
  | nil => exact .none (isSpace_newLine level)
  | cons member members ih =>
      obtain ⟨hmember, hmembers⟩ := List.forall_mem_cons.mp h
      cases members with
      | nil => exact .last (isSpace_newLine _) isSpace_nil hblank hmember (isSpace_newLine _)
      | cons next members =>
          exact .more (isSpace_newLine _) isSpace_nil hblank hmember isSpace_nil (ih hmembers)

/-- The pretty text of a value spells it, at whatever level it stands. -/
theorem spelledBy_writePretty {depth : Nat} {value : Json} (h : value.IsTextual depth) :
    ∀ level, value.SpelledBy (writePretty level value) := by
  induction h with
  | null => exact fun _ => .null
  | bool depth value => cases value <;> exact fun _ => by constructor
  | @byte depth n hn => exact fun level => writePretty_ofNat level n ▸ .byte hn
  | string depth text => exact fun _ => .string text
  | @array depth items _ ih =>
      intro level
      cases items with
      | nil => exact .array (.none isSpace_nil)
      | cons item items =>
          exact .array (itemsSpelledBy_writePrettyItems level fun i hi => ih i hi (level + 1))
  | @object depth members _ ih =>
      intro level
      cases members with
      | nil => exact .object (.none isSpace_nil)
      | cons member members =>
          exact .object (membersSpelledBy_writePrettyMembers level fun m hm => ih m hm (level + 1))

theorem spelledBy_compact {depth : Nat} {value : Json} (h : value.IsTextual depth) :
    value.SpelledBy value.compact.toList := by
  rw [compact, String.toList_ofList]
  exact spelledBy_write h

theorem spelledBy_pretty {depth : Nat} {value : Json} (h : value.IsTextual depth) :
    value.SpelledBy value.pretty.toList := by
  rw [pretty, String.toList_ofList]
  exact spelledBy_writePretty h 0

end Json

theorem DraftText.ofString_of_spelledBy {value : Json} {text : String}
    (h : value.SpelledBy text.toList) :
    DraftText.ofString text = ⟨Draft.ofJson value, false⟩ := by
  have hread := readValue_of_spelledBy h (3 * text.toList.length + 3) endsNumber_nil (by omega)
  rw [List.append_nil] at hread
  rw [DraftText.ofString, hread]
  rfl

end CodeTint
