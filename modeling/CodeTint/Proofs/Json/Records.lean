import CodeTint.Json.Decoder
import CodeTint.Proofs.Results

/-!
# Fields of records

A record is read field by field, from the members of an object or from the items of an array. In
either form each part of the record that one field alone writes is what the decoder of that field
reads where a value is given for it, and what the record starts from where none is
(`Decoder.reads_of_record`).
-/

namespace CodeTint

/-! ## What is given for a field -/

def DraftMembers.find? (name : String) : DraftMembers → Option Draft
  | .more own value members => if own = some name then some value else members.find? name
  | _ => none

def DraftItems.get? : (place : Nat) → DraftItems → Option Draft
  | 0, .more item _ => some item
  | place + 1, .more _ items => items.get? place
  | _, _ => none

/-- The value that a record gives for a field, which has a name in an object and a place in an
array. -/
def Draft.field? (name : String) (place : Nat) : Draft → Option Draft
  | .object members => members.find? name
  | .array items => items.get? place
  | _ => none

namespace Decoder

variable {α β γ : Type}

/-- What is given is read by the decoder; where nothing is given it is `initial`. -/
def Reads (decoder : Decoder α) (initial : α) : (given : Option Draft) → α → Prop
  | none, a => a = initial
  | some draft, a => ∃ reading, decoder reading draft = .ok a

theorem Reads.field? {decoder : Decoder α} {inner : Decoder β} {get : α → β} {initial a : α}
    {given : Option Draft} {name : String} {place : Nat} (h : decoder.Reads initial given a)
    (hinner : ∀ reading draft a, decoder reading draft = .ok a →
      inner.Reads (get initial) (draft.field? name place) (get a)) :
    inner.Reads (get initial) (given.bind (·.field? name place)) (get a) := by
  cases given with
  | none =>
      obtain rfl : a = initial := h
      rfl
  | some draft =>
      obtain ⟨reading, hread⟩ := h
      exact hinner reading draft a hread

/-! ## Reading records -/

/-- The field leaves the part of the record alone. -/
def Field.Keeps (get : α → β) (field : Field α) : Prop :=
  ∀ reading draft a a', field.read reading draft a = .ok a' → get a' = get a

section Record

variable {decoder : Decoder β} {get : α → β} {set : β → α → α} {name : String} {required : Bool}
  {reading : Reading} {draft : Draft} {fields front back : List (Field α)} {a a' start : α}

@[simp] theorem name_field : (field name required decoder set).name = name :=
  rfl

theorem read_field_eq_ok_iff :
    (field name required decoder set).read reading draft a = .ok a' ↔
      ∃ b, decoder reading draft = .ok b ∧ a' = set b a := by
  rw [field]
  simp only [bind, Except.bind, pure, Except.pure]
  cases decoder reading draft <;> simp [eq_comm]

theorem keeps_field {other : Decoder γ} {set : γ → α → α} (h : ∀ c a, get (set c a) = get a) :
    (field name required other set).Keeps get := by
  intro reading draft a a' hread
  obtain ⟨c, -, rfl⟩ := read_field_eq_ok_iff.mp hread
  exact h c a

/-! ## Arrays -/

theorem eq_of_fieldsFromItems_closed (h : fieldsFromItems reading fields start .closed = .ok a) :
    a = start := by
  cases fields with
  | nil => exact (Except.ok.inj h).symm
  | cons field fields =>
      rw [fieldsFromItems] at h
      · split at h
        · cases h
        · exact (Except.ok.inj h).symm
      · exact nofun

theorem exists_of_fieldsFromItems_more {own : Field α} {item : Draft} {items : DraftItems}
    (h : fieldsFromItems reading (own :: fields) start (.more item items) = .ok a) :
    ∃ record, own.read reading item start = .ok record ∧
      fieldsFromItems reading fields record items = .ok a := by
  rw [fieldsFromItems] at h
  exact bind_eq_ok_iff.mp h

theorem get_eq_of_fieldsFromItems {items : DraftItems} (hkeeps : ∀ field ∈ fields, field.Keeps get)
    (h : fieldsFromItems reading fields start items = .ok a) : get a = get start := by
  induction fields generalizing start items with
  | nil =>
      rw [fieldsFromItems] at h
      obtain ⟨-, -, hstart⟩ := bind_eq_ok_iff.mp h
      rw [Except.ok.inj hstart]
  | cons field fields ih =>
      obtain ⟨hfield, hkeeps⟩ := List.forall_mem_cons.mp hkeeps
      cases items with
      | closed => rw [eq_of_fieldsFromItems_closed h]
      | cut fault => cases h
      | more item items =>
          obtain ⟨record, hread, hrest⟩ := exists_of_fieldsFromItems_more h
          rw [ih hkeeps hrest, hfield _ _ _ _ hread]

theorem reads_of_fieldsFromItems {items : DraftItems} (hset : ∀ b a, get (set b a) = b)
    (hothers : ∀ other ∈ front ++ back, other.Keeps get)
    (h : fieldsFromItems reading (front ++ field name required decoder set :: back) start items =
      .ok a) :
    decoder.Reads (get start) (items.get? front.length) (get a) := by
  induction front generalizing start items with
  | nil =>
      cases items with
      | closed => exact congrArg get (eq_of_fieldsFromItems_closed h)
      | cut fault => cases h
      | more item items =>
          obtain ⟨record, hread, hrest⟩ := exists_of_fieldsFromItems_more h
          obtain ⟨b, hb, rfl⟩ := read_field_eq_ok_iff.mp hread
          rw [get_eq_of_fieldsFromItems hothers hrest, hset]
          exact ⟨reading, hb⟩
  | cons first front ih =>
      obtain ⟨hfirst, hothers⟩ := List.forall_mem_cons.mp hothers
      cases items with
      | closed => exact congrArg get (eq_of_fieldsFromItems_closed h)
      | cut fault => cases h
      | more item items =>
          obtain ⟨record, hread, hrest⟩ := exists_of_fieldsFromItems_more h
          rw [← hfirst _ _ _ _ hread]
          exact ih hothers hrest

/-! ## Objects -/

/-- Once the field was given, it is not given again; before that, the first member with its name
gives it. -/
theorem reads_of_fieldsFromMembers {members : DraftMembers} {given : List String}
    (hset : ∀ b a, get (set b a) = b)
    (hfields : fields.find? (·.name = name) = some (field name required decoder set))
    (hothers : ∀ other ∈ fields, other.name ≠ name → other.Keeps get)
    (h : fieldsFromMembers reading fields given start members = .ok a) :
    (name ∈ given → get a = get start) ∧
      (name ∉ given → decoder.Reads (get start) (members.find? name) (get a)) := by
  fun_induction fieldsFromMembers reading fields given start members with
  | case2 given start _ =>
      obtain rfl := Except.ok.inj h
      exact ⟨fun _ => rfl, fun _ => rfl⟩
  | case7 given start own value members hfind ih =>
      obtain ⟨-, -, hrest⟩ := bind_eq_ok_iff.mp h
      have hne : own ≠ name := by
        rintro rfl
        cases hfind.symm.trans hfields
      rw [DraftMembers.find?, if_neg (mt Option.some.inj hne)]
      exact ih hrest
  | case9 given start own value members other hfind hgiven ih =>
      obtain ⟨record, hread, hrest⟩ := bind_eq_ok_iff.mp h
      by_cases hown : own = name
      · subst hown
        obtain rfl := Option.some.inj (hfind.symm.trans hfields)
        obtain ⟨b, hb, rfl⟩ := read_field_eq_ok_iff.mp hread
        refine ⟨fun hmem => absurd (List.contains_iff_mem.mpr hmem) hgiven, fun _ => ?_⟩
        rw [DraftMembers.find?, if_pos rfl, (ih _ hrest).1 List.mem_cons_self, hset]
        exact ⟨reading, hb⟩
      · have hname : other.name = own := by simpa using List.find?_some hfind
        have hkeeps : get record = get start :=
          hothers other (List.mem_of_find?_eq_some hfind) (hname ▸ hown) _ _ _ _ hread
        obtain ⟨hgiven', hnew⟩ := ih _ hrest
        rw [DraftMembers.find?, if_neg (mt Option.some.inj hown), ← hkeeps]
        exact ⟨fun hmem => hgiven' (List.mem_cons_of_mem _ hmem), fun hmem => hnew fun h =>
          (List.mem_cons.mp h).elim (fun heq => hown heq.symm) hmem⟩
  | _ => cases h

/-- The part of a record that one field writes is what the decoder of the field reads where a value
is given for it, and what the record starts from where none is. -/
theorem reads_of_record (get : α → β) (front : List (Field α)) (hset : ∀ b a, get (set b a) = b)
    (hothers : ∀ other ∈ front ++ back, other.name ≠ name ∧ other.Keeps get)
    (h : record (front ++ field name required decoder set :: back) start reading draft = .ok a) :
    decoder.Reads (get start) (draft.field? name front.length) (get a) := by
  have hkeeps : ∀ other ∈ front ++ back, other.Keeps get := fun other hmem => (hothers other hmem).2
  cases draft with
  | array items =>
      obtain ⟨_, -, hitems⟩ := bind_eq_ok_iff.mp h
      exact reads_of_fieldsFromItems hset hkeeps hitems
  | object members =>
      obtain ⟨_, -, hmembers⟩ := bind_eq_ok_iff.mp h
      have hfront : front.find? (·.name = name) = none :=
        List.find?_eq_none.mpr fun other hmem heq =>
          (hothers other (List.mem_append_left _ hmem)).1 (of_decide_eq_true heq)
      have hown : (front ++ field name required decoder set :: back).find? (·.name = name) =
          some (field name required decoder set) := by
        rw [List.find?_append, hfront, Option.none_or]
        exact List.find?_cons_of_pos (decide_eq_true rfl)
      refine (reads_of_fieldsFromMembers hset hown ?_ hmembers).2 List.not_mem_nil
      intro other hmem hname
      rcases List.mem_append.mp hmem with hmem | hmem
      · exact hkeeps other (List.mem_append_left _ hmem)
      · rcases List.mem_cons.mp hmem with rfl | hmem
        · exact absurd rfl hname
        · exact hkeeps other (List.mem_append_right _ hmem)
  | _ => cases h

end Record

end Decoder

end CodeTint
