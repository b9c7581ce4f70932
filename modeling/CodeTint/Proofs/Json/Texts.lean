import CodeTint.Proofs.Json.Records
import CodeTint.Proofs.Json.Reordering

/-!
# Values as texts say them

What is read from a text keeps the members of an object in the order of their names. `Json.SaidBy`
is about the value with its members as they are written. If no object has two members of one name,
the value that is read is a reordering of the one that is said (`Json.HasDistinctNames.reorders`),
and it is the same for all texts that say the members in some order (`ofText_eq_of_reorders`).
-/

namespace CodeTint

open Json

namespace Json

/-- The text says the value and nothing else, with the members of its objects as they stand. -/
def SaidBy (written : Json) (text : String) : Prop :=
  DraftText.ofString text = ⟨Draft.ofJson written, false⟩

theorem SpelledBy.saidBy {written : Json} {text : String} (h : written.SpelledBy text.toList) :
    written.SaidBy text :=
  DraftText.ofString_of_spelledBy h

/-- No object within the value has two members of one name. -/
inductive HasDistinctNames : Json → Prop
  | null : HasDistinctNames .null
  | bool (value : Bool) : HasDistinctNames (.bool value)
  | number (value : JsonNumber) : HasDistinctNames (.number value)
  | string (text : String) : HasDistinctNames (.string text)
  | array {items : List Json} (items_distinct : ∀ item ∈ items, HasDistinctNames item) :
      HasDistinctNames (.array items)
  | object {members : List (String × Json)} (nodup : (members.map (·.1)).Nodup)
      (members_distinct : ∀ member ∈ members, HasDistinctNames member.2) :
      HasDistinctNames (.object members)

end Json

/-! ## A text that is read says a value -/

mutual

/-- A draft that gives a value is the draft of one, with the members as they are written. -/
theorem Draft.exists_eq_ofJson (draft : Draft) {nesting : Nesting} {value : Json}
    (h : draft.toJson nesting = .ok value) : ∃ written, draft = Draft.ofJson written := by
  cases draft with
  | null => exact ⟨.null, rfl⟩
  | bool value => exact ⟨.bool value, rfl⟩
  | number value => exact ⟨.number value, rfl⟩
  | string text => exact ⟨.string text, rfl⟩
  | array items =>
      obtain ⟨inner, -, h⟩ := bind_eq_ok_iff.mp h
      obtain ⟨values, hvalues, -⟩ := bind_eq_ok_iff.mp h
      obtain ⟨written, rfl⟩ := items.exists_eq_ofList hvalues
      exact ⟨.array written, rfl⟩
  | object members =>
      obtain ⟨inner, -, h⟩ := bind_eq_ok_iff.mp h
      obtain ⟨values, hvalues, -⟩ := bind_eq_ok_iff.mp h
      obtain ⟨written, rfl⟩ := members.exists_eq_ofList hvalues
      exact ⟨.object written, rfl⟩
  | _ => cases h

theorem DraftItems.exists_eq_ofList (draft : DraftItems) {nesting : Nesting} {values : List Json}
    (h : draft.toJsonList nesting = .ok values) : ∃ written, draft = DraftItems.ofList written := by
  cases draft with
  | closed => exact ⟨[], rfl⟩
  | cut fault => cases h
  | more item items =>
      obtain ⟨value, hvalue, h⟩ := bind_eq_ok_iff.mp h
      obtain ⟨values, hvalues, -⟩ := bind_eq_ok_iff.mp h
      obtain ⟨first, rfl⟩ := item.exists_eq_ofJson hvalue
      obtain ⟨others, rfl⟩ := items.exists_eq_ofList hvalues
      exact ⟨first :: others, rfl⟩

theorem DraftMembers.exists_eq_ofList (draft : DraftMembers) {nesting : Nesting}
    {values : List (String × Json)} (h : draft.toJsonList nesting = .ok values) :
    ∃ written, draft = DraftMembers.ofList written := by
  cases draft with
  | closed => exact ⟨[], rfl⟩
  | more name value members =>
      cases name with
      | none => cases h
      | some name =>
          obtain ⟨first, hfirst, h⟩ := bind_eq_ok_iff.mp h
          obtain ⟨values, hvalues, -⟩ := bind_eq_ok_iff.mp h
          obtain ⟨first, rfl⟩ := value.exists_eq_ofJson hfirst
          obtain ⟨others, rfl⟩ := members.exists_eq_ofList hvalues
          exact ⟨(name, first) :: others, rfl⟩
  | _ => cases h

end

/-! ## What is read -/

section Read

variable {nesting : Nesting} {value : Json} {items values : List Json}
  {members others written : List (String × Json)}

namespace Json

/-- What is written comes out as the value, where that much nesting is allowed. -/
def ReadAs (nesting : Nesting) (written value : Json) : Prop :=
  (Draft.ofJson written).toJson nesting = .ok value

/-- The name stays, and what is written behind it comes out as the value. -/
def MemberReadAs (nesting : Nesting) (written member : String × Json) : Prop :=
  member.1 = written.1 ∧ written.2.ReadAs nesting member.2

end Json

theorem toJsonList_ofList_eq_ok_iff :
    (DraftItems.ofList items).toJsonList nesting = .ok values ↔
      List.Forall₂ (ReadAs nesting) items values := by
  induction items generalizing values with
  | nil => simp [DraftItems.ofList, DraftItems.toJsonList, eq_comm]
  | cons item items ih =>
      simp only [DraftItems.ofList, DraftItems.toJsonList, bind_eq_ok_iff, ih,
        List.forall₂_cons_left_iff]
      simp [ReadAs, pure, Except.pure, eq_comm]

theorem toJsonList_ofList_members_eq_ok_iff :
    (DraftMembers.ofList members).toJsonList nesting = .ok others ↔
      List.Forall₂ (MemberReadAs nesting) members others := by
  induction members generalizing others with
  | nil => simp [DraftMembers.ofList, DraftMembers.toJsonList, eq_comm]
  | cons member members ih =>
      obtain ⟨name, value⟩ := member
      simp only [DraftMembers.ofList, DraftMembers.toJsonList, bind_eq_ok_iff, ih,
        List.forall₂_cons_left_iff]
      simp [ReadAs, MemberReadAs, pure, Except.pure, eq_comm]

theorem readAs_array_iff :
    (Json.array items).ReadAs nesting value ↔ ∃ inner, nesting.enter = .ok inner ∧
      ∃ values, List.Forall₂ (ReadAs inner) items values ∧ value = .array values := by
  simp only [ReadAs, Draft.ofJson, Draft.toJson, bind_eq_ok_iff, toJsonList_ofList_eq_ok_iff]
  simp [pure, Except.pure, eq_comm]

theorem readAs_object_iff :
    (Json.object members).ReadAs nesting value ↔ ∃ inner, nesting.enter = .ok inner ∧
      ∃ values, List.Forall₂ (MemberReadAs inner) members values ∧ value = .ofMembers values := by
  simp only [ReadAs, Draft.ofJson, Draft.toJson, bind_eq_ok_iff,
    toJsonList_ofList_members_eq_ok_iff]
  simp [pure, Except.pure, eq_comm]

end Read

/-! ## The order in which members are written -/

section Reorders

variable {nesting : Nesting} {value written other : Json} {members others : List (String × Json)}

theorem forall₂_of_forall₂ {α β γ : Type} {R : α → β → Prop} {S : α → γ → Prop} {T : β → γ → Prop}
    {as : List α} {bs : List β} {cs : List γ} (hR : List.Forall₂ R as bs)
    (hS : List.Forall₂ S as cs) (h : ∀ a ∈ as, ∀ b c, R a b → S a c → T b c) :
    List.Forall₂ T bs cs := by
  induction hR generalizing cs with
  | nil =>
      cases hS
      exact .nil
  | cons hfirst _ ih =>
      cases hS with
      | cons hfirst' hothers =>
          obtain ⟨h, hrest⟩ := List.forall_mem_cons.mp h
          exact .cons (h _ _ hfirst hfirst') (ih hothers hrest)

theorem map_fst_eq_of_memberReadAs (h : List.Forall₂ (MemberReadAs nesting) members others) :
    others.map (·.1) = members.map (·.1) := by
  induction h with
  | nil => rfl
  | cons hmember _ ih => rw [List.map_cons, List.map_cons, hmember.1, ih]

/-- Members of different names make the same object in whatever order they are put together. -/
theorem putMembers_eq_of_perm (h : members.Perm others) (hnodup : (members.map (·.1)).Nodup) :
    putMembers members = putMembers others := by
  have hperm : (putMembers members).Perm (putMembers others) :=
    (putMembers_perm hnodup).trans
      (h.trans (putMembers_perm ((h.map _).nodup_iff.mp hnodup)).symm)
  refine hperm.eq_of_pairwise (fun member other _ _ hlt hlt' => ?_)
    (inOrder_putMembers members) (inOrder_putMembers others)
  exact absurd hlt' (not_lt_of_gt hlt)

theorem lookup_eq_of_perm (h : members.Perm others) (hnodup : (members.map (·.1)).Nodup)
    (key : String) : members.lookup key = others.lookup key := by
  have hperm : members.reverse.Perm others.reverse :=
    (List.reverse_perm members).trans (h.trans (List.reverse_perm others).symm)
  have hnodup : (members.reverse.map (·.1)).Nodup :=
    ((List.reverse_perm members).map (·.1)).nodup_iff.mpr hnodup
  have hlookup := congrArg (List.lookup key) (putMembers_eq_of_perm hperm hnodup)
  rwa [lookup_putMembers, lookup_putMembers, List.reverse_reverse, List.reverse_reverse] at hlookup

theorem rel_lookup (h : List.Forall₂ MemberReorders members others) (key : String) :
    Option.Rel Reorders (members.lookup key) (others.lookup key) := by
  induction h with
  | nil => exact .none
  | @cons member other members others hmember _ ih =>
      obtain ⟨name, hvalue⟩ := hmember
      rw [lookup_cons_eq_ite, lookup_cons_eq_ite]
      split
      · exact .some hvalue
      · exact ih

namespace Json.HasDistinctNames

theorem reorders (h : written.HasDistinctNames) (hread : written.ReadAs nesting value) :
    written.Reorders value := by
  induction h generalizing nesting value with
  | null | bool | number | string =>
      obtain rfl := Except.ok.inj hread
      exact .same _
  | array _ ih =>
      obtain ⟨inner, -, values, hvalues, rfl⟩ := readAs_array_iff.mp hread
      refine .array ?_
      refine ((List.forall₂_and_left _ _).mpr ⟨ih, hvalues⟩).imp fun item value hitem => ?_
      exact hitem.1 hitem.2
  | @object members hnodup _ ih =>
      obtain ⟨inner, -, values, hvalues, rfl⟩ := readAs_object_iff.mp hread
      have hnames : (values.map (·.1)).Nodup := map_fst_eq_of_memberReadAs hvalues ▸ hnodup
      refine .object ?_ (putMembers_perm hnames).symm
      refine ((List.forall₂_and_left _ _).mpr ⟨ih, hvalues⟩).imp fun member value hmember => ?_
      obtain ⟨name, written⟩ := member
      obtain ⟨_, value⟩ := value
      obtain ⟨ih, rfl, hread⟩ := hmember
      exact .mk _ (ih hread)

/-- The order of members does not change what is read. -/
theorem readAs_of_reorders (h : written.HasDistinctNames) (hreorders : written.Reorders other)
    (hread : written.ReadAs nesting value) : other.ReadAs nesting value := by
  induction h generalizing nesting value other with
  | null | bool | number | string =>
      cases hreorders
      exact hread
  | array _ ih =>
      obtain ⟨others, rfl, hothers⟩ := hreorders.exists_array
      obtain ⟨inner, henter, values, hvalues, rfl⟩ := readAs_array_iff.mp hread
      refine readAs_array_iff.mpr ⟨inner, henter, values, ?_, rfl⟩
      exact forall₂_of_forall₂ hothers hvalues fun item hitem other value => ih item hitem
  | @object members hnodup _ ih =>
      obtain ⟨others, rfl, same, hsame, hperm⟩ := hreorders.exists_object
      obtain ⟨inner, henter, values, hvalues, rfl⟩ := readAs_object_iff.mp hread
      have hread : List.Forall₂ (MemberReadAs inner) same values := by
        refine forall₂_of_forall₂ hsame hvalues fun member hmember other value hother hvalue => ?_
        exact ⟨hvalue.1.trans hother.name_eq.symm, ih member hmember hother.reorders hvalue.2⟩
      obtain ⟨values', hvalues', hperm'⟩ := List.perm_comp_forall₂ hperm.symm hread
      have hnames : (values.map (·.1)).Nodup := map_fst_eq_of_memberReadAs hvalues ▸ hnodup
      refine readAs_object_iff.mpr ⟨inner, henter, values', hvalues', ?_⟩
      exact congrArg Json.object (putMembers_eq_of_perm hperm'.symm hnames)

/-- What stands under a key is the same but for the order of members. -/
theorem rel_get?_of_reorders (h : written.HasDistinctNames) (hreorders : written.Reorders other)
    (key : String) : Option.Rel Reorders (written.get? key) (other.get? key) := by
  cases h with
  | object hnodup _ =>
      obtain ⟨others, rfl, same, hsame, hperm⟩ := hreorders.exists_object
      have hnames : (same.map (·.1)).Nodup := map_fst_eq hsame ▸ hnodup
      rw [get?, get?, ← lookup_eq_of_perm hperm hnames]
      exact rel_lookup hsame key
  | _ => cases hreorders <;> exact .none

end Json.HasDistinctNames

end Reorders

/-! ## Texts -/

section Text

variable {text : String} {value written : Json}

theorem Json.SaidBy.ofText_eq_ok_iff (h : written.SaidBy text) :
    Decoder.json.ofText text = .ok value ↔ written.ReadAs textNesting value := by
  rw [Decoder.ofText, h, Decoder.json, ReadAs]
  cases (Draft.ofJson written).toJson textNesting <;> simp

theorem Json.exists_saidBy (h : Decoder.json.ofText text = .ok value) :
    ∃ written : Json, written.SaidBy text := by
  rw [Decoder.ofText, Decoder.json] at h
  cases hread : (DraftText.ofString text).value.toJson textNesting with
  | error fault => simp [hread] at h
  | ok value =>
      obtain ⟨written, hwritten⟩ := Draft.exists_eq_ofJson _ hread
      refine ⟨written, ?_⟩
      cases htrailing : (DraftText.ofString text).trailing with
      | true => simp [hread, htrailing] at h
      | false => rw [SaidBy, ← hwritten, ← htrailing]

/-- Texts that say the same but for the order of members are read as the same value. -/
theorem Json.HasDistinctNames.ofText_eq_of_reorders {other : Json} {text' : String}
    (hdistinct : written.HasDistinctNames) (hreorders : written.Reorders other)
    (h : written.SaidBy text) (h' : other.SaidBy text')
    (hread : Decoder.json.ofText text = .ok value) : Decoder.json.ofText text' = .ok value :=
  h'.ofText_eq_ok_iff.mpr
    (hdistinct.readAs_of_reorders hreorders (h.ofText_eq_ok_iff.mp hread))

end Text

/-! ## Texts are read as they were written

A value without numbers whose objects are in order comes back from its text, as long as it does not
nest too deep (`ofText_pretty`): its text says the value with the members in order, and what is
written in order comes out as it is (`Json.IsPlain.readAs`). -/

/-- A value without numbers whose objects are in order, with arrays and objects within each other up
to the given depth. -/
inductive Json.IsPlain : (depth : Nat) → Json → Prop
  | null (depth : Nat) : IsPlain depth .null
  | bool (depth : Nat) (value : Bool) : IsPlain depth (.bool value)
  | string (depth : Nat) (text : String) : IsPlain depth (.string text)
  | array {depth : Nat} {items : List Json} (items_plain : ∀ item ∈ items, IsPlain depth item) :
      IsPlain (depth + 1) (.array items)
  | object {depth : Nat} {members : List (String × Json)} (inOrder : InOrder members)
      (members_plain : ∀ member ∈ members, IsPlain depth member.2) :
      IsPlain (depth + 1) (.object members)

theorem Json.IsPlain.isTextual {depth : Nat} {value : Json} (h : value.IsPlain depth) :
    value.IsTextual depth := by
  induction h with
  | null depth => exact .null depth
  | bool depth value => exact .bool depth value
  | string depth text => exact .string depth text
  | array _ ih => exact .array ih
  | object _ _ ih => exact .object ih

theorem Json.isPlain_ofMembers {depth : Nat} {members : List (String × Json)}
    (h : ∀ member ∈ members, member.2.IsPlain depth) :
    (Json.ofMembers members).IsPlain (depth + 1) :=
  .object (inOrder_putMembers members) fun member hmember => h member (mem_putMembers hmember)

theorem Json.isPlain_ofStrings {depth : Nat} (texts : List String) :
    (ofStrings texts).IsPlain (depth + 1) := by
  refine .array fun item hitem => ?_
  obtain ⟨text, -, rfl⟩ := List.mem_map.mp hitem
  exact .string depth text

theorem Json.isPlain_optionalMember {depth : Nat} {name : String} {text : Option String} :
    ∀ member ∈ optionalMember name text, member.2.IsPlain depth := by
  intro member hmember
  cases text with
  | none => exact absurd hmember List.not_mem_nil
  | some text =>
      obtain rfl := List.mem_singleton.mp hmember
      exact .string depth text

/-! ### Plain values and their texts -/

/-- A plain value comes out as it is written, where it may be nested as deep as it is. -/
theorem Json.IsPlain.readAs {depth : Nat} {value : Json} (h : value.IsPlain depth) :
    ∀ n, depth < n → value.ReadAs (some n) value := by
  induction h with
  | null | bool | string => exact fun _ _ => rfl
  | array _ ih =>
      intro n hn
      obtain ⟨n, rfl⟩ : ∃ k, n = k + 2 := ⟨n - 2, by omega⟩
      refine readAs_array_iff.mpr ⟨some (n + 1), rfl, _, List.forall₂_same.mpr ?_, rfl⟩
      exact fun item hitem => ih item hitem (n + 1) (by omega)
  | object inOrder _ ih =>
      intro n hn
      obtain ⟨n, rfl⟩ : ∃ k, n = k + 2 := ⟨n - 2, by omega⟩
      refine readAs_object_iff.mpr ⟨some (n + 1), rfl, _, List.forall₂_same.mpr ?_, ?_⟩
      · exact fun member hmember => ⟨rfl, ih member hmember (n + 1) (by omega)⟩
      · rw [Json.ofMembers, inOrder.putMembers_eq]

/-- A plain value comes back from its text. -/
theorem ofText_pretty {value : Json} (h : value.IsPlain 127) :
    Decoder.json.ofText value.pretty = .ok value :=
  (spelledBy_pretty h.isTextual).saidBy.ofText_eq_ok_iff.mpr (h.readAs 128 (by decide))

end CodeTint
