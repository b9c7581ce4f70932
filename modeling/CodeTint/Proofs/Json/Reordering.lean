import Mathlib.Data.List.Perm.Basic
import CodeTint.Proofs.Json.Members
import CodeTint.Proofs.Json.Spelling

/-!
# Objects in any order

The members of an object say the same in whatever order they are written. `Json.Reorders` relates
values that differ in nothing else. An object that was put together from members of different names
shows them in the order of their names, but it is a reordering of them all the same
(`Json.reorders_ofMembers_iff`).
-/

namespace CodeTint

variable {members others written : List (String × Json)}

namespace Json

mutual

/-- The other value is the same but for the order of the members of its objects. -/
inductive Reorders : Json → Json → Prop
  | same (value : Json) : Reorders value value
  | array {items others : List Json} (items_reorder : List.Forall₂ Reorders items others) :
      Reorders (.array items) (.array others)
  | object {members others written : List (String × Json)}
      (members_reorder : List.Forall₂ MemberReorders members others) (perm : others.Perm written) :
      Reorders (.object members) (.object written)

/-- The other member has the same name, and its value is the same but for the order of members. -/
inductive MemberReorders : String × Json → String × Json → Prop
  | mk (name : String) {value other : Json} (reorders : Reorders value other) :
      MemberReorders (name, value) (name, other)

end

/-! ## What is reordered -/

theorem exists_mem_of_forall₂ {α β : Type} {R : α → β → Prop} {as : List α} {bs : List β}
    (h : List.Forall₂ R as bs) {b : β} (hb : b ∈ bs) : ∃ a ∈ as, R a b := by
  induction h with
  | nil => cases hb
  | cons hR _ ih =>
      rcases List.mem_cons.mp hb with rfl | hb
      · exact ⟨_, List.mem_cons_self, hR⟩
      · obtain ⟨a, ha, hR⟩ := ih hb
        exact ⟨a, List.mem_cons_of_mem _ ha, hR⟩

theorem MemberReorders.refl (member : String × Json) : MemberReorders member member :=
  .mk member.1 (.same member.2)

theorem MemberReorders.name_eq {member other : String × Json} (h : MemberReorders member other) :
    other.1 = member.1 := by
  cases h
  rfl

theorem MemberReorders.reorders {member other : String × Json} (h : MemberReorders member other) :
    member.2.Reorders other.2 := by
  cases h with
  | mk _ h => exact h

theorem map_fst_eq (h : List.Forall₂ MemberReorders members others) :
    others.map (·.1) = members.map (·.1) := by
  induction h with
  | nil => rfl
  | cons hmember _ ih => rw [List.map_cons, List.map_cons, hmember.name_eq, ih]

theorem Reorders.exists_array {items : List Json} {value : Json}
    (h : (Json.array items).Reorders value) :
    ∃ others, value = .array others ∧ List.Forall₂ Reorders items others := by
  cases h with
  | same => exact ⟨items, rfl, List.forall₂_same.mpr fun item _ => .same item⟩
  | @array _ others hitems => exact ⟨others, rfl, hitems⟩

theorem Reorders.exists_object {value : Json} (h : (Json.object members).Reorders value) :
    ∃ written, value = .object written ∧
      ∃ others, List.Forall₂ MemberReorders members others ∧ others.Perm written := by
  cases h with
  | same =>
      exact ⟨members, rfl, members, List.forall₂_same.mpr fun member _ => .refl member, .refl _⟩
  | @object _ others written hmembers hperm => exact ⟨written, rfl, others, hmembers, hperm⟩

theorem reorders_string_iff {text : String} {value : Json} :
    (Json.string text).Reorders value ↔ value = .string text := by
  refine ⟨fun h => ?_, fun h => h ▸ .same _⟩
  cases h
  rfl

theorem array_reorders {α : Type} {f g : α → Json} (as : List α)
    (h : ∀ a ∈ as, (f a).Reorders (g a)) :
    (Json.array (as.map f)).Reorders (.array (as.map g)) :=
  .array (List.forall₂_map_left_iff.mpr (List.forall₂_map_right_iff.mpr (List.forall₂_same.mpr h)))

theorem isTextual_ofMembers {depth : Nat} (h : ∀ member ∈ members, member.2.IsTextual depth) :
    (ofMembers members).IsTextual (depth + 1) :=
  .object fun member hmember => h member (mem_putMembers hmember)

/-- Reordering brings no other numbers in, and nests nothing deeper. -/
theorem IsTextual.of_reorders {depth : Nat} {value : Json} (h : value.IsTextual depth) :
    ∀ {other}, value.Reorders other → other.IsTextual depth := by
  induction h with
  | null depth => intro other hother; cases hother; exact .null depth
  | bool depth value => intro other hother; cases hother; exact .bool depth value
  | byte depth hn => intro other hother; cases hother; exact .byte depth hn
  | string depth text => intro other hother; cases hother; exact .string depth text
  | @array depth items _ ih =>
      intro other hother
      obtain ⟨others, rfl, hitems⟩ := hother.exists_array
      refine .array fun item hitem => ?_
      obtain ⟨original, hmem, hreorders⟩ := exists_mem_of_forall₂ hitems hitem
      exact ih original hmem hreorders
  | @object depth members _ ih =>
      intro other hother
      obtain ⟨written, rfl, others, hmembers, hperm⟩ := hother.exists_object
      refine .object fun member hmember => ?_
      obtain ⟨original, hmem, hreorders⟩ :=
        exists_mem_of_forall₂ hmembers (hperm.mem_iff.mpr hmember)
      exact ih original hmem hreorders.reorders

end Json

/-! ## Objects that were put together -/

theorem putMember_perm {name : String} {value : Json} (h : name ∉ members.map (·.1)) :
    (putMember name value members).Perm ((name, value) :: members) := by
  induction members with
  | nil => exact .refl _
  | cons member members ih =>
      obtain ⟨other, old⟩ := member
      rw [List.map_cons, List.mem_cons, not_or] at h
      rw [putMember]
      split
      · exact .refl _
      · rw [if_neg h.1]
        exact ((ih h.2).cons _).trans (.swap _ _ _)

theorem putMembers_perm (h : (members.map (·.1)).Nodup) : (putMembers members).Perm members := by
  suffices hfold : ∀ object, ((members ++ object).map (·.1)).Nodup →
      (members.foldl (fun object member => putMember member.1 member.2 object) object).Perm
        (members ++ object) by
    have hperm := hfold [] (by rwa [List.append_nil])
    rw [List.append_nil] at hperm
    exact hperm
  clear h
  induction members with
  | nil => exact fun object _ => .refl _
  | cons member members ih =>
      obtain ⟨name, value⟩ := member
      intro object hnodup
      rw [List.cons_append, List.map_cons, List.nodup_cons] at hnodup
      have hput : (putMember name value object).Perm ((name, value) :: object) := by
        refine putMember_perm fun hmem => hnodup.1 ?_
        rw [List.map_append]
        exact List.mem_append_right _ hmem
      have hmiddle : (members ++ putMember name value object).Perm
          ((name, value) :: (members ++ object)) :=
        (hput.append_left members).trans List.perm_middle
      refine (ih _ ?_).trans hmiddle
      exact (hmiddle.map (·.1)).nodup_iff.mpr (List.nodup_cons.mpr hnodup)

/-- An object that was put together may be written with its members in any order. -/
theorem Json.reorders_ofMembers_iff (h : (members.map (·.1)).Nodup) {value : Json} :
    (Json.ofMembers members).Reorders value ↔
      ∃ written, value = .object written ∧
        ∃ others, List.Forall₂ MemberReorders members others ∧ others.Perm written := by
  have hperm := putMembers_perm h
  constructor
  · intro hreorders
    obtain ⟨written, rfl, others, hothers, hwritten⟩ := hreorders.exists_object
    obtain ⟨others', hothers', hperm'⟩ := List.perm_comp_forall₂ hperm.symm hothers
    exact ⟨written, rfl, others', hothers', hperm'.trans hwritten⟩
  · rintro ⟨written, rfl, others, hothers, hwritten⟩
    obtain ⟨others', hothers', hperm'⟩ := List.perm_comp_forall₂ hperm hothers
    exact .object hothers' (hperm'.trans hwritten)

theorem Json.ofMembers_reorders (hnames : (members.map (·.1)).Nodup)
    (h : List.Forall₂ MemberReorders members others) :
    (Json.ofMembers members).Reorders (.object others) :=
  (Json.reorders_ofMembers_iff hnames).mpr ⟨others, rfl, others, h, .refl others⟩

end CodeTint
