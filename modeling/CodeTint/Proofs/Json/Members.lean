import Mathlib.Data.String.Basic
import CodeTint.Json.Basic

/-!
# Members of objects

An object keeps its members in the order of their names, but nothing that looks one up depends on
that order: of the members that are put one after the other the last one of each name is found
(`lookup_putMembers`).
-/

namespace CodeTint

/-! ## Looking up -/

theorem lookup_cons_eq_ite {α : Type} (name key : String) (value : α)
    (members : List (String × α)) :
    ((name, value) :: members).lookup key =
      if key = name then some value else members.lookup key := by
  by_cases hkey : key = name
  · rw [hkey, List.lookup_cons_self, if_pos rfl]
  · rw [List.lookup_cons, beq_false_of_ne hkey, if_neg hkey]

theorem lookup_map_eq_find? {α β : Type} (name : α → String) (value : α → β) (items : List α)
    (key : String) :
    (items.map fun item => (name item, value item)).lookup key =
      (items.find? (name · = key)).map value := by
  induction items with
  | nil => rfl
  | cons item items ih =>
      rw [List.map_cons, lookup_cons_eq_ite, ih, List.find?_cons]
      by_cases hkey : name item = key
      · simp [hkey]
      · simp [hkey, Ne.symm hkey]

/-- If no two items satisfy the condition, it finds the one that does, wherever it stands. -/
theorem find?_eq_some_iff_of_unique {α : Type} {items : List α} {p : α → Bool} {item : α}
    (hunique : ∀ item ∈ items, ∀ other ∈ items, p item → p other → item = other) :
    items.find? p = some item ↔ item ∈ items ∧ p item := by
  constructor
  · intro hfind
    exact ⟨List.mem_of_find?_eq_some hfind, List.find?_some hfind⟩
  · rintro ⟨hitem, hp⟩
    cases hfind : items.find? p with
    | none => exact absurd hp (List.find?_eq_none.mp hfind item hitem)
    | some other =>
        rw [hunique other (List.mem_of_find?_eq_some hfind) item hitem (List.find?_some hfind) hp]

theorem lookup_putMember {α : Type} (name key : String) (value : α)
    (members : List (String × α)) :
    (putMember name value members).lookup key =
      if key = name then some value else members.lookup key := by
  induction members with
  | nil => exact lookup_cons_eq_ite name key value []
  | cons member members ih =>
      obtain ⟨other, old⟩ := member
      rw [putMember]
      split
      · exact lookup_cons_eq_ite name key value _
      · split
        next heq =>
          subst heq
          rw [lookup_cons_eq_ite, lookup_cons_eq_ite]
          split <;> rfl
        next hne =>
          rw [lookup_cons_eq_ite, lookup_cons_eq_ite, ih]
          split
          next hkey => rw [if_neg fun h => hne (h.symm.trans hkey)]
          next => rfl

theorem Json.get?_putMember (name key : String) (value : Json) (members : List (String × Json)) :
    (Json.object (putMember name value members)).get? key =
      if key = name then some value else (Json.object members).get? key :=
  lookup_putMember name key value members

theorem lookup_foldl_putMember (members object : List (String × Json)) (key : String) :
    (members.foldl (fun object (name, value) => putMember name value object) object).lookup key =
      (members.reverse.lookup key).or (object.lookup key) := by
  induction members generalizing object with
  | nil => rfl
  | cons member members ih =>
      obtain ⟨name, value⟩ := member
      rw [List.foldl_cons, ih, lookup_putMember, List.reverse_cons, List.lookup_append,
        lookup_cons_eq_ite, Option.or_assoc]
      split <;> rfl

/-- Of the members of one name the last one is found. -/
theorem lookup_putMembers (members : List (String × Json)) (key : String) :
    (putMembers members).lookup key = members.reverse.lookup key := by
  rw [putMembers, lookup_foldl_putMember, List.lookup_nil, Option.or_none]

theorem Json.get?_ofMembers (members : List (String × Json)) (key : String) :
    (Json.ofMembers members).get? key = members.reverse.lookup key :=
  lookup_putMembers members key

/-! ## Nothing is made up -/

section Mem

variable {α : Type} {name : String} {value : α} {member : String × α}
  {members object : List (String × α)}

theorem mem_of_lookup (h : members.lookup name = some value) : (name, value) ∈ members := by
  obtain ⟨front, back, rfl, -⟩ := List.lookup_eq_some_iff.mp h
  exact List.mem_append_right _ List.mem_cons_self

theorem mem_putMember (h : member ∈ putMember name value members) :
    member = (name, value) ∨ member ∈ members := by
  induction members with
  | nil => exact .inl (List.mem_singleton.mp h)
  | cons head members ih =>
      obtain ⟨other, old⟩ := head
      rw [putMember] at h
      split at h
      · exact List.mem_cons.mp h
      · split at h
        · exact (List.mem_cons.mp h).imp_right (List.mem_cons_of_mem _)
        · rcases List.mem_cons.mp h with rfl | h
          · exact .inr List.mem_cons_self
          · exact (ih h).imp_right (List.mem_cons_of_mem _)

theorem mem_putMembers {member : String × Json} {members : List (String × Json)}
    (h : member ∈ putMembers members) : member ∈ members := by
  refine List.foldlRecOn members _ (motive := fun object => member ∈ object → member ∈ members)
    ?nil ?step h
  case nil => exact fun h => absurd h List.not_mem_nil
  case step =>
    intro object ih put hput h
    rcases mem_putMember h with rfl | h
    · exact hput
    · exact ih h

end Mem

/-! ## Objects are in order

The members of an object that was put together stand in the strict order of their names
(`inOrder_putMembers`). Two objects in order that show the same under every name are the same
(`InOrder.ext`), so that an object depends on nothing but what its members show when they are looked
up. -/

section Order

variable {α : Type} {name : String} {value : α} {members others : List (String × α)}

/-- The members stand in the order of their names, and no name stands twice. -/
def InOrder (members : List (String × α)) : Prop :=
  members.Pairwise (·.1 < ·.1)

theorem InOrder.putMember (h : InOrder members) : InOrder (putMember name value members) := by
  induction members with
  | nil => exact List.pairwise_singleton _ _
  | cons member members ih =>
      obtain ⟨other, old⟩ := member
      obtain ⟨hfirst, hrest⟩ := List.pairwise_cons.mp h
      rw [CodeTint.putMember]
      split
      next hlt =>
        refine List.pairwise_cons.mpr ⟨fun member hmember => ?_, h⟩
        rcases List.mem_cons.mp hmember with rfl | hmember
        · exact hlt
        · exact hlt.trans (hfirst member hmember)
      next hnlt =>
        split
        next heq => exact List.pairwise_cons.mpr ⟨fun member hmember =>
          heq ▸ hfirst member hmember, hrest⟩
        next hne =>
          refine List.pairwise_cons.mpr ⟨fun member hmember => ?_, ih hrest⟩
          rcases mem_putMember hmember with rfl | hmember
          · exact lt_of_le_of_ne (not_lt.mp hnlt) (Ne.symm hne)
          · exact hfirst member hmember

theorem inOrder_putMembers (members : List (String × Json)) : InOrder (putMembers members) :=
  List.foldlRecOn members _ List.Pairwise.nil fun _ hobject _ _ => hobject.putMember

theorem lookup_eq_none_of_forall_lt (h : ∀ member ∈ members, name < member.1) :
    members.lookup name = none := by
  refine List.lookup_eq_none_iff.mpr fun member hmember => ?_
  simp [(h member hmember).ne]

/-- What the members show under every name determines them. -/
theorem InOrder.ext (h : InOrder members) (hothers : InOrder others)
    (hlookup : ∀ key, members.lookup key = others.lookup key) : members = others := by
  induction members generalizing others with
  | nil =>
      cases others with
      | nil => rfl
      | cons other others =>
          have := hlookup other.1
          rw [List.lookup_nil, lookup_cons_eq_ite other.1 other.1 other.2, if_pos rfl] at this
          cases this
  | cons member members ih =>
      obtain ⟨name, value⟩ := member
      obtain ⟨hfirst, hrest⟩ := List.pairwise_cons.mp h
      have hname := hlookup name
      rw [lookup_cons_eq_ite, if_pos rfl] at hname
      cases others with
      | nil => cases hname
      | cons other others =>
          obtain ⟨name', value'⟩ := other
          obtain ⟨hfirst', hrest'⟩ := List.pairwise_cons.mp hothers
          -- The first name of either object is found in the other one, and not behind its first.
          rcases lt_trichotomy name name' with hlt | rfl | hlt
          · rw [lookup_eq_none_of_forall_lt (List.forall_mem_cons.mpr
              ⟨hlt, fun m hm => hlt.trans (hfirst' m hm)⟩)] at hname
            cases hname
          · rw [lookup_cons_eq_ite, if_pos rfl] at hname
            obtain rfl := Option.some.inj hname
            refine congrArg _ (ih hrest hrest' fun key => ?_)
            have hkey := hlookup key
            rw [lookup_cons_eq_ite, lookup_cons_eq_ite] at hkey
            by_cases heq : key = name
            · rw [heq, lookup_eq_none_of_forall_lt hfirst, lookup_eq_none_of_forall_lt hfirst']
            · rwa [if_neg heq, if_neg heq] at hkey
          · have hname' := hlookup name'
            rw [lookup_eq_none_of_forall_lt (List.forall_mem_cons.mpr
              ⟨hlt, fun m hm => hlt.trans (hfirst m hm)⟩), lookup_cons_eq_ite, if_pos rfl] at hname'
            cases hname'

/-! ### Some of the names -/

theorem lookup_filter (p : String → Bool) (members : List (String × α)) (key : String) :
    (members.filter (p ·.1)).lookup key = if p key then members.lookup key else none := by
  induction members with
  | nil => exact (ite_self none).symm
  | cons member members ih =>
      obtain ⟨name, value⟩ := member
      rw [List.filter_cons, lookup_cons_eq_ite]
      by_cases hkey : key = name
      · subst hkey
        by_cases hp : p key <;> simp [hp, ih]
      · by_cases hp : p name <;> simp [hp, ih, lookup_cons_eq_ite, hkey]

theorem lookup_filterMap_lookup (names : List String) (members : List (String × α))
    (key : String) :
    (names.filterMap fun name => (members.lookup name).map (name, ·)).lookup key =
      if key ∈ names then members.lookup key else none := by
  induction names with
  | nil => rfl
  | cons name names ih =>
      rw [List.filterMap_cons]
      by_cases hkey : key = name
      · subst hkey
        cases hvalue : members.lookup key <;> simp [ih, hvalue]
      · cases members.lookup name <;> simp [ih, lookup_cons_eq_ite, hkey]

/-- The members of some names stand as these are in order. -/
theorem InOrder.filter_mem_eq (h : InOrder members) {names : List String}
    (hnames : names.Pairwise (· < ·)) :
    members.filter (·.1 ∈ names) =
      names.filterMap fun name => (members.lookup name).map (name, ·) := by
  have hfound : InOrder (names.filterMap fun name => (members.lookup name).map (name, ·)) := by
    refine List.pairwise_filterMap.mpr (hnames.imp fun {name other} hlt => ?_)
    simpa using fun _ _ _ _ => hlt
  refine InOrder.ext (List.Pairwise.filter _ h) hfound fun key => ?_
  rw [lookup_filter (· ∈ names), lookup_filterMap_lookup]
  simp

theorem putMembers_eq_of_lookup {members others : List (String × Json)}
    (h : ∀ key, (putMembers members).lookup key = (putMembers others).lookup key) :
    putMembers members = putMembers others :=
  (inOrder_putMembers members).ext (inOrder_putMembers others) h

/-- Members that stand in order already are put as they stand. -/
theorem InOrder.putMembers_eq {members : List (String × Json)} (h : InOrder members) :
    putMembers members = members := by
  refine (inOrder_putMembers members).ext h fun key => ?_
  rw [lookup_putMembers]
  induction members with
  | nil => rfl
  | cons member members ih =>
      obtain ⟨name, value⟩ := member
      obtain ⟨hfirst, hrest⟩ := List.pairwise_cons.mp h
      rw [List.reverse_cons, List.lookup_append, ih hrest, lookup_cons_eq_ite, lookup_cons_eq_ite]
      by_cases hkey : key = name
      · rw [hkey, lookup_eq_none_of_forall_lt hfirst, if_pos rfl, if_pos rfl, Option.none_or]
      · rw [if_neg hkey, if_neg hkey, List.lookup_nil, Option.or_none]

end Order

/-! ## Members under other names

A member of an object is renamed if what stands under its key comes under another key, which the
object does not have so far (`RenamesMember`). All that is looked up afterwards was there before
(`RenamesMember.get?_eq`, `RenamesMember.mem_or`). -/

/-- The member under one key comes under another key, under which there was none. -/
inductive RenamesMember (key key' : String) :
    List (String × Json) → List (String × Json) → Prop
  | rename {members : List (String × Json)} {value : Json} :
      members.lookup key = some value → members.lookup key' = none →
      RenamesMember key key' members (putMember key' value (members.filter (·.1 ≠ key)))

theorem lookup_filter_ne (key name : String) (members : List (String × Json)) :
    (members.filter (·.1 ≠ key)).lookup name =
      if name = key then none else members.lookup name := by
  induction members with
  | nil => exact (ite_self _).symm
  | cons member members ih =>
      obtain ⟨other, value⟩ := member
      rw [List.filter_cons, lookup_cons_eq_ite]
      by_cases hother : other = key
      · rw [if_neg (by simp [hother]), ih]
        by_cases hname : name = key
        · rw [if_pos hname, if_pos hname]
        · rw [if_neg hname, if_neg hname, if_neg fun heq => hname (heq.trans hother)]
      · rw [if_pos (by simp [hother]), lookup_cons_eq_ite, ih]
        split
        next heq => rw [if_neg fun hname => hother (heq.symm.trans hname)]
        next => rfl

namespace RenamesMember

variable {key key' name : String} {members renamed : List (String × Json)}
  {member : String × Json}

theorem ne (h : RenamesMember key key' members renamed) : key ≠ key' := by
  rintro rfl
  cases h with
  | rename hkey hkey' => exact Option.some_ne_none _ (hkey.symm.trans hkey')

theorem get?_key' (h : RenamesMember key key' members renamed) :
    (Json.object members).get? key' = none := by
  cases h with
  | rename _ hkey' => exact hkey'

theorem get?_eq (h : RenamesMember key key' members renamed) (name : String) :
    (Json.object renamed).get? name =
      if name = key' then (Json.object members).get? key
      else if name = key then none else (Json.object members).get? name := by
  cases h with
  | rename hkey hkey' =>
      rw [Json.get?_putMember, Json.get?, Json.get?, Json.get?, hkey, lookup_filter_ne]

theorem get?_of_ne (h : RenamesMember key key' members renamed) (hname : name ≠ key)
    (hname' : name ≠ key') : (Json.object renamed).get? name = (Json.object members).get? name := by
  rw [h.get?_eq, if_neg hname', if_neg hname]

theorem mem_or (h : RenamesMember key key' members renamed) (hmember : member ∈ renamed) :
    member.1 ≠ key ∧ (member ∈ members ∨ member.1 = key' ∧ (key, member.2) ∈ members) := by
  have hne := h.ne
  cases h with
  | rename hkey hkey' =>
      rcases mem_putMember hmember with rfl | hmember
      · exact ⟨hne.symm, .inr ⟨rfl, mem_of_lookup hkey⟩⟩
      · obtain ⟨hmem, hname⟩ := List.mem_filter.mp hmember
        exact ⟨of_decide_eq_true hname, .inl hmem⟩

theorem key_notMem (h : RenamesMember key key' members renamed) : key ∉ renamed.map (·.1) := by
  intro hkey
  obtain ⟨member, hmember, rfl⟩ := List.mem_map.mp hkey
  exact (h.mem_or hmember).1 rfl

theorem mem_names (h : RenamesMember key key' members renamed) (hname : name ∈ renamed.map (·.1))
    (hne : name ≠ key') : name ∈ members.map (·.1) := by
  obtain ⟨member, hmember, rfl⟩ := List.mem_map.mp hname
  obtain ⟨-, hmem | ⟨heq, -⟩⟩ := h.mem_or hmember
  · exact List.mem_map_of_mem hmem
  · exact absurd heq hne

end RenamesMember

end CodeTint
