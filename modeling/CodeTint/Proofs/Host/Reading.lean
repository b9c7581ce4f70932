import CodeTint.Proofs.Host.Keywords
import CodeTint.Proofs.Json.Records

/-!
# Reading modes and host objects member by member

What is read of a mode that is written as an object does not depend on the order of its members:
its keys are the texts that stand under their names (`keys_hostModeMembers?`), and its variants are
read from the list under `variants` (`hostModes?_itemsAt`). It can be read if each of its members
can be (`isSome_hostModeMembers?_iff`). A host object is read from what stands under three names
(`HostGrammar.ofJson?_object_eq_some_iff`). Modes give rules declaration by declaration
(`HostMode.rules_eq_ok_iff`).
-/

namespace CodeTint

/-! ## Lists of modes -/

theorem hostModes?_eq_mapM (items : List Json) :
    hostModes? items = items.mapM HostMode.ofJson? := by
  induction items with
  | nil => rfl
  | cons item items ih => rw [hostModes?, ih, List.mapM_cons]

theorem hostModes?_eq_some_iff {items : List Json} {modes : List HostMode} :
    hostModes? items = some modes ↔
      List.Forall₂ (fun item mode => HostMode.ofJson? item = some mode) items modes := by
  rw [hostModes?_eq_mapM, mapM_eq_some_iff_forall₂]

/-! ## Members of a mode -/

namespace Json

def textAt (key : String) (value : Json) : Option String :=
  (value.get? key).bind text?

def itemsAt (key : String) (value : Json) : List Json :=
  match value.get? key with
  | some (.array items) => items
  | _ => []

end Json

/-- The names of the keys of a mode, all of which hold texts. -/
def hostTextKeys : List String :=
  ["className", "scope", "begin", "end", "illegal", "match"]

/-- What the mode declares by itself, with its label under one of two names. -/
def HostKeys.ofObject (mode : Json) : HostKeys where
  label := (mode.textAt "className").or (mode.textAt "scope")
  opening := mode.textAt "begin"
  closing := mode.textAt "end"
  illegal := mode.textAt "illegal"
  pattern := mode.textAt "match"

section Members

variable {keys keys' : HostKeys} {variants : List HostMode} {name key : String} {value : Json}
  {members : List (String × Json)}

theorem join_optionalText? {text : Option String} (h : optionalText? value = some text) :
    text = text? value := by
  cases value <;> cases h <;> rfl

theorem HostKeys.isSome_set?_iff (keys : HostKeys) :
    (keys.set? name value).isSome ↔ (name ∈ hostTextKeys → (optionalText? value).isSome) := by
  unfold set?
  split <;> simp_all [hostTextKeys]

theorem HostKeys.eq_of_set? (h : keys.set? name value = some keys') :
    keys' = {
      label := if name = "className" ∨ name = "scope" then text? value else keys.label
      opening := if name = "begin" then text? value else keys.opening
      closing := if name = "end" then text? value else keys.closing
      illegal := if name = "illegal" then text? value else keys.illegal
      pattern := if name = "match" then text? value else keys.pattern } := by
  unfold set? at h
  split at h
  case h_7 => simp_all
  all_goals
    obtain ⟨text, htext, rfl⟩ := Option.map_eq_some_iff.mp h
    obtain rfl := join_optionalText? htext
    simp

theorem hostModeMembers?_cons_eq_some_iff :
    hostModeMembers? ((name, value) :: members) = some (keys, variants) ↔
      ∃ others othersVariants, hostModeMembers? members = some (others, othersVariants) ∧
        if name = "variants" then
          keys = others ∧ ∃ items, value = .array items ∧ hostModes? items = some variants
        else others.set? name value = some keys ∧ variants = othersVariants := by
  rw [hostModeMembers?]
  cases hostModeMembers? members with
  | none => simp
  | some read =>
      obtain ⟨others, othersVariants⟩ := read
      by_cases hname : name = "variants"
      · cases value with
        | array items => cases hitems : hostModes? items <;> simp [hname, hitems, eq_comm]
        | _ => simp [hname]
      · cases hset : others.set? name value <;> simp [hname, hset, eq_comm, and_comm]

theorem isSome_hostModeMembers?_iff :
    (hostModeMembers? members).isSome ↔
      ∀ member ∈ members,
        if member.1 = "variants" then
          ∃ items, member.2 = .array items ∧ ∀ item ∈ items, (HostMode.ofJson? item).isSome
        else member.1 ∈ hostTextKeys → (optionalText? member.2).isSome := by
  induction members with
  | nil => simp [hostModeMembers?]
  | cons member members ih =>
      obtain ⟨name, value⟩ := member
      rw [List.forall_mem_cons, ← ih, hostModeMembers?]
      cases hostModeMembers? members with
      | none => simp
      | some read =>
          obtain ⟨others, othersVariants⟩ := read
          by_cases hname : name = "variants"
          · cases value with
            | array items =>
                cases hitems : hostModes? items <;>
                  simp [hname, hitems, ← isSome_mapM_iff, ← hostModes?_eq_mapM]
            | _ => simp [hname]
          · rw [← others.isSome_set?_iff]
            cases hset : others.set? name value <;> simp [hname, hset]

theorem get?_object_cons :
    (Json.object ((name, value) :: members)).get? key =
      if key = name then some value else (Json.object members).get? key :=
  lookup_cons_eq_ite name key value members

theorem textAt_object_cons :
    (Json.object ((name, value) :: members)).textAt key =
      if key = name then text? value else (Json.object members).textAt key := by
  rw [Json.textAt, get?_object_cons, apply_ite (Option.bind · text?), Option.bind_some]
  rfl

theorem textAt_eq_none_of_any_eq_false (h : members.any (·.1 = key) = false) :
    (Json.object members).textAt key = none := by
  have hlookup : members.lookup key = none :=
    List.lookup_eq_none_iff.mpr fun member hmember => bne_iff_ne.mpr fun heq =>
      List.any_eq_false.mp h member hmember (decide_eq_true heq.symm)
  rw [Json.textAt, Json.get?, hlookup, Option.bind_none]

/-- The keys that are read are the texts under their names, if only one name of the label is given.
-/
theorem keys_hostModeMembers? (h : hostModeMembers? members = some (keys, variants))
    (hlabel : ((members.any (·.1 = "className")) && (members.any (·.1 = "scope"))) = false) :
    keys = .ofObject (.object members) := by
  induction members generalizing keys variants with
  | nil => cases h; rfl
  | cons member members ih =>
      obtain ⟨name, value⟩ := member
      obtain ⟨others, othersVariants, hothers, hmember⟩ := hostModeMembers?_cons_eq_some_iff.mp h
      simp only [List.any_cons, Bool.and_eq_false_iff, Bool.or_eq_false_iff,
        decide_eq_false_iff_not] at hlabel
      have hrest : others = .ofObject (.object members) := by
        refine ih hothers (Bool.and_eq_false_iff.mpr ?_)
        exact hlabel.imp And.right And.right
      have hclass : name = "className" → (Json.object members).textAt "scope" = none := fun hname =>
        textAt_eq_none_of_any_eq_false (hlabel.resolve_left fun h => h.1 hname).2
      have hscope : name = "scope" → (Json.object members).textAt "className" = none := fun hname =>
        textAt_eq_none_of_any_eq_false (hlabel.resolve_right fun h => h.1 hname).2
      split at hmember
      next hname =>
        obtain ⟨rfl, -⟩ := hmember
        simp [hrest, HostKeys.ofObject, textAt_object_cons, hname]
      next hname =>
        rw [HostKeys.eq_of_set? hmember.1, hrest]
        simp only [HostKeys.ofObject, textAt_object_cons, eq_comm (b := name), HostKeys.mk.injEq,
          and_true]
        by_cases hname : name = "className"
        · simp [hname, hclass hname]
        · by_cases hname' : name = "scope"
          · simp [hname', hscope hname']
          · simp [hname, hname']

theorem hostModes?_itemsAt (h : hostModeMembers? members = some (keys, variants)) :
    hostModes? ((Json.object members).itemsAt "variants") = some variants := by
  induction members generalizing keys variants with
  | nil => cases h; rfl
  | cons member members ih =>
      obtain ⟨name, value⟩ := member
      obtain ⟨others, othersVariants, hothers, hmember⟩ := hostModeMembers?_cons_eq_some_iff.mp h
      rw [Json.itemsAt, get?_object_cons]
      split at hmember
      next hname =>
        obtain ⟨-, items, rfl, hitems⟩ := hmember
        rw [if_pos hname.symm]
        exact hitems
      next hname =>
        obtain ⟨-, rfl⟩ := hmember
        rw [if_neg (Ne.symm hname)]
        exact ih hothers

end Members

/-! ## Host objects -/

namespace HostGrammar

theorem ofJson?_object (members : List (String × Json)) :
    ofJson? (.object members) = (do
      let name ← text? (((Json.object members).get? "name").getD .null)
      let keywords ← HostKeywords.ofJson? (((Json.object members).get? "keywords").getD .null)
      match ((Json.object members).get? "contains").getD (.array []) with
      | .array items => return ⟨name, keywords, ← hostModes? items⟩
      | _ => none) :=
  rfl

theorem ofJson?_object_eq_some_iff {members : List (String × Json)} {items : List Json}
    {host : HostGrammar}
    (hcontains : (Json.object members).get? "contains" = some (.array items)) :
    ofJson? (.object members) = some host ↔
      text? (((Json.object members).get? "name").getD .null) = some host.name ∧
        HostKeywords.ofJson? (((Json.object members).get? "keywords").getD .null) =
          some host.keywords ∧
        hostModes? items = some host.modes := by
  obtain ⟨name, keywords, modes⟩ := host
  rw [ofJson?_object, hcontains]
  simp only [Option.bind_eq_bind, Option.bind_eq_some_iff, Option.getD_some]
  cases hostModes? items <;> simp

end HostGrammar

/-! ## Rules -/

/-- The rules of a mode are made of its declarations, one after the other. -/
theorem HostMode.rules_eq_ok_iff {keys : HostKeys} {variants : List HostMode} {list : List Rule} :
    (mk keys variants).rules = .ok list ↔
      ∃ category declarations, keys.category = .ok category ∧
        (mk keys variants).declarations = .ok declarations ∧
          (declarations.foldl (ModeRules.add category) .empty).rules = list := by
  simp only [rules, bind_eq_ok_iff, pure, Except.pure, Except.ok.injEq, exists_and_left]

theorem rulesOfModes_eq_ok_iff {name : String} {index : Nat} {modes : List HostMode}
    {rules : List Rule} :
    rulesOfModes name index modes = .ok rules ↔
      ∃ lists, modes.mapM HostMode.rules = .ok lists ∧ lists.flatten = rules := by
  induction modes generalizing index rules with
  | nil => simp [rulesOfModes, pure, Except.pure]
  | cons mode modes ih =>
      rw [rulesOfModes, List.mapM_cons]
      cases mode.rules with
      | error cause => simp [bind, Except.bind]
      | ok first =>
          have hmap : (rulesOfModes name (index + 1) modes).map (first ++ ·) = .ok rules ↔
              ∃ others, rulesOfModes name (index + 1) modes = .ok others ∧
                first ++ others = rules := by
            cases rulesOfModes name (index + 1) modes <;> simp [Except.map]
          simp only [hmap, ih]
          cases modes.mapM HostMode.rules <;> simp [bind, Except.bind, pure, Except.pure]

end CodeTint
