import Mathlib.Data.List.Forall2
import CallAudit.Proofs.WrittenValue

/-!
# Values up to the order of keys

An object is known by its keys and their values, and the canonical form of a value is one way to
write it down. Where no key of an object is repeated, its canonical form has the same members in
another order, and where the keys ascend already it is the value itself.

## Main definitions

* `Json.KeysDistinct`, `Json.KeysAscend`: in no object of a value is a key repeated, or a key behind
  a greater one.
* `Json.Reordered`: two values that differ in the order of members only.

## Main statements

* `Json.reordered_canonical`: the canonical form of a value with distinct keys.
* `Json.canonical_of_keysAscend`: the canonical form of a value with ascending keys.
-/

namespace CallAudit

namespace Json

/-- The keys of an object in order. -/
def keys : Json → List String
  | .object members => members.map Prod.fst
  | .null | .bool _ | .number _ | .string _ | .array _ => []

/-- No object in the value has a key twice. -/
def KeysDistinct (v : Json) : Prop := v.Throughout fun w => w.keys.Nodup

/-- The keys of every object in the value ascend. -/
def KeysAscend (v : Json) : Prop := v.Throughout fun w => w.keys.Pairwise (· < ·)

/-- The values are the same, apart from the order in which the members of an object stand. -/
inductive Reordered : Json → Json → Prop
  | refl (v : Json) : Reordered v v
  | array {as bs : List Json} (items : List.Forall₂ Reordered as bs) :
      Reordered (.array as) (.array bs)
  | object {as bs cs : List (String × Json)} (keys : as.map Prod.fst = bs.map Prod.fst)
      (values : List.Forall₂ Reordered (as.map Prod.snd) (bs.map Prod.snd)) (order : bs.Perm cs) :
      Reordered (.object as) (.object cs)

theorem canonicalItems_eq_map (items : List Json) :
    canonicalItems items = items.map canonical := by
  induction items with
  | nil => rfl
  | cons item items ih => rw [canonicalItems, ih, List.map_cons]

theorem putAbsent_perm {key : String} {value : Json} {members : List (String × Json)}
    (h : key ∉ members.map Prod.fst) :
    (putAbsent key value members).Perm ((key, value) :: members) := by
  induction members with
  | nil => exact List.Perm.refl _
  | cons m members ih =>
    rw [List.map_cons, List.mem_cons, not_or] at h
    by_cases hlt : key < m.1
    · rw [putAbsent, if_pos hlt]
    · rw [putAbsent, if_neg hlt, if_neg h.1]
      exact ((ih h.2).cons m).trans (List.Perm.swap _ _ _)

theorem canonicalMembers_perm {members : List (String × Json)}
    (h : (members.map Prod.fst).Nodup) :
    (canonicalMembers members).Perm (members.map fun m => (m.1, m.2.canonical)) := by
  induction members with
  | nil => exact List.Perm.refl _
  | cons m members ih =>
    rw [List.map_cons, List.nodup_cons] at h
    have hrest := ih h.2
    have hkeys : (canonicalMembers members).map Prod.fst |>.Perm (members.map Prod.fst) := by
      have := hrest.map Prod.fst
      rwa [List.map_map] at this
    have habsent : m.1 ∉ (canonicalMembers members).map Prod.fst := by
      rw [hkeys.mem_iff]
      exact h.1
    rw [canonicalMembers, List.map_cons]
    exact (putAbsent_perm habsent).trans (hrest.cons _)

theorem reordered_canonical {v : Json} (h : v.KeysDistinct) : v.Reordered v.canonical := by
  induction v using parts_induction with
  | value v ih =>
    have hparts : List.Forall₂ Reordered v.parts (v.parts.map canonical) := by
      rw [List.forall₂_map_right_iff, List.forall₂_same]
      exact fun w hw => ih w hw (h.part hw)
    cases v with
    | null => exact .refl _
    | bool value => exact .refl _
    | number value => exact .refl _
    | string value => exact .refl _
    | array items =>
      rw [canonical, canonicalItems_eq_map]
      exact .array hparts
    | object members =>
      rw [canonical]
      refine .object ?_ ?_ (canonicalMembers_perm h.own).symm
      · rw [List.map_map]
        rfl
      · change List.Forall₂ Reordered (members.map Prod.snd)
          ((members.map Prod.snd).map canonical) at hparts
        rw [List.map_map] at hparts ⊢
        exact hparts

theorem putAbsent_of_lt {key : String} {value : Json} {members : List (String × Json)}
    (h : ∀ k ∈ members.map Prod.fst, key < k) :
    putAbsent key value members = (key, value) :: members := by
  cases members with
  | nil => rfl
  | cons m members => rw [putAbsent, if_pos (h m.1 List.mem_cons_self)]

theorem canonicalMembers_of_ascending {members : List (String × Json)}
    (hkeys : (members.map Prod.fst).Pairwise (· < ·)) (h : ∀ m ∈ members, m.2.canonical = m.2) :
    canonicalMembers members = members := by
  induction members with
  | nil => rfl
  | cons m members ih =>
    rw [List.map_cons, List.pairwise_cons] at hkeys
    rw [canonicalMembers, h m List.mem_cons_self,
      ih hkeys.2 fun m' hm => h m' (List.mem_cons_of_mem m hm), putAbsent_of_lt hkeys.1]

theorem canonical_of_keysAscend {v : Json} (h : v.KeysAscend) : v.canonical = v := by
  induction v using parts_induction with
  | value v ih =>
    have hparts : ∀ w ∈ v.parts, w.canonical = w := fun w hw => ih w hw (h.part hw)
    cases v with
    | null => rfl
    | bool value => rfl
    | number value => rfl
    | string value => rfl
    | array items =>
      have hitems : items.map canonical = items :=
        (List.map_congr_left hparts).trans (List.map_id' items)
      rw [canonical, canonicalItems_eq_map, hitems]
    | object members =>
      rw [canonical, canonicalMembers_of_ascending h.own fun m hm =>
        hparts m.2 (List.mem_map_of_mem hm)]

end Json

end CallAudit
