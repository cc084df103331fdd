import Mathlib.Data.Finset.Card
import Mathlib.Data.List.Pairwise
import CallAudit.Scope.Basic

/-!
# Tables after many insertions

A table that has taken up a list of entries answers for each key with the last entry of that key,
and falls back on what it held before. A table holds each of its keys once, so its size counts them.

## Main definitions

* `lastFor?`: the last entry of a key.
* `Table.ofEntries`: the table of some entries, without those that a later one replaces.

## Main statements

* `Table.find?_insertAll`, `Table.find?_ofEntries`: the last entry wins.
* `Table.size_insertAll_empty`: the size counts the different keys.
* `Scope.binds_eq_isSome_find?`: the two questions about a key agree.
-/

namespace CallAudit

/-- What the last of some entries for a key binds it to. -/
def lastFor? (entries : List (ModuleName × Binding)) (key : ModuleName) : Option Binding :=
  (entries.filter fun entry => entry.1 == key).getLast?.map Prod.snd

theorem lastFor?_append (as bs : List (ModuleName × Binding)) (key : ModuleName) :
    lastFor? (as ++ bs) key = (lastFor? bs key).or (lastFor? as key) := by
  rw [lastFor?, List.filter_append, List.getLast?_append, Option.map_or]
  rfl

theorem lastFor?_cons (entry : ModuleName × Binding) (entries : List (ModuleName × Binding))
    (key : ModuleName) :
    lastFor? (entry :: entries) key =
      (lastFor? entries key).or (if key = entry.1 then some entry.2 else none) := by
  rw [← List.singleton_append, lastFor?_append]
  by_cases h : key = entry.1
  · simp [lastFor?, h]
  · simp [lastFor?, h, Ne.symm h]

theorem isSome_lastFor?_iff {entries : List (ModuleName × Binding)} {key : ModuleName} :
    (lastFor? entries key).isSome = true ↔ key ∈ entries.map Prod.fst := by
  simp [lastFor?]

/-- Where no key stands twice, the last entry of a key is the first one too. -/
theorem lastFor?_eq_lookup {entries : List (ModuleName × Binding)} (key : ModuleName)
    (h : (entries.map Prod.fst).Nodup) : lastFor? entries key = entries.lookup key := by
  induction entries with
  | nil => rfl
  | cons entry entries ih =>
    obtain ⟨k, b⟩ := entry
    obtain ⟨hk, hrest⟩ := List.nodup_cons.mp h
    rw [lastFor?_cons, ih hrest]
    -- If the first entry has the key, none of the others has it.
    by_cases he : key = k
    · subst he
      have hnone : entries.lookup key = none := by
        rw [← ih hrest, ← Option.not_isSome_iff_eq_none, isSome_lastFor?_iff]
        exact hk
      simp [hnone]
    · have hne : (key == k) = false := by simpa using he
      simp [List.lookup_cons, hne, he]

/-- An entry that a later one replaces is not the last one for its key. -/
theorem lastFor?_pwFilter (entries : List (ModuleName × Binding)) (key : ModuleName) :
    lastFor? (entries.pwFilter fun entry later => entry.1 ≠ later.1) key =
      lastFor? entries key := by
  induction entries with
  | nil => rfl
  | cons entry entries ih =>
    rw [lastFor?_cons]
    by_cases hnew : ∀ later ∈ entries.pwFilter fun a b => a.1 ≠ b.1, entry.1 ≠ later.1
    · rw [List.pwFilter_cons_of_pos hnew, lastFor?_cons, ih]
    · rw [List.pwFilter_cons_of_neg hnew, ih]
      by_cases h : key = entry.1
      · push Not at hnew
        obtain ⟨later, hlater, hkey⟩ := hnew
        have hmem : key ∈ entries.map Prod.fst := by
          rw [h, hkey]
          exact List.mem_map_of_mem (List.pwFilter_subset entries hlater)
        rw [Option.or_of_isSome (isSome_lastFor?_iff.mpr hmem)]
      · rw [if_neg h, Option.or_none]

namespace Table

theorem find?_insert (t : Table) (key other : ModuleName) (binding : Binding) :
    (t.insert key binding).find? other = if other = key then some binding else t.find? other := by
  by_cases h : other = key
  · rw [if_pos h, h, find?_insert_self]
  · rw [if_neg h, find?_insert_of_ne t binding h]

@[simp] theorem insertAll_nil (t : Table) : t.insertAll [] = t := rfl

theorem insertAll_append (t : Table) (as bs : List (ModuleName × Binding)) :
    t.insertAll (as ++ bs) = (t.insertAll as).insertAll bs :=
  List.foldl_append

/-- The last entry for a key wins, and without one the table answers as before. -/
theorem find?_insertAll (t : Table) (entries : List (ModuleName × Binding)) (key : ModuleName) :
    (t.insertAll entries).find? key = (lastFor? entries key).or (t.find? key) := by
  induction entries generalizing t with
  | nil => rfl
  | cons entry entries ih =>
    obtain ⟨k, b⟩ := entry
    change ((t.insert k b).insertAll entries).find? key = _
    rw [ih, find?_insert, lastFor?_cons, Option.or_assoc]
    congr 1
    by_cases h : key = k
    · simp [h]
    · simp [h]

/-- The table of the entries that no later entry for the same key replaces. -/
def ofEntries (entries : List (ModuleName × Binding)) : Table where
  entries := entries.pwFilter fun entry later => entry.1 ≠ later.1
  distinct := by
    rw [List.Nodup, List.pairwise_map]
    exact List.pairwise_pwFilter entries

theorem find?_ofEntries (entries : List (ModuleName × Binding)) (key : ModuleName) :
    (ofEntries entries).find? key = lastFor? entries key := by
  rw [find?, ← lastFor?_eq_lookup key (ofEntries entries).distinct]
  exact lastFor?_pwFilter entries key

theorem isSome_find?_iff {t : Table} {key : ModuleName} :
    (t.find? key).isSome = true ↔ key ∈ t.entries.map Prod.fst := by
  rw [find?, ← lastFor?_eq_lookup key t.distinct, isSome_lastFor?_iff]

theorem size_eq_card (t : Table) {keys : Finset ModuleName}
    (h : ∀ key, key ∈ keys ↔ (t.find? key).isSome = true) : t.size = keys.card := by
  have he : keys = (t.entries.map Prod.fst).toFinset := by
    ext key
    rw [h, isSome_find?_iff, List.mem_toFinset]
  rw [he, List.toFinset_card_of_nodup t.distinct, List.length_map]
  rfl

/-- A table that was filled from nothing has as many keys as there are different ones among the
entries. -/
theorem size_insertAll_empty (entries : List (ModuleName × Binding)) :
    (insertAll {} entries).size = (entries.map Prod.fst).toFinset.card := by
  apply size_eq_card
  intro key
  have hempty : ({} : Table).find? key = none := rfl
  rw [List.mem_toFinset, find?_insertAll, hempty, Option.or_none, isSome_lastFor?_iff]

end Table

namespace Scope

theorem binds_eq_isSome_find? (s : Scope) (key : ModuleName) :
    s.binds key = (s.find? key).isSome := by
  rw [binds, find?, Option.isSome_or]
  rfl

end Scope

end CallAudit
