import Mathlib

/-!
# Ordered maps

A map of the language with ordered keys, as the list of its entries by
increasing key.  An entry with a new key is added without change to the
others, so that up to their order the entries are those that were inserted.
-/

namespace Pocketboot

/-- `BTreeMap`. -/
structure OrderedMap (κ ν : Type) [LinearOrder κ] where
  entries : List (κ × ν)
  sorted : (entries.map Prod.fst).Pairwise (· < ·)

/-- `BTreeSet`. -/
abbrev OrderedSet (κ : Type) [LinearOrder κ] : Type := OrderedMap κ Unit

namespace OrderedMap

variable {κ ν : Type} [LinearOrder κ]

def empty : OrderedMap κ ν := ⟨[], .nil⟩

/-- The entries with one more; it replaces the one of its key. -/
def insertEntry (key : κ) (value : ν) : List (κ × ν) → List (κ × ν)
  | [] => [(key, value)]
  | (other, held) :: rest =>
      if key < other then (key, value) :: (other, held) :: rest
      else if key = other then (key, value) :: rest
      else (other, held) :: insertEntry key value rest

theorem mem_keys_insertEntry {key other : κ} {value : ν}
    {entries : List (κ × ν)}
    (member : other ∈ (insertEntry key value entries).map Prod.fst) :
    other = key ∨ other ∈ entries.map Prod.fst := by
  induction entries with
  | nil =>
      rw [insertEntry] at member
      exact .inl (List.mem_singleton.mp member)
  | cons entry rest induction =>
      obtain ⟨first, held⟩ := entry
      rw [insertEntry] at member
      split at member
      · exact List.mem_cons.mp member
      · split at member
        · rcases List.mem_cons.mp member with same | later
          · exact .inl same
          · exact .inr (.tail _ later)
        · rcases List.mem_cons.mp member with same | later
          · exact .inr (same ▸ .head _)
          · exact (induction later).imp_right (.tail _)

theorem insertEntry_sorted {key : κ} {value : ν} {entries : List (κ × ν)}
    (sorted : (entries.map Prod.fst).Pairwise (· < ·)) :
    ((insertEntry key value entries).map Prod.fst).Pairwise (· < ·) := by
  induction entries with
  | nil => exact List.pairwise_singleton _ key
  | cons entry rest induction =>
      obtain ⟨first, held⟩ := entry
      obtain ⟨least, more⟩ := List.pairwise_cons.mp sorted
      rw [insertEntry]
      split
      · rename_i before
        refine List.pairwise_cons.mpr ⟨?_, sorted⟩
        intro other member
        rcases List.mem_cons.mp member with rfl | later
        · exact before
        · exact before.trans (least other later)
      · rename_i notBefore
        split
        · rename_i same
          exact List.pairwise_cons.mpr ⟨same ▸ least, more⟩
        · rename_i differs
          refine List.pairwise_cons.mpr ⟨?_, induction more⟩
          intro other member
          rcases mem_keys_insertEntry member with rfl | later
          · exact lt_of_le_of_ne (not_lt.mp notBefore) (Ne.symm differs)
          · exact least other later

theorem insertEntry_perm {key : κ} {value : ν} {entries : List (κ × ν)}
    (fresh : key ∉ entries.map Prod.fst) :
    (insertEntry key value entries).Perm ((key, value) :: entries) := by
  induction entries with
  | nil => exact .refl _
  | cons entry rest induction =>
      obtain ⟨first, held⟩ := entry
      rw [List.map_cons, List.mem_cons, not_or] at fresh
      rw [insertEntry]
      split
      · exact .refl _
      · rw [if_neg fresh.1]
        exact ((induction fresh.2).cons _).trans (.swap _ _ _)

def insert (map : OrderedMap κ ν) (key : κ) (value : ν) : OrderedMap κ ν :=
  ⟨insertEntry key value map.entries, insertEntry_sorted map.sorted⟩

def get (map : OrderedMap κ ν) (key : κ) : Option ν :=
  (map.entries.find? fun entry => entry.1 = key).map Prod.snd

def keys (map : OrderedMap κ ν) : List κ := map.entries.map Prod.fst

theorem keys_nodup (map : OrderedMap κ ν) : map.keys.Nodup :=
  map.sorted.imp ne_of_lt

theorem get_eq_some {map : OrderedMap κ ν} {key : κ} {value : ν} :
    map.get key = some value ↔ (key, value) ∈ map.entries := by
  rw [get, Option.map_eq_some_iff]
  constructor
  · rintro ⟨entry, found, rfl⟩
    have member := List.mem_of_find?_eq_some found
    have same := List.find?_some found
    obtain rfl : entry.1 = key := by simpa using same
    exact member
  · intro member
    cases found : map.entries.find? fun entry => entry.1 = key with
    | none =>
        have absent := List.find?_eq_none.mp found (key, value) member
        simp at absent
    | some entry =>
        have inside := List.mem_of_find?_eq_some found
        have same : entry.1 = key := by simpa using List.find?_some found
        have whole : entry = (key, value) :=
          List.inj_on_of_nodup_map map.keys_nodup inside member same
        exact ⟨entry, rfl, by rw [whole]⟩

theorem get_eq_none {map : OrderedMap κ ν} {key : κ} :
    map.get key = none ↔ key ∉ map.keys := by
  rw [get, Option.map_eq_none_iff, List.find?_eq_none, keys, List.mem_map]
  constructor
  · rintro absent ⟨entry, member, same⟩
    exact absent entry member (by simpa using same)
  · intro absent entry member same
    exact absent ⟨entry, member, by simpa using same⟩

/-- A new key adds its entry. -/
theorem insert_perm {map : OrderedMap κ ν} {key : κ} {value : ν}
    (fresh : map.get key = none) :
    (map.insert key value).entries.Perm ((key, value) :: map.entries) :=
  insertEntry_perm (get_eq_none.mp fresh)

end OrderedMap

end Pocketboot
