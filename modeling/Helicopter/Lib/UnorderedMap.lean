import Mathlib.Data.List.AList

/-! Finite maps with the operations of `std::unordered_map`: `insert` keeps an entry that is
there, `erase` and `find` go by key. The order of `values` means nothing. -/

abbrev UnorderedMap (κ ν : Type*) := AList (fun _ : κ => ν)

namespace UnorderedMap
variable {κ ν : Type*} [DecidableEq κ]

def find (m : UnorderedMap κ ν) (k : κ) : Option ν := AList.lookup k m

/-- `insert({k, v})`: an entry under `k` is not replaced. -/
def insertNew (m : UnorderedMap κ ν) (k : κ) (v : ν) : UnorderedMap κ ν :=
  if k ∈ m then m else AList.insert k v m

def eraseKey (m : UnorderedMap κ ν) (k : κ) : UnorderedMap κ ν := AList.erase k m

omit [DecidableEq κ] in
def values (m : UnorderedMap κ ν) : List ν := m.entries.map Sigma.snd

omit [DecidableEq κ] in
def isEmpty (m : UnorderedMap κ ν) : Bool := m.entries.isEmpty

omit [DecidableEq κ] in
def size (m : UnorderedMap κ ν) : Nat := m.entries.length

@[simp] theorem find_empty (k : κ) : find (∅ : UnorderedMap κ ν) k = none := AList.lookup_empty k

theorem find_insertNew (m : UnorderedMap κ ν) (k k' : κ) (v : ν) :
    (m.insertNew k v).find k' = (m.find k').or (if k' = k then some v else none) := by
  unfold insertNew find
  by_cases hk : k ∈ m
  · rw [if_pos hk]
    by_cases he : k' = k
    · subst he
      obtain ⟨u, hu⟩ := Option.isSome_iff_exists.mp (AList.lookup_isSome.mpr hk)
      simp [hu]
    · simp [he]
  · rw [if_neg hk]
    by_cases he : k' = k
    · subst he
      simp [AList.lookup_eq_none.mpr hk]
    · simp [AList.lookup_insert_ne he, he]

theorem find_insertNew_self {m : UnorderedMap κ ν} {k : κ} (v : ν) (h : m.find k = none) :
    (m.insertNew k v).find k = some v := by
  simp [find_insertNew, h]

theorem find_insertNew_of_some {m : UnorderedMap κ ν} {k k' : κ} {u : ν} (v : ν)
    (h : m.find k' = some u) : (m.insertNew k v).find k' = some u := by
  simp [find_insertNew, h]

theorem find_insertNew_ne {m : UnorderedMap κ ν} {k k' : κ} (v : ν) (h : k' ≠ k) :
    (m.insertNew k v).find k' = m.find k' := by
  simp [find_insertNew, h]

theorem find_eraseKey (m : UnorderedMap κ ν) (k k' : κ) :
    (m.eraseKey k).find k' = if k' = k then none else m.find k' := by
  unfold eraseKey find
  split
  · next h => rw [h, AList.lookup_erase]
  · next h => rw [AList.lookup_erase_ne h]

theorem size_insertNew {m : UnorderedMap κ ν} {k : κ} (v : ν) (h : m.find k = none) :
    (m.insertNew k v).size = m.size + 1 := by
  have hk : k ∉ m := AList.lookup_eq_none.mp h
  rw [insertNew, if_neg hk]
  simp only [size, AList.entries_insert_of_notMem hk, List.length_cons]

theorem size_eraseKey_le (m : UnorderedMap κ ν) (k : κ) : (m.eraseKey k).size ≤ m.size :=
  (List.kerase_sublist k m.entries).length_le

theorem size_eraseKey {m : UnorderedMap κ ν} {k : κ} {v : ν} (h : m.find k = some v) :
    (m.eraseKey k).size + 1 = m.size := by
  have hk : k ∈ m.entries.keys := AList.lookup_isSome.mp (by rw [← find, h]; rfl)
  obtain ⟨w, before, after, -, hall, hrest⟩ := List.exists_of_kerase hk
  have hsize : (m.eraseKey k).size = (before ++ after).length := congrArg List.length hrest
  rw [hsize, size, hall]
  simp only [List.length_append, List.length_cons]
  omega

theorem mem_values {m : UnorderedMap κ ν} {v : ν} : v ∈ m.values ↔ ∃ k, m.find k = some v := by
  simp only [values, find, List.mem_map, ← Option.mem_def, AList.mem_lookup_iff]
  constructor
  · rintro ⟨⟨k, u⟩, he, rfl⟩
    exact ⟨k, he⟩
  · rintro ⟨k, he⟩
    exact ⟨⟨k, v⟩, he, rfl⟩

theorem nodup_values {m : UnorderedMap κ ν}
    (h : ∀ k k' v, m.find k = some v → m.find k' = some v → k = k') : m.values.Nodup := by
  refine List.Nodup.map_on ?_ m.nodupKeys.nodup
  rintro ⟨k, v⟩ hk ⟨k', v'⟩ hk' rfl
  have he := h k k' v (AList.mem_lookup_iff.mpr hk) (AList.mem_lookup_iff.mpr hk')
  rw [he]

theorem isEmpty_iff {m : UnorderedMap κ ν} : m.isEmpty = true ↔ ∀ k, m.find k = none := by
  unfold isEmpty
  rw [List.isEmpty_iff]
  constructor
  · intro h k
    have hm : m = ∅ := AList.ext h
    rw [hm, find_empty]
  · intro h
    by_contra hne
    obtain ⟨⟨k, v⟩, he⟩ := List.exists_mem_of_ne_nil _ hne
    have hk : m.find k = some v := AList.mem_lookup_iff.mpr he
    rw [h k] at hk
    cases hk

end UnorderedMap
