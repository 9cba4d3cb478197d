import Mathlib.Algebra.GroupWithZero.Nat
import Mathlib.Data.List.AList

/-!
# GameNet.Lib.KeyedMap

Hash maps as association lists with one entry for each key (Mathlib's `AList`), with the
operations a map with values of one type has over `AList`'s own: `values`, `retain` and `find?`.

The order of the entries stands for the iteration order of a hash map, which no program may rely
on: `Same m m'` says that two maps hold the same entries in any order, and every observation here
is shown to respect it.
-/

abbrev KeyedMap (κ ν : Type) := AList (fun _ : κ => ν)

namespace KeyedMap

variable {κ ν : Type}

def values (m : KeyedMap κ ν) : List ν := m.entries.map fun e => e.2

/-- Keep the entries that satisfy `p`. -/
def retain (p : κ → ν → Bool) (m : KeyedMap κ ν) : KeyedMap κ ν :=
  ⟨m.entries.filter fun e => p e.1 e.2, m.nodupKeys.sublist List.filter_sublist⟩

theorem retain_retain (p q : κ → ν → Bool) (m : KeyedMap κ ν) :
    (m.retain p).retain q = m.retain fun k v => q k v && p k v := by
  simp only [retain, List.filter_filter]

theorem countP_values_eq_keys (m : KeyedMap κ ν) (p : ν → Bool) :
    m.values.countP p = (m.retain fun _ v => p v).keys.length := by
  simp only [values, AList.keys, List.keys, retain, List.length_map, List.countP_map]
  exact List.countP_eq_length_filter

/-- The first entry, in iteration order, that satisfies `p`. -/
def find? (p : κ → ν → Bool) (m : KeyedMap κ ν) : Option (κ × ν) :=
  (m.entries.find? fun e => p e.1 e.2).map fun e => (e.1, e.2)

variable [DecidableEq κ]

theorem mem_entries {m : KeyedMap κ ν} {k : κ} {v : ν} :
    (⟨k, v⟩ : Sigma fun _ : κ => ν) ∈ m.entries ↔ m.lookup k = some v :=
  AList.mem_lookup_iff.symm

theorem mem_values {m : KeyedMap κ ν} {v : ν} : v ∈ m.values ↔ ∃ k, m.lookup k = some v := by
  simp only [values, List.mem_map]
  constructor
  · rintro ⟨⟨k, w⟩, he, rfl⟩; exact ⟨k, mem_entries.mp he⟩
  · rintro ⟨k, hk⟩; exact ⟨⟨k, v⟩, mem_entries.mpr hk, rfl⟩

theorem any_values {m : KeyedMap κ ν} {p : ν → Bool} :
    m.values.any p = true ↔ ∃ k v, m.lookup k = some v ∧ p v = true := by
  simp only [List.any_eq_true, mem_values]
  constructor
  · rintro ⟨v, ⟨k, hk⟩, hp⟩; exact ⟨k, v, hk, hp⟩
  · rintro ⟨k, v, hk, hp⟩; exact ⟨v, ⟨k, hk⟩, hp⟩

theorem any_values_eq_false {m : KeyedMap κ ν} {p : ν → Bool} :
    m.values.any p = false ↔ ∀ k v, m.lookup k = some v → p v = false := by
  rw [← Bool.not_eq_true, any_values]
  constructor
  · intro h k v hk
    cases hp : p v with
    | false => rfl
    | true => exact absurd ⟨k, v, hk, hp⟩ h
  · rintro h ⟨k, v, hk, hp⟩
    rw [h k v hk] at hp; cases hp

@[simp] theorem lookup_retain (p : κ → ν → Bool) (m : KeyedMap κ ν) (k : κ) :
    (m.retain p).lookup k = (m.lookup k).filter (p k) := by
  apply Option.ext
  intro v
  rw [Option.filter_eq_some_iff, ← mem_entries, ← mem_entries]
  simp [retain]

theorem lookup_insert (m : KeyedMap κ ν) (k k' : κ) (v : ν) :
    AList.lookup k' (AList.insert k v m) = if k' = k then some v else m.lookup k' := by
  split
  · subst k'; exact AList.lookup_insert m
  · exact AList.lookup_insert_ne ‹_›

theorem lookup_erase (m : KeyedMap κ ν) (k k' : κ) :
    AList.lookup k' (AList.erase k m) = if k' = k then none else m.lookup k' := by
  split
  · subst k'; exact AList.lookup_erase k m
  · exact AList.lookup_erase_ne ‹_›

theorem lookup_of_erase {m : KeyedMap κ ν} {k k' : κ} {v : ν}
    (h : AList.lookup k' (AList.erase k m) = some v) : m.lookup k' = some v := by
  rw [lookup_erase] at h
  split at h
  · cases h
  · exact h

theorem mem_iff_lookup {m : KeyedMap κ ν} {k : κ} : k ∈ m ↔ ∃ v, m.lookup k = some v := by
  rw [← AList.lookup_isSome, Option.isSome_iff_exists]

theorem find?_eq_some {m : KeyedMap κ ν} {p : κ → ν → Bool} {k : κ} {v : ν}
    (h : m.find? p = some (k, v)) : m.lookup k = some v ∧ p k v = true := by
  simp only [find?, Option.map_eq_some_iff] at h
  obtain ⟨⟨k', v'⟩, hf, he⟩ := h
  obtain ⟨rfl, rfl⟩ := Prod.mk.inj he
  have hp := List.find?_some hf
  exact ⟨mem_entries.mp (List.mem_of_find?_eq_some hf), hp⟩

theorem find?_eq_none {m : KeyedMap κ ν} {p : κ → ν → Bool} :
    m.find? p = none ↔ ∀ k v, m.lookup k = some v → p k v = false := by
  simp only [find?, Option.map_eq_none_iff, List.find?_eq_none, Sigma.forall, mem_entries,
    Bool.not_eq_true]

/-- When at most one entry satisfies `p`, `find?` finds it whatever the iteration order. -/
theorem find?_of_unique {m : KeyedMap κ ν} {p : κ → ν → Bool} {k : κ} {v : ν}
    (hk : m.lookup k = some v) (hp : p k v = true)
    (hu : ∀ k' v', m.lookup k' = some v' → p k' v' = true → k' = k) :
    m.find? p = some (k, v) := by
  cases hf : m.find? p with
  | none => rw [find?_eq_none.mp hf k v hk] at hp; cases hp
  | some e =>
    obtain ⟨k', v'⟩ := e
    obtain ⟨hk', hp'⟩ := find?_eq_some hf
    cases hu k' v' hk' hp'
    rw [hk] at hk'; cases hk'; rfl

/-! ## The same map in another iteration order -/

/-- `m` and `m'` hold the same entries. -/
def Same (m m' : KeyedMap κ ν) : Prop := ∀ k, m.lookup k = m'.lookup k

namespace Same

variable {m m' m'' : KeyedMap κ ν}

theorem refl (m : KeyedMap κ ν) : Same m m := fun _ => rfl

theorem symm (h : Same m m') : Same m' m := fun k => (h k).symm

theorem trans (h : Same m m') (h' : Same m' m'') : Same m m'' := fun k => (h k).trans (h' k)

theorem perm (h : Same m m') : m.entries.Perm m'.entries :=
  List.lookup_ext m.nodupKeys m'.nodupKeys fun k v => by
    show v ∈ m.lookup k ↔ v ∈ m'.lookup k
    rw [h k]

theorem values (h : Same m m') : m.values.Perm m'.values := h.perm.map _

theorem any_values (h : Same m m') (p : ν → Bool) : m.values.any p = m'.values.any p :=
  h.values.any_eq

theorem countP_values (h : Same m m') (p : ν → Bool) : m.values.countP p = m'.values.countP p :=
  h.values.countP_eq p

theorem mem (h : Same m m') (k : κ) : k ∈ m ↔ k ∈ m' := AList.mem_of_perm h.perm

theorem retain (h : Same m m') (p : κ → ν → Bool) : Same (m.retain p) (m'.retain p) := fun k => by
  rw [lookup_retain, lookup_retain, h k]

theorem insert (h : Same m m') (k : κ) (v : ν) : Same (AList.insert k v m) (AList.insert k v m') :=
  fun k' => by rw [lookup_insert, lookup_insert, h k']

theorem erase (h : Same m m') (k : κ) : Same (AList.erase k m) (AList.erase k m') :=
  fun k' => by rw [lookup_erase, lookup_erase, h k']

end Same

/-! ## Counting values -/

theorem countP_values_insert (m : KeyedMap κ ν) (p : ν → Bool) (k : κ) (v : ν) :
    (values (AList.insert k v m)).countP p =
      (values (AList.erase k m)).countP p + if p v = true then 1 else 0 := by
  simp only [values, AList.entries_insert, List.map_cons, List.countP_cons]
  rfl

theorem countP_values_erase_le (m : KeyedMap κ ν) (p : ν → Bool) (k : κ) :
    (values (AList.erase k m)).countP p ≤ m.values.countP p :=
  ((List.kerase_sublist k m.entries).map _).countP_le

/-- An entry counts once. -/
theorem countP_values_erase {m : KeyedMap κ ν} {p : ν → Bool} {k : κ} {v : ν}
    (h : m.lookup k = some v) :
    (values (AList.erase k m)).countP p + (if p v = true then 1 else 0) = m.values.countP p := by
  have hs : Same m (AList.insert k v m) := by
    intro k'
    rw [lookup_insert]
    split
    · subst k'; exact h
    · rfl
  rw [hs.countP_values, countP_values_insert]

/-- When every entry of `m'` that counts has one of `m` at its key that counts, `m'` has no more
of them. -/
theorem countP_values_le {m m' : KeyedMap κ ν} {p : ν → Bool}
    (h : ∀ k v, m'.lookup k = some v → p v = true → ∃ w, m.lookup k = some w ∧ p w = true) :
    m'.values.countP p ≤ m.values.countP p := by
  rw [countP_values_eq_keys, countP_values_eq_keys]
  refine (List.subperm_of_subset (AList.keys_nodup _) ?_).length_le
  intro k hk
  rw [← AList.mem_keys, mem_iff_lookup] at hk ⊢
  obtain ⟨v, hv⟩ := hk
  simp only [lookup_retain, Option.filter_eq_some_iff] at hv ⊢
  exact h k v hv.1 hv.2

/-! ## Adding values up -/

section sum

theorem sum_values_insert (m : KeyedMap κ Nat) (k : κ) (n : Nat) :
    (values (AList.insert k n m)).sum = (values (AList.erase k m)).sum + n := by
  simp only [values, AList.entries_insert, List.map_cons, List.sum_cons]
  exact Nat.add_comm n _

/-- A missing entry counts as zero. -/
theorem sum_values_erase (m : KeyedMap κ Nat) (k : κ) :
    (values (AList.erase k m)).sum + (m.lookup k).getD 0 = m.values.sum := by
  cases h : m.lookup k with
  | none =>
    have hs : Same (AList.erase k m) m := by
      intro k'
      rw [lookup_erase]
      split
      · subst k'; exact h.symm
      · rfl
    exact hs.values.sum_nat
  | some n =>
    have hs : Same m (AList.insert k n m) := by
      intro k'
      rw [lookup_insert]
      split
      · subst k'; exact h
      · rfl
    rw [Option.getD_some, ← sum_values_insert]
    exact hs.values.sum_nat.symm

end sum

end KeyedMap
