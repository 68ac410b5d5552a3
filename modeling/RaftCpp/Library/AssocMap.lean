import Mathlib.Data.Finset.Card
import Mathlib.Data.List.AList

/-!
# Maps with unique keys

An association list with unique keys is `AList`. This adds the map over its values, which leaves the
keys alone, the value of a key as an entry, and the keys whose values satisfy a condition.
-/

namespace AList

universe u v w

variable {κ : Type u} {α : Type v} {β : Type w}

/-- Apply a function to every key and value, keeping the keys. -/
def mapVal (f : κ → α → β) (m : AList fun _ : κ => α) : AList fun _ : κ => β where
  entries := m.entries.map fun e => ⟨e.1, f e.1 e.2⟩
  nodupKeys := by
    have h := m.nodupKeys
    unfold List.NodupKeys List.keys at h ⊢
    rwa [List.map_map]

/-- The keys of the mapped list are the keys. -/
@[simp] theorem keys_mapVal (f : κ → α → β) (m : AList fun _ : κ => α) :
    (m.mapVal f).keys = m.keys := by
  simp [keys, mapVal, List.keys]

/-- Mapping the values keeps the membership of the keys. -/
@[simp] theorem mem_mapVal (f : κ → α → β) (m : AList fun _ : κ => α) (k : κ) :
    k ∈ m.mapVal f ↔ k ∈ m := by
  rw [mem_keys, keys_mapVal, ← mem_keys]

variable [DecidableEq κ]

/-- Looking up a mapped value. -/
@[simp] theorem lookup_mapVal (f : κ → α → β) (m : AList fun _ : κ => α) (k : κ) :
    (m.mapVal f).lookup k = (m.lookup k).map (f k) := by
  obtain ⟨l, hl⟩ := m
  simp only [mapVal, lookup]
  clear hl
  induction l with
  | nil => rfl
  | cons e l ih =>
    obtain ⟨k', a⟩ := e
    by_cases h : k = k'
    · subst h
      simp
    · have hα := List.dlookup_cons_ne l (⟨k', a⟩ : Sigma fun _ : κ => α) h
      have hβ := List.dlookup_cons_ne (l.map fun e => (⟨e.1, f e.1 e.2⟩ : Sigma fun _ : κ => β))
        (⟨k', f k' a⟩ : Sigma fun _ : κ => β) h
      rw [List.map_cons, hα, hβ]
      exact ih

/-- The entries, in their order, make the list. -/
theorem toAList_entries (m : AList fun _ : κ => α) : m.entries.toAList = m := by
  obtain ⟨l, hl⟩ := m
  induction l with
  | nil => rfl
  | cons e l ih =>
    have htail : l.toAList = ⟨l, List.nodupKeys_of_nodupKeys_cons hl⟩ := ih _
    calc (e :: l).toAList = insert e.1 e.2 l.toAList := toAList_cons e.1 e.2 l
      _ = insert e.1 e.2 ⟨l, List.nodupKeys_of_nodupKeys_cons hl⟩ := by rw [htail]
      _ = ⟨e :: l, hl⟩ := (mk_cons_eq_insert e l hl).symm

/-- A pair of the entries is a value looked up by its key. -/
theorem lookup_eq_some_iff_mem {m : AList fun _ : κ => α} {k : κ} {a : α} :
    m.lookup k = some a ↔ (⟨k, a⟩ : Sigma fun _ : κ => α) ∈ m.entries := by
  rw [← mem_lookup_iff, Option.mem_def]

/-- Looking up after an insertion. -/
theorem lookup_insert_eq (m : AList fun _ : κ => α) (k k' : κ) (a : α) :
    (m.insert k a).lookup k' = if k' = k then some a else m.lookup k' := by
  split
  · next h => rw [h, lookup_insert]
  · next h => exact lookup_insert_ne h

/-- The keys of the entries that satisfy a condition. -/
def keysWhere (m : AList fun _ : κ => α) (p : κ → α → Bool) : Finset κ :=
  ((m.entries.filter fun e => p e.1 e.2).map Sigma.fst).toFinset

/-- There are as many of these keys as entries. -/
theorem card_keysWhere (m : AList fun _ : κ => α) (p : κ → α → Bool) :
    (m.keysWhere p).card = m.entries.countP fun e => p e.1 e.2 := by
  have hnodup : ((m.entries.filter fun e => p e.1 e.2).map Sigma.fst).Nodup :=
    m.nodupKeys.sublist List.filter_sublist
  rw [keysWhere, List.toFinset_card_of_nodup hnodup, List.length_map, List.countP_eq_length_filter]

/-- A key is one of them when its value satisfies the condition. -/
theorem mem_keysWhere {m : AList fun _ : κ => α} {p : κ → α → Bool} {k : κ} :
    k ∈ m.keysWhere p ↔ ∃ a, m.lookup k = some a ∧ p k a = true := by
  unfold keysWhere
  rw [List.mem_toFinset, List.mem_map]
  constructor
  · rintro ⟨e, he, rfl⟩
    rw [List.mem_filter] at he
    exact ⟨e.2, lookup_eq_some_iff_mem.mpr he.1, he.2⟩
  · rintro ⟨a, hlook, hp⟩
    exact ⟨⟨k, a⟩, List.mem_filter.mpr ⟨lookup_eq_some_iff_mem.mp hlook, hp⟩, rfl⟩

/-- The keys whose values satisfy a condition, as many as there are such entries. -/
theorem exists_finset_card (m : AList fun _ : κ => α) (p : α → Bool) :
    ∃ T : Finset κ, T.card = m.entries.countP (fun e => p e.2) ∧
      ∀ k ∈ T, ∃ a, m.lookup k = some a ∧ p a = true :=
  ⟨m.keysWhere fun _ a => p a, m.card_keysWhere _, fun _ hk => mem_keysWhere.mp hk⟩

/-- Where every entry that satisfies one condition has an entry of its key that satisfies another, there
are at least as many of the latter. -/
theorem countP_le_countP {m m' : AList fun _ : κ => α} (p p' : κ → α → Bool)
    (h : ∀ k a, m.lookup k = some a → p k a = true → ∃ a', m'.lookup k = some a' ∧ p' k a' = true) :
    m.entries.countP (fun e => p e.1 e.2) ≤ m'.entries.countP fun e => p' e.1 e.2 := by
  rw [← m.card_keysWhere, ← m'.card_keysWhere]
  apply Finset.card_le_card
  intro k hk
  obtain ⟨a, hlook, hp⟩ := mem_keysWhere.mp hk
  exact mem_keysWhere.mpr (h k a hlook hp)

end AList
