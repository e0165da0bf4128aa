import Mathlib.Data.List.AList
import Mathlib.Data.List.Perm.Lattice

/-!
# The values of an association list

`AList` keeps one value for each key. What a ledger needs of it is the *list of values* and how
inserting and erasing move values in and out of it, up to order: the lemmas here are the ones an
accounting argument ("every item is in exactly one place") uses.

* `lookup_insert_eq_some`, `lookup_erase_eq_some` — where a value that is found afterwards was before.
-/

namespace AList
variable {α V : Type*} [DecidableEq α]

/-- The values an association list holds, one for each key. -/
def values (m : AList fun _ : α => V) : List V := m.entries.map Sigma.snd

omit [DecidableEq α] in
@[simp] theorem values_empty : values (∅ : AList fun _ : α => V) = [] := rfl

/-- Inserting puts the new value in front of the values of the other keys. -/
theorem values_insert (m : AList fun _ : α => V) (a : α) (v : V) :
    values (m.insert a v) = v :: values (m.erase a) := by
  rw [values, AList.entries_insert]
  rfl

theorem lookup_insert_eq_some {m : AList fun _ : α => V} {a b : α} {v w : V} :
    (m.insert a v).lookup b = some w ↔ b = a ∧ w = v ∨ b ≠ a ∧ m.lookup b = some w := by
  by_cases hab : b = a
  · subst hab
    rw [AList.lookup_insert, Option.some_inj]
    simp [eq_comm]
  · rw [AList.lookup_insert_ne hab]
    simp [hab]

theorem lookup_erase_eq_some {m : AList fun _ : α => V} {a b : α} {w : V} :
    (m.erase a).lookup b = some w ↔ b ≠ a ∧ m.lookup b = some w := by
  by_cases hab : b = a
  · subst hab
    simp
  · rw [AList.lookup_erase_ne hab]
    simp [hab]

theorem erase_of_lookup_eq_none {m : AList fun _ : α => V} {a : α} (h : m.lookup a = none) :
    m.erase a = m := by
  have ha : a ∉ m.entries.keys := by rwa [AList.lookup_eq_none] at h
  exact AList.ext (List.kerase_of_notMem_keys ha)

theorem mem_values {m : AList fun _ : α => V} {v : V} :
    v ∈ values m ↔ ∃ a, m.lookup a = some v := by
  simp only [values, List.mem_map, Sigma.exists]
  constructor
  · rintro ⟨a, w, hmem, rfl⟩
    exact ⟨a, AList.mem_lookup_iff.mpr hmem⟩
  · rintro ⟨a, ha⟩
    exact ⟨a, v, AList.mem_lookup_iff.mp ha, rfl⟩

/-- Erasing a present key takes exactly its value out of the values. -/
theorem values_perm_cons_erase {m : AList fun _ : α => V} {a : α} {v : V}
    (h : m.lookup a = some v) : (values m).Perm (v :: values (m.erase a)) := by
  have ha : a ∈ m.entries.keys := AList.lookup_isSome.mp (by rw [h]; rfl)
  obtain ⟨w, l₁, l₂, -, hm, hk⟩ := List.exists_of_kerase ha
  have hw : w = v := by
    have hmem : (⟨a, w⟩ : Σ _ : α, V) ∈ m.entries := by rw [hm]; simp
    have := AList.mem_lookup_iff.mpr hmem
    rw [h] at this
    exact (Option.some.inj this).symm
  subst hw
  have he : values (m.erase a) = (l₁ ++ l₂).map Sigma.snd := by
    show (List.kerase a m.entries).map Sigma.snd = _
    rw [hk]
  rw [he, values, hm]
  simp only [List.map_append, List.map_cons]
  exact List.perm_middle

theorem values_insert_of_lookup_eq_none {m : AList fun _ : α => V} {a : α} (v : V)
    (h : m.lookup a = none) : values (m.insert a v) = v :: values m := by
  rw [values_insert, erase_of_lookup_eq_none h]

/-- When no value occurs twice, a value determines its key. -/
theorem key_eq_of_values_nodup {m : AList fun _ : α => V} (hn : (values m).Nodup) {a b : α} {v : V}
    (ha : m.lookup a = some v) (hb : m.lookup b = some v) : a = b := by
  by_contra hab
  have hperm := values_perm_cons_erase ha
  have hmem : v ∈ values (m.erase a) := by
    refine mem_values.mpr ⟨b, ?_⟩
    rw [AList.lookup_erase_ne (Ne.symm hab)]
    exact hb
  exact (List.nodup_cons.mp (hperm.nodup hn)).1 hmem

/-- And conversely: when no value belongs to two keys, none occurs twice. -/
theorem values_nodup {m : AList fun _ : α => V}
    (h : ∀ a b v, m.lookup a = some v → m.lookup b = some v → a = b) : (values m).Nodup := by
  refine List.Nodup.map_on ?_ m.nodupKeys.nodup
  rintro ⟨a, v⟩ ha ⟨b, w⟩ hb hvw
  obtain rfl : v = w := hvw
  obtain rfl := h a b v (AList.mem_lookup_iff.mpr ha) (AList.mem_lookup_iff.mpr hb)
  rfl

/-! ## Erasing many keys -/

def eraseAll (keys : List α) (m : AList fun _ : α => V) : AList fun _ : α => V :=
  keys.foldl (fun m a => m.erase a) m

theorem lookup_eraseAll (keys : List α) (m : AList fun _ : α => V) (a : α) :
    (eraseAll keys m).lookup a = if a ∈ keys then none else m.lookup a := by
  induction keys generalizing m with
  | nil => rfl
  | cons k keys ih =>
    rw [eraseAll, List.foldl_cons]
    refine (ih (m.erase k)).trans ?_
    by_cases hak : a = k
    · subst hak
      simp
    · simp [hak, AList.lookup_erase_ne hak]

/-- Erasing more keys makes no difference when those not erased anyway are absent. -/
theorem lookup_eraseAll_iff {keys keys' : List α} (hsub : keys ⊆ keys')
    (m : AList fun _ : α => V) :
    (∀ a, (eraseAll keys m).lookup a = (eraseAll keys' m).lookup a) ↔
      ∀ a ∈ keys', (m.lookup a).isSome → a ∈ keys := by
  simp only [lookup_eraseAll]
  constructor
  · intro h a ha hsome
    by_contra hnot
    have heq := h a
    rw [if_neg hnot, if_pos ha] at heq
    rw [heq] at hsome
    cases hsome
  · intro h a
    by_cases ha : a ∈ keys
    · rw [if_pos ha, if_pos (hsub ha)]
    · rw [if_neg ha]
      split
      · rename_i ha'
        cases hm : m.lookup a with
        | none => rfl
        | some v => exact absurd (h a ha' (by rw [hm]; rfl)) ha
      · rfl

/-- Two lists with the same lookups have the same values. -/
theorem values_perm_of_lookup {m m' : AList fun _ : α => V}
    (h : ∀ a, m.lookup a = m'.lookup a) : (values m).Perm (values m') := by
  refine List.Perm.map _ (List.lookup_ext m.nodupKeys m'.nodupKeys ?_)
  intro a v
  show v ∈ m.lookup a ↔ v ∈ m'.lookup a
  rw [h a]

end AList
