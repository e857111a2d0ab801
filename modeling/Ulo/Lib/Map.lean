import Mathlib.Data.List.AList

/-!
# Association lists as hash maps

The operations of a hash map that `AList` does not have: applying a function
to the values, the two halves of an entry API – insert unless present, and
update or insert –, merging one map into another, and their lookups.
-/

namespace AList

open List

variable {α β γ : Type}

/-- The map with `f` applied to every value. -/
def mapVal (f : β → γ) (m : AList fun _ : α => β) : AList fun _ : α => γ where
  entries := m.entries.map fun e => ⟨e.1, f e.2⟩
  nodupKeys := by
    have h := m.nodupKeys
    unfold List.NodupKeys List.keys at *
    simpa [Function.comp_def] using h

variable [DecidableEq α]

private theorem dlookup_map (f : β → γ) (a : α)
    (l : List (Sigma fun _ : α => β)) :
    List.dlookup a (l.map fun e => (⟨e.1, f e.2⟩ : Sigma fun _ : α => γ)) =
      (List.dlookup a l).map f := by
  induction l with
  | nil => rfl
  | cons e l ih =>
    obtain ⟨a', b⟩ := e
    by_cases h : a = a'
    · subst h
      simp
    · simp [dlookup_cons_ne, h, ih]

@[simp] theorem lookup_mapVal (f : β → γ) (m : AList fun _ : α => β) (a : α) :
    (m.mapVal f).lookup a = (m.lookup a).map f :=
  dlookup_map f a m.entries

/-- `entry(a).or_insert(b)`: inserts unless the key is present. -/
def orInsert (a : α) (b : β) (m : AList fun _ : α => β) : AList fun _ : α => β :=
  if a ∈ m then m else m.insert a b

theorem lookup_orInsert (a a' : α) (b : β) (m : AList fun _ : α => β) :
    (m.orInsert a' b).lookup a =
      if a = a' then some ((m.lookup a).getD b) else m.lookup a := by
  unfold orInsert
  by_cases hmem : a' ∈ m
  · obtain ⟨c, hc⟩ := Option.isSome_iff_exists.mp (lookup_isSome.mpr hmem)
    by_cases h : a = a'
    · subst h; simp [hmem, hc]
    · simp [hmem, h]
  · by_cases h : a = a'
    · subst h; simp [hmem, lookup_eq_none.mpr hmem]
    · simp [hmem, h, lookup_insert_ne]

/-- **Merging a map into another**: where both have a key, `f` combines the
values. -/
theorem lookup_foldl_insert (f : Option γ → β → γ) (m : AList fun _ : α => β)
    (t : AList fun _ : α => γ) (a : α) :
    (m.foldl (fun t a b => t.insert a (f (t.lookup a) b)) t).lookup a =
      match m.lookup a with
      | none => t.lookup a
      | some b => some (f (t.lookup a) b) := by
  obtain ⟨entries, hnodup⟩ := m
  suffices h : ∀ t : AList fun _ : α => γ,
      (entries.foldl (fun t e => t.insert e.1 (f (t.lookup e.1) e.2)) t).lookup a =
        match entries.dlookup a with
        | none => t.lookup a
        | some b => some (f (t.lookup a) b) from h t
  induction entries with
  | nil => exact fun t => rfl
  | cons e entries ih =>
    intro t
    obtain ⟨hnew, hrest⟩ := nodupKeys_cons.mp hnodup
    rw [foldl_cons, ih hrest]
    by_cases ha : e.1 = a
    · subst ha
      rw [dlookup_eq_none.mpr hnew, dlookup_cons_eq]
      exact lookup_insert t
    · rw [lookup_insert_ne (Ne.symm ha)]
      obtain ⟨a', b⟩ := e
      rw [dlookup_cons_ne _ _ (Ne.symm ha)]

/-- The entries that meet a condition. -/
def filter (p : α → β → Bool) (m : AList fun _ : α => β) : AList fun _ : α => β where
  entries := m.entries.filter fun e => p e.1 e.2
  nodupKeys := m.nodupKeys.sublist List.filter_sublist

theorem lookup_filter (p : α → β → Bool) (m : AList fun _ : α => β) (a : α) :
    (m.filter p).lookup a = (m.lookup a).filter (p a) := by
  obtain ⟨entries, hnodup⟩ := m
  show dlookup a (entries.filter fun e => p e.1 e.2) = (dlookup a entries).filter (p a)
  induction entries with
  | nil => rfl
  | cons e entries ih =>
    obtain ⟨hnew, hrest⟩ := nodupKeys_cons.mp hnodup
    obtain ⟨a', b⟩ := e
    by_cases ha : a = a'
    · subst ha
      rw [dlookup_cons_eq, Option.filter_some]
      cases hp : p a b with
      | true => rw [filter_cons, if_pos hp, dlookup_cons_eq, if_pos rfl]
      | false =>
        -- the key is not among the other entries
        rw [filter_cons, if_neg (by simp [hp]), ih hrest, dlookup_eq_none.mpr hnew]
        rfl
    · rw [dlookup_cons_ne _ _ ha]
      cases hp : p a' b with
      | true => rw [filter_cons, if_pos hp, dlookup_cons_ne _ _ ha, ih hrest]
      | false => rw [filter_cons, if_neg (by simp [hp]), ih hrest]

/-- The map without some keys. -/
def eraseAll (m : AList fun _ : α => β) (keys : List α) : AList fun _ : α => β :=
  keys.foldl (fun m a => m.erase a) m

section

variable (m : AList fun _ : α => β) {a : α}
include m

theorem lookup_eraseAll (keys : List α) (a : α) :
    (m.eraseAll keys).lookup a = if a ∈ keys then none else m.lookup a := by
  unfold eraseAll
  induction keys generalizing m with
  | nil => rfl
  | cons key keys ih =>
    rw [foldl_cons, ih]
    by_cases hkey : a = key
    · subst hkey
      simp
    · simp [hkey, lookup_erase_ne hkey]

theorem length_keys_erase (ha : a ∈ m) : (m.erase a).keys.length + 1 = m.keys.length := by
  rw [keys_erase, length_erase_add_one (mem_keys.mp ha)]

theorem length_keys_insert (b : β) (ha : a ∈ m) : (m.insert a b).keys.length = m.keys.length := by
  rw [keys_insert, length_cons, length_erase_add_one (mem_keys.mp ha)]

/-- Different keys of the map, taken out, leave as many fewer. -/
theorem length_keys_eraseAll {keys : List α} (hnodup : keys.Nodup) (hmem : ∀ a ∈ keys, a ∈ m) :
    (m.eraseAll keys).keys.length + keys.length = m.keys.length := by
  unfold eraseAll
  induction keys generalizing m with
  | nil => rfl
  | cons key keys ih =>
    obtain ⟨hkey, hnodup⟩ := nodup_cons.mp hnodup
    have hrest : ∀ a ∈ keys, a ∈ m.erase key := by
      intro a ha
      have hne : a ≠ key := fun h => hkey (h ▸ ha)
      exact mem_erase.mpr ⟨hne, hmem a (mem_cons_of_mem _ ha)⟩
    have hone := m.length_keys_erase (hmem key mem_cons_self)
    have hih := ih (m.erase key) hnodup hrest
    rw [foldl_cons, length_cons]
    omega

/-! ### Lookups by cases -/

theorem lookup_insert_ite (a a' : α) (b : β) :
    (m.insert a b).lookup a' = if a' = a then some b else m.lookup a' := by
  split
  · subst a'
    exact lookup_insert m
  · exact lookup_insert_ne ‹_›

theorem lookup_erase_ite (a a' : α) :
    (m.erase a).lookup a' = if a' = a then none else m.lookup a' := by
  split
  · subst a'
    exact lookup_erase a m
  · exact lookup_erase_ne ‹_›

end

/-! ### Maps inverse to each other -/

section Inverse

variable [DecidableEq γ] {live : γ → β} {m : AList fun _ : γ => α} {m' n' : AList fun _ : α => β}
  {a : α} {c : γ}

/-- **Inverse maps**: where the first has a key, the second has the key's own value, and it has
others. -/
def Inverse (live : γ → β) (m : AList fun _ : γ => α) (m' : AList fun _ : α => β) : Prop :=
  ∀ c a, m.lookup c = some a ↔ m'.lookup a = some (live c)

/-- What a new entry leaves, that of its key before it taken out. -/
theorem lookup_replace (m : AList fun _ : γ => α) (m' : AList fun _ : α => β) (c : γ) (a a' : α)
    (b : β) : (((m.lookup c).elim m' m'.erase).insert a b).lookup a' =
      if a' = a then some b else if m.lookup c = some a' then none else m'.lookup a' := by
  rw [lookup_insert_ite]
  cases m.lookup c with
  | none => simp
  | some => simp [lookup_erase_ite, eq_comm]

theorem Inverse.insert (h : Inverse live m m') (hlive : live.Injective) (hnew : m'.lookup a = none)
    (hn' : ∀ a', n'.lookup a' = if a' = a then some (live c)
      else if m.lookup c = some a' then none else m'.lookup a') : Inverse live
        (m.insert c a) n' := by
  intro c' a'
  have hold := h c' a'
  have hstale := h c a'
  rw [lookup_insert_ite, hn']
  grind [Function.Injective]

/-- A key is taken out, and its value in the second map is left with none. -/
theorem Inverse.erase (h : Inverse live m m') (hlive : live.Injective) (hc : m.lookup c = some a)
    {rest : Option β} (hn' : ∀ a', n'.lookup a' = if a' = a then rest else m'.lookup a')
    (hrest : ∀ c', rest ≠ some (live c')) :
    Inverse live (m.erase c) n' := by
  intro c' a'
  have hold := h c' a'
  have hown := h c a'
  rw [lookup_erase_ite, hn']
  grind [Function.Injective]

/-- A value that no key has is taken out. -/
theorem Inverse.release (h : Inverse live m m') (hnot : ∀ c, m'.lookup a ≠ some (live c))
    (hn' : ∀ a', n'.lookup a' = if a' = a then none else m'.lookup a') : Inverse live m n' := by
  intro c' a'
  have hold := h c' a'
  rw [hn']
  grind

end Inverse

end AList
