import Mathlib.Tactic.Abel

/-!
# Filtered and changed lists

Taking elements out of a list moves the ones behind them: what stays is found
at its old position less the number of elements taken out before it. A condition
that fewer elements meet is met by a smaller number of them. And changing one
element changes a count by what the element counted and counts.
-/

namespace List

variable {α M β : Type*} {p q : α → Bool} {l l' : List α} {a x : α} {i k n : ℕ} {R : α → α → Prop}
  {P : ℕ → α → Prop} {f : α → α}

/-- **An element that stays** is found at its position less the number of
elements taken out before it. -/
theorem getElem?_filter_not (p : α → Bool) (l : List α) (i : ℕ) (a : α)
    (h : l[i]? = some a) (ha : p a = false) :
    (l.filter fun x => !p x)[i - (l.take i).countP p]? = some a := by
  induction l generalizing i with
  | nil => simp at h
  | cons x l ih =>
    cases i with
    | zero =>
      obtain rfl : x = a := by simpa using h
      simp [ha]
    | succ i =>
      have hstays := ih i (by simpa using h)
      cases hx : p x with
      | true => simpa [hx] using hstays
      | false =>
        have hle : (l.take i).countP p ≤ i :=
          Nat.le_trans countP_le_length (length_take_le i l)
        have hsucc : i + 1 - (l.take i).countP p = i - (l.take i).countP p + 1 := by omega
        simpa [hx, hsucc] using hstays

/-- **A stronger condition counts less**, where some element tells the two apart. -/
theorem countP_lt_countP (h : ∀ a ∈ l, p a → q a) (ha : a ∈ l) (hq : q a = true)
    (hp : p a = false) :
    l.countP p < l.countP q := by
  obtain ⟨l₁, l₂, rfl⟩ := append_of_mem ha
  have hfront : l₁.countP p ≤ l₁.countP q :=
    countP_mono_left fun b hb => h b (mem_append_left _ hb)
  have hback : l₂.countP p ≤ l₂.countP q :=
    countP_mono_left fun b hb => h b (mem_append_right _ (mem_cons_of_mem _ hb))
  simp only [countP_append, countP_cons, hq, hp, if_true, Bool.false_eq_true, if_false]
  omega

/-- **A changed element** counts as what it has become. -/
theorem countP_modify (h : l[i]? = some a) :
    (l.modify i f).countP p + (if p a then 1 else 0) = l.countP p + if p (f a) then 1 else 0 := by
  obtain ⟨hi, rfl⟩ := getElem?_eq_some_iff.mp h
  have hsplit : l.countP p = (l.take i).countP p + ((l.drop (i + 1)).countP p +
      if p l[i] then 1 else 0) := by
    rw [← countP_cons, ← countP_append, ← drop_eq_getElem_cons hi, take_append_drop]
  rw [modify_eq_take_cons_drop hi, countP_append, countP_cons, hsplit]
  omega

/-- An element of a list with one more at its end. -/
theorem mem_snoc : a ∈ l ++ [x] ↔ a ∈ l ∨ a = x := by
  simp

/-- An element of a longer list is one of the shorter or of what follows it. -/
theorem mem_or_mem_drop (h : l <+: l') (hi : i = l.length) (hx : x ∈ l') :
    x ∈ l ∨ x ∈ l'.drop i := by
  obtain ⟨new, rfl⟩ := h
  rw [hi, drop_left]
  exact mem_append.mp hx

theorem Pairwise.snoc (h : l.Pairwise R) (ha : ∀ x ∈ l, R x a) : (l ++ [a]).Pairwise R :=
  pairwise_append.mpr ⟨h, pairwise_singleton _ _, fun x hx _ hy => mem_singleton.mp hy ▸ ha x hx⟩

theorem take_succ_of_getElem? (h : l[n]? = some x) : l.take (n + 1) = l.take n ++ [x] := by
  rw [take_add_one, h]
  rfl

/-- An element of a list without repetitions is not among those before it. -/
theorem Nodup.notMem_take (hl : l.Nodup) (h : l[n]? = some x) : x ∉ l.take n := by
  have hnodup := hl.sublist (take_sublist (n + 1) l)
  rw [take_succ_of_getElem? h, nodup_append] at hnodup
  exact fun hx => hnodup.2.2 x hx x (mem_singleton_self x) rfl

private theorem sum_map_split [AddMonoid M] (f : α → M) (hi : i < l.length) :
    (l.map f).sum = ((l.take i).map f).sum + (f l[i] + ((l.drop (i + 1)).map f).sum) := by
  rw [← sum_cons, ← map_cons, ← drop_eq_getElem_cons hi, ← sum_append, ← map_append,
    take_append_drop]

/-- **A sum over a list with one element replaced**. -/
theorem sum_map_set [AddCommMonoid M] (f : α → M) (h : l[i]? = some a) (b : α) :
    ((l.set i b).map f).sum + f a = (l.map f).sum + f b := by
  obtain ⟨hi, rfl⟩ := getElem?_eq_some_iff.mp h
  rw [set_eq_take_append_cons_drop, if_pos hi, map_append, sum_append, map_cons, sum_cons,
    sum_map_split f hi]
  abel

/-- An element weighs at most what the list does. -/
theorem le_sum_map (f : α → ℕ) (h : l[i]? = some a) : f a ≤ (l.map f).sum := by
  obtain ⟨hi, rfl⟩ := getElem?_eq_some_iff.mp h
  rw [sum_map_split f hi]
  omega

/-- **A condition on the pairs of two lists**, position by position. -/
theorem all_zip_iff {l' : List β} {p : α × β → Bool} : (l.zip l').all p = true ↔
      ∀ (i : ℕ) (a : α) (b : β), l[i]? = some a → l'[i]? = some b → p (a, b) = true := by
  rw [all_eq_true]
  refine ⟨fun h i a b ha hb => h (a, b) ?_, fun h x hx => ?_⟩
  · exact mem_of_getElem? (getElem?_zip_eq_some.mpr ⟨ha, hb⟩)
  · obtain ⟨i, hi⟩ := mem_iff_getElem?.mp hx
    obtain ⟨ha, hb⟩ := getElem?_zip_eq_some.mp hi
    exact h i x.1 x.2 ha hb

/-- **A filter by a key is told by the keys it keeps**: two conditions that depend on an
element's key keep the same elements if they keep the same keys. -/
theorem filter_eq_of_map_eq {κ : Type*} (key : α → κ)
    (hp : ∀ a ∈ l, ∀ b ∈ l, key a = key b → p a = p b)
    (hq : ∀ a ∈ l, ∀ b ∈ l, key a = key b → q a = q b)
    (h : (l.filter p).map key = (l.filter q).map key) : l.filter p = l.filter q := by
  have hkept : ∀ {r : α → Bool}, (∀ a ∈ l, ∀ b ∈ l, key a = key b → r a = r b) → ∀ a ∈ l,
      (r a = true ↔ key a ∈ (l.filter r).map key) := by
    intro r hr a ha
    refine ⟨fun hra => mem_map_of_mem (mem_filter.mpr ⟨ha, hra⟩), fun hmem => ?_⟩
    obtain ⟨b, hb, hkey⟩ := mem_map.mp hmem
    obtain ⟨hb, hrb⟩ := mem_filter.mp hb
    rw [← hr b hb a ha hkey]
    exact hrb
  refine filter_congr fun a ha => ?_
  rw [Bool.eq_iff_iff, hkept hp a ha, hkept hq a ha, h]

/-- Two filters of one list are one where the conditions agree on it. -/
theorem filter_eq_filter_iff : l.filter p = l.filter q ↔ ∀ a ∈ l, p a = q a := by
  refine ⟨fun h a ha => ?_, filter_congr⟩
  have hmem : a ∈ l.filter p ↔ a ∈ l.filter q := by rw [h]
  simp only [mem_filter, ha, true_and] at hmem
  exact Bool.eq_iff_iff.mpr hmem

/-- A list that another one agrees with at all its places begins it. -/
theorem prefix_of_getElem? (h : ∀ i < l.length, l'[i]? = l[i]?) : l <+: l' := by
  rw [prefix_iff_eq_take]
  refine ext_getElem? fun i => ?_
  rw [getElem?_take]
  split
  · rename_i hi
    exact (h i hi).symm
  · rename_i hi
    exact getElem?_eq_none (Nat.le_of_not_lt hi)

/-- What a list with one element more has. -/
theorem getElem?_concat_eq_some :
    (l ++ [a])[i]? = some x ↔ l[i]? = some x ∨ i = l.length ∧ x = a := by
  rw [getElem?_append]
  split
  · rename_i hlt
    exact ⟨.inl, fun h => h.resolve_right fun ⟨hlast, _⟩ => by omega⟩
  · rename_i hge
    rw [getElem?_eq_none (Nat.not_lt.mp hge), getElem?_singleton]
    constructor
    · intro h
      split at h <;> cases h
      exact .inr ⟨by omega, rfl⟩
    · rintro (h | ⟨rfl, rfl⟩)
      · cases h
      · simp

theorem getElem?_concat_ne (h : i ≠ l.length) : (l ++ [a])[i]? = l[i]? := by
  grind

/-- What a list with one element changed has. -/
theorem getElem?_set_eq_ite (h : l[k]? = some x) :
    (l.set k a)[i]? = if i = k then some a else l[i]? := by
  split
  · rename_i hi
    rw [hi, getElem?_set_self (getElem?_eq_some_iff.mp h).1]
  · rename_i hi
    exact getElem?_set_ne (Ne.symm hi)

theorem eq_or_of_getElem?_set (h : (l.set k a)[i]? = some x) :
    i = k ∧ x = a ∨ i ≠ k ∧ l[i]? = some x := by
  rw [getElem?_set] at h
  split at h
  · rename_i hk
    split at h <;> cases h
    exact .inl ⟨hk.symm, rfl⟩
  · rename_i hk
    exact .inr ⟨Ne.symm hk, h⟩

/-- Setting one place keeps the elements of the others. -/
theorem mem_set_of_ne (hx : x ∈ l) (hk : l[k]? ≠ some x) : x ∈ l.set k a := by
  obtain ⟨i, hi⟩ := mem_iff_getElem?.mp hx
  refine mem_iff_getElem?.mpr ⟨i, ?_⟩
  rwa [getElem?_set_ne]
  rintro rfl
  exact hk hi

/-- **What holds at every place** holds after one is set, where it holds there. -/
theorem forall_getElem?_set (h : ∀ (i : ℕ) x, l[i]? = some x → P i x) (hk : P k a) (i : ℕ) (x : α)
    (hx : (l.set k a)[i]? = some x) : P i x := by
  rcases eq_or_of_getElem?_set hx with ⟨rfl, rfl⟩ | ⟨-, hx⟩
  · exact hk
  · exact h i x hx

/-- What the element at a place has, it has after one is set that keeps it. -/
theorem exists_getElem?_set {P : α → Prop} (h : ∃ x, l[i]? = some x ∧ P x)
    (hk : ∀ x, l[k]? = some x → P x → P a) : ∃ x, (l.set k a)[i]? = some x ∧ P x := by
  obtain ⟨x, hx, hP⟩ := h
  by_cases hik : k = i
  · subst hik
    exact ⟨a, getElem?_set_self (getElem?_eq_some_iff.mp hx).1, hk x hx hP⟩
  · exact ⟨x, (getElem?_set_ne hik).trans hx, hP⟩

/-- And so where one is added. -/
theorem forall_getElem?_concat (h : ∀ (i : ℕ) x, l[i]? = some x → P i x) (ha : P l.length a) (i : ℕ)
    (x : α) (hx : (l ++ [a])[i]? = some x) : P i x := by
  rcases getElem?_concat_eq_some.mp hx with hx | ⟨rfl, rfl⟩
  · exact h i x hx
  · exact ha

/-- The same where the element is changed by a function. -/
theorem eq_or_of_getElem?_modify (h : (l.modify k f)[i]? = some x) :
    (i = k ∧ ∃ y, l[i]? = some y ∧ x = f y) ∨ i ≠ k ∧ l[i]? = some x := by
  rw [getElem?_modify, Option.map_eq_map, Option.map_eq_some_iff] at h
  obtain ⟨y, hy, rfl⟩ := h
  by_cases hk : k = i
  · exact .inl ⟨hk.symm, y, hy, if_pos hk⟩
  · exact .inr ⟨Ne.symm hk, hy.trans (congrArg some (if_neg hk).symm)⟩

theorem forall_mem_modify {P : α → Prop} (h : ∀ x ∈ l, P x)
    (hf : ∀ x, l[k]? = some x → P x → P (f x)) : ∀ x ∈ l.modify k f, P x := by
  intro x hx
  obtain ⟨i, hi⟩ := mem_iff_getElem?.mp hx
  rcases eq_or_of_getElem?_modify hi with ⟨rfl, y, hy, rfl⟩ | ⟨-, hx⟩
  · exact hf y hy (h y (mem_of_getElem? hy))
  · exact h x (mem_of_getElem? hx)

/-- Two lists of one length whose images agree at each position. -/
theorem map_eq_map_of_getElem? {γ : Type*} {l' : List β} {f : α → γ} {g : β → γ}
    (hlength : l.length = l'.length)
    (h : ∀ (i : ℕ) (a : α) (b : β), l[i]? = some a → l'[i]? = some b → f a = g b) :
    l.map f = l'.map g := by
  refine ext_getElem (by rw [length_map, length_map, hlength]) fun i hi hi' => ?_
  rw [length_map] at hi hi'
  rw [getElem_map, getElem_map]
  exact h i _ _ (getElem?_eq_getElem hi) (getElem?_eq_getElem hi')

/-- **The first element found in a sorted list** comes before every other that meets the
condition. -/
theorem Pairwise.rel_of_find? {b : α} (hl : l.Pairwise R) (ha : l.find? p = some a) (hb : b ∈ l)
    (hpb : p b = true) : a = b ∨ R a b := by
  obtain ⟨-, front, back, rfl, hfront⟩ := find?_eq_some_iff_append.mp ha
  rcases mem_append.mp hb with hb | hb
  · have hnot := hfront b hb
    rw [hpb] at hnot
    cases hnot
  · rcases mem_cons.mp hb with hb | hb
    · exact .inl hb.symm
    · exact .inr (rel_of_pairwise_cons (pairwise_append.mp hl).2.1 hb)

/-- **What is found does not depend on the order** if one element at most can be. -/
theorem Perm.find?_eq_of_unique (h : l.Perm l')
    (hunique : ∀ a ∈ l, ∀ b ∈ l, p a = true → p b = true → a = b) : l.find? p = l'.find? p := by
  cases hfound : l.find? p with
  | none =>
    rw [find?_eq_none] at hfound
    exact (find?_eq_none.mpr fun a ha => hfound a (h.mem_iff.mpr ha)).symm
  | some a =>
    cases hfound' : l'.find? p with
    | none =>
      rw [find?_eq_none] at hfound'
      exact absurd (find?_some hfound) (hfound' a (h.mem_iff.mp (mem_of_find?_eq_some hfound)))
    | some b =>
      rw [hunique a (mem_of_find?_eq_some hfound) b (h.mem_iff.mpr (mem_of_find?_eq_some hfound'))
        (find?_some hfound) (find?_some hfound')]

end List
