/-!
# Dictionaries

`Dict α β` is a finite map from `α` to `β`, kept as the list `entries` of its pairs in
strictly increasing order of the keys. The order is part of the type, so two
dictionaries with the same values at all keys are equal (`Dict.ext_get?`), and a listing
of the entries is a listing in key order. `get?` looks a key up, `insert` and `erase`
change one key, and `get?_insert` and `get?_erase` say how.
-/

namespace CertKeeper

open Std (TransOrd LawfulEqOrd OrientedCmp TransCmp ReflCmp LawfulEqCmp)

/-- A finite map whose entries are listed in strictly increasing order of the keys. -/
structure Dict (α β : Type) [Ord α] where
  entries : List (α × β)
  sorted : entries.Pairwise (fun a b => compare a.1 b.1 = .lt)

namespace Dict

variable {α β γ : Type} [Ord α]

/-- The value of the first entry at `k`. -/
def find? (k : α) : List (α × β) → Option β
  | [] => none
  | (k', v) :: rest => if compare k k' = .eq then some v else find? k rest

/-- The entries with `v` at `k`, in place of the former entry at `k` if there is one. -/
def put (k : α) (v : β) : List (α × β) → List (α × β)
  | [] => [(k, v)]
  | (k', v') :: rest =>
    match compare k k' with
    | .lt => (k, v) :: (k', v') :: rest
    | .eq => (k, v) :: rest
    | .gt => (k', v') :: put k v rest

theorem mem_put {k : α} {v : β} {l : List (α × β)} {p : α × β} (h : p ∈ put k v l) :
  p = (k, v) ∨ p ∈ l
  := by
  induction l with
  | nil => simpa [put] using h
  | cons q rest ih =>
    obtain ⟨k', v'⟩ := q
    simp only [put] at h
    split at h <;> grind

variable [TransOrd α]

theorem pairwise_put {l : List (α × β)} (k : α) (v : β)
    (h : l.Pairwise (fun a b => compare a.1 b.1 = .lt)) :
  (put k v l).Pairwise (fun a b => compare a.1 b.1 = .lt)
  := by
  induction l with
  | nil => simp [put]
  | cons q rest ih =>
    obtain ⟨k', v'⟩ := q
    rw [List.pairwise_cons] at h
    simp only [put]
    split
    · rename_i hlt
      refine List.pairwise_cons.2 ⟨?_, List.pairwise_cons.2 h⟩
      intro p hp
      rcases List.mem_cons.1 hp with rfl | hp
      · exact hlt
      · exact TransCmp.lt_trans hlt (h.1 p hp)
    · rename_i heq
      refine List.pairwise_cons.2 ⟨?_, h.2⟩
      intro p hp
      exact TransCmp.lt_of_eq_of_lt heq (h.1 p hp)
    · rename_i hgt
      refine List.pairwise_cons.2 ⟨?_, ih h.2⟩
      intro p hp
      rcases mem_put hp with rfl | hp
      · exact OrientedCmp.gt_iff_lt.1 hgt
      · exact h.1 p hp

/-- The dictionary without entries. -/
def empty : Dict α β := ⟨[], .nil⟩

instance : EmptyCollection (Dict α β) := ⟨empty⟩

instance : Inhabited (Dict α β) := ⟨empty⟩

/-- The value at `k`, if there is one. -/
def get? (d : Dict α β) (k : α) : Option β := find? k d.entries

/-- There is a value at `k`. -/
def contains (d : Dict α β) (k : α) : Bool := (d.get? k).isSome

/-- `d` with the value `v` at `k`. -/
def insert (d : Dict α β) (k : α) (v : β) : Dict α β :=
  ⟨put k v d.entries, pairwise_put k v d.sorted⟩

/-- `d` without a value at `k`. -/
def erase (d : Dict α β) (k : α) : Dict α β :=
  ⟨d.entries.filter (fun p => compare k p.1 ≠ .eq), d.sorted.filter _⟩

/-- The dictionary of a list of pairs, in which a later pair wins. -/
def ofList (l : List (α × β)) : Dict α β := l.foldl (fun d p => d.insert p.1 p.2) empty

/-- The entries in key order. -/
def toList (d : Dict α β) : List (α × β) := d.entries

/-- The keys in order. -/
def keys (d : Dict α β) : List α := d.entries.map (·.1)

/-- The dictionary with each value `v` at `k` replaced by `f k v`. -/
def mapValues (f : α → β → γ) (d : Dict α β) : Dict α γ :=
  ⟨d.entries.map (fun p => (p.1, f p.1 p.2)), List.pairwise_map.2 d.sorted⟩

/-- The entries that meet a condition. -/
def filter (f : α → β → Bool) (d : Dict α β) : Dict α β :=
  ⟨d.entries.filter (fun p => f p.1 p.2), d.sorted.filter _⟩

/-- The entries of `d`, and those of `e` at the keys where `d` has none. -/
def union (d e : Dict α β) : Dict α β :=
  d.entries.foldl (fun acc p => acc.insert p.1 p.2) e

instance [DecidableEq α] [DecidableEq β] : DecidableEq (Dict α β) := fun d e =>
  decidable_of_iff (d.entries = e.entries) ⟨fun h => by cases d; cases e; cases h; rfl, fun h => h ▸ rfl⟩

omit [TransOrd α] in
@[simp]
theorem get?_empty (k : α) :
  (empty : Dict α β).get? k = none
  := rfl

theorem find?_put [LawfulEqOrd α] (k k' : α) (v : β) (l : List (α × β)) :
  find? k' (put k v l) = if compare k' k = .eq then some v else find? k' l
  := by
  induction l with
  | nil => simp [put, find?]
  | cons q rest ih =>
    obtain ⟨j, w⟩ := q
    simp only [put]
    split
    · simp [find?]
    · rename_i heq
      obtain rfl := LawfulEqCmp.eq_of_compare heq
      simp only [find?]
      split <;> rfl
    · rename_i hgt
      simp only [find?, ih]
      split
      · rename_i hj
        obtain rfl := LawfulEqCmp.eq_of_compare hj
        rw [if_neg]
        rw [OrientedCmp.gt_iff_lt.1 hgt]
        simp
      · rfl

/-- Insertion sets the value at one key and keeps the others. -/
@[simp]
theorem get?_insert [LawfulEqOrd α] (d : Dict α β) (k k' : α) (v : β) :
  (d.insert k v).get? k' = if compare k' k = .eq then some v else d.get? k'
  := find?_put k k' v d.entries

theorem get?_insert_self [LawfulEqOrd α] (d : Dict α β) (k : α) (v : β) :
  (d.insert k v).get? k = some v
  := by
  simp

theorem get?_insert_of_ne [LawfulEqOrd α] (d : Dict α β) {k k' : α} (v : β) (h : k' ≠ k) :
  (d.insert k v).get? k' = d.get? k'
  := by
  rw [get?_insert, if_neg]
  exact fun hc => h (LawfulEqCmp.eq_of_compare hc)

omit [TransOrd α] in
theorem find?_filter [LawfulEqOrd α] (k k' : α) (l : List (α × β)) :
  find? k' (l.filter (fun p => compare k p.1 ≠ .eq))
    = if compare k k' = .eq then none else find? k' l
  := by
  induction l with
  | nil => simp [find?]
  | cons q rest ih =>
    obtain ⟨j, w⟩ := q
    by_cases hj : compare k j = .eq
    · obtain rfl := LawfulEqCmp.eq_of_compare hj
      by_cases hk : compare k k' = .eq
      · simp_all
      · have : compare k' k ≠ .eq := fun h => hk (LawfulEqCmp.eq_of_compare h ▸ ReflCmp.compare_self)
        simp_all [find?]
    · rw [List.filter_cons_of_pos (by simpa using hj)]
      simp only [find?, ih]
      by_cases hk : compare k' j = .eq
      · obtain rfl := LawfulEqCmp.eq_of_compare hk
        simp [hj]
      · simp [hk]

omit [TransOrd α] in
/-- Erasing removes one key and keeps the others. -/
@[simp]
theorem get?_erase [LawfulEqOrd α] (d : Dict α β) (k k' : α) :
  (d.erase k).get? k' = if compare k k' = .eq then none else d.get? k'
  := find?_filter k k' d.entries

omit [TransOrd α] in
theorem find?_eq_some_of_mem [LawfulEqOrd α] {l : List (α × β)} {k : α} {v : β}
    (hl : l.Pairwise (fun a b => compare a.1 b.1 = .lt)) (h : (k, v) ∈ l) :
  find? k l = some v
  := by
  induction l with
  | nil => cases h
  | cons q rest ih =>
    rw [List.pairwise_cons] at hl
    rcases List.mem_cons.1 h with rfl | h
    · simp [find?]
    · have hlt := hl.1 _ h
      have hne : compare k q.1 ≠ .eq := by
        intro hk
        obtain rfl := LawfulEqCmp.eq_of_compare hk
        simp at hlt
      simp [find?, hne, ih hl.2 h]

omit [TransOrd α] in
theorem mem_of_find?_eq_some [LawfulEqOrd α] {l : List (α × β)} {k : α} {v : β}
    (h : find? k l = some v) :
  (k, v) ∈ l
  := by
  induction l with
  | nil => cases h
  | cons q rest ih =>
    simp only [find?] at h
    split at h
    · rename_i hk
      obtain rfl := LawfulEqCmp.eq_of_compare hk
      obtain rfl := Option.some.inj h
      simp
    · exact List.mem_cons_of_mem _ (ih h)

omit [TransOrd α] in
/-- The entries are the pairs that look-up finds. -/
theorem mem_entries_iff [LawfulEqOrd α] {d : Dict α β} {k : α} {v : β} :
  (k, v) ∈ d.entries ↔ d.get? k = some v
  := ⟨find?_eq_some_of_mem d.sorted, mem_of_find?_eq_some⟩

theorem eq_of_mem_iff [LawfulEqOrd α] {l m : List (α × β)}
    (hl : l.Pairwise (fun a b => compare a.1 b.1 = .lt))
    (hm : m.Pairwise (fun a b => compare a.1 b.1 = .lt)) (h : ∀ p, p ∈ l ↔ p ∈ m) :
  l = m
  := by
  induction l generalizing m with
  | nil =>
    cases m with
    | nil => rfl
    | cons q _ => simpa using h q
  | cons p l ih =>
    cases m with
    | nil => simpa using h p
    | cons q m =>
      rw [List.pairwise_cons] at hl hm
      have hpq : p = q := by
        rcases List.mem_cons.1 ((h p).1 (by simp)) with hp | hp
        · exact hp
        · rcases List.mem_cons.1 ((h q).2 (by simp)) with hq | hq
          · exact hq.symm
          · have := TransCmp.lt_trans (hm.1 p hp) (hl.1 q hq)
            simp at this
      subst hpq
      rw [ih hl.2 hm.2]
      intro r
      have hr := h r
      simp only [List.mem_cons] at hr
      constructor
      · intro hrl
        rcases hr.1 (.inr hrl) with rfl | hrm
        · have := hl.1 _ hrl
          simp at this
        · exact hrm
      · intro hrm
        rcases hr.2 (.inr hrm) with rfl | hrl
        · have := hm.1 _ hrm
          simp at this
        · exact hrl

/-- Two dictionaries with the same value at every key are equal. -/
theorem ext_get? [LawfulEqOrd α] {d e : Dict α β} (h : ∀ k, d.get? k = e.get? k) :
  d = e
  := by
  have : d.entries = e.entries := by
    apply eq_of_mem_iff d.sorted e.sorted
    rintro ⟨k, v⟩
    rw [mem_entries_iff, mem_entries_iff, h k]
  cases d
  cases e
  cases this
  rfl

end Dict

end CertKeeper
