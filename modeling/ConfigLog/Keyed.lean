set_option autoImplicit false

/-! # Entries in the order of their keys

Lists of entries that are ascending by keys, each key once. They serve wherever names lead to
things and are listed in order. Looking a key up after an insertion gives what was inserted under it
(`lookup_insert_self`), and all other keys are left alone (`lookup_insert_of_ne`). Insertion keeps
the order (`pairwise_insert`).
-/

namespace ConfigLog.Keyed

variable {α : Type}

/-- Puts an entry into its place; an entry with the same key is replaced. -/
def insert (key : String) (a : α) : List (String × α) → List (String × α)
  | [] => [(key, a)]
  | (k, b) :: r =>
    if key < k then (key, a) :: (k, b) :: r
    else if k < key then (k, b) :: insert key a r
    else (key, a) :: r

theorem lookup_insert_self (key : String) (a : α) (es : List (String × α)) :
    (insert key a es).lookup key = some a := by
  induction es with
  | nil => simp [insert]
  | cons e r ih =>
    obtain ⟨k, b⟩ := e
    simp only [insert]
    split
    · simp
    · split
      · rename_i hk
        have hne : (key == k) = false := by
          rw [beq_eq_false_iff_ne]
          intro h
          exact String.lt_irrefl k (h ▸ hk)
        simp [List.lookup_cons, hne, ih]
      · simp

theorem lookup_insert_of_ne {key other : String} (h : other ≠ key) (a : α)
    (es : List (String × α)) : (insert key a es).lookup other = es.lookup other := by
  have hne : (other == key) = false := beq_eq_false_iff_ne.2 h
  induction es with
  | nil => simp [insert, List.lookup_cons, hne]
  | cons e r ih =>
    obtain ⟨k, b⟩ := e
    simp only [insert]
    split
    · simp [List.lookup_cons, hne]
    · split
      · simp [List.lookup_cons, ih]
      · rename_i h1 h2
        have hk : key = k := String.le_antisymm h2 h1
        simp [List.lookup_cons, hne, ← hk]

theorem mem_insert {key : String} {a : α} {e : String × α} {es : List (String × α)}
    (h : e ∈ insert key a es) : e = (key, a) ∨ e ∈ es := by
  induction es with
  | nil => exact .inl (by simpa [insert] using h)
  | cons d r ih =>
    obtain ⟨k, b⟩ := d
    simp only [insert] at h
    split at h
    · exact List.mem_cons.1 h
    · split at h
      · rcases List.mem_cons.1 h with h | h
        · exact .inr (by simp [h])
        · exact (ih h).imp id (List.mem_cons_of_mem _)
      · rcases List.mem_cons.1 h with h | h
        · exact .inl h
        · exact .inr (List.mem_cons_of_mem _ h)

theorem pairwise_insert {key : String} {a : α} {es : List (String × α)}
    (h : es.Pairwise fun d e => d.1 < e.1) :
    (insert key a es).Pairwise fun d e => d.1 < e.1 := by
  induction es with
  | nil => simp [insert]
  | cons d r ih =>
    obtain ⟨k, b⟩ := d
    have ⟨hd, hr⟩ := List.pairwise_cons.1 h
    simp only [insert]
    split
    · rename_i hk
      refine List.pairwise_cons.2 ⟨fun e he => ?_, h⟩
      rcases List.mem_cons.1 he with he | he
      · exact he ▸ hk
      · exact String.lt_trans hk (hd e he)
    · split
      · rename_i hk
        refine List.pairwise_cons.2 ⟨fun e he => ?_, ih hr⟩
        rcases mem_insert he with he | he
        · exact he ▸ hk
        · exact hd e he
      · rename_i h1 h2
        have hkey : key = k := String.le_antisymm h2 h1
        exact List.pairwise_cons.2 ⟨fun e he => hkey ▸ hd e he, hr⟩

theorem lookup_of_mem {e : String × α} {es : List (String × α)}
    (h : es.Pairwise fun d e => d.1 < e.1) (he : e ∈ es) : es.lookup e.1 = some e.2 := by
  induction es with
  | nil => cases he
  | cons d r ih =>
    obtain ⟨k, b⟩ := d
    have ⟨hd, hr⟩ := List.pairwise_cons.1 h
    rcases List.mem_cons.1 he with rfl | he
    · simp
    · have hne : (e.1 == k) = false := by
        rw [beq_eq_false_iff_ne]
        intro hk
        exact String.lt_irrefl k (hk ▸ hd e he)
      rw [List.lookup_cons, hne]
      exact ih hr he

/-- The entries of a list in order; of those with the same key the last one counts. -/
def ofList (es : List (String × α)) : List (String × α) :=
  es.foldl (fun done e => insert e.1 e.2 done) []

end ConfigLog.Keyed
