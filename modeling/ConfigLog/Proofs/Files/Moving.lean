import ConfigLog.Proofs.Files.Sound

set_option autoImplicit false

/-! # Moving files

In a sound store nothing is below a file, and nothing is below a free place. Moving a file to a free
place therefore concerns its own entry only (`node?_moved`), and no file changes. That is all that
comes of it, unless it is turned down (`rename_cases`).
-/

namespace ConfigLog.Files.Store

variable {f g : Store} {p q r : Place} {i j : Nat} {path target : String}

/-- What is below an entry, or is the entry itself, has the entry above it. -/
theorem Sound.node?_of_suffix (hf : f.Sound) (h : f.node? r = some i) (hsuffix : q <:+ r) :
    ∃ j, f.node? q = some j := by
  obtain ⟨above, rfl⟩ := hsuffix
  by_cases ha : above = []
  · subst ha
    exact ⟨i, h⟩
  · obtain ⟨j, hj, -⟩ := hf.above h ha
    exact ⟨j, hj⟩

theorem node?_of_mem {e : Place × Nat} (h : e ∈ f.names) : ∃ i, f.node? e.1 = some i := by
  unfold node?
  split
  · exact ⟨0, rfl⟩
  · cases hl : f.names.lookup e.1 with
    | some i => exact ⟨i, rfl⟩
    | none => exact absurd (List.lookup_eq_none_iff.1 hl e h) (by simp)

/-- The store with a file moved from one place to another. -/
def moved (f : Store) (p q : Place) : Store :=
  { f with names := f.names.map fun e => if e.1 = p then (q, e.2) else e }

theorem lookup_cons_eq_ite (o : Place) (i : Nat) (names : List (Place × Nat)) (r : Place) :
    ((o, i) :: names).lookup r = if r = o then some i else names.lookup r := by
  by_cases h : r = o
  · simp [h]
  · simp [List.lookup_cons, h, beq_eq_false_iff_ne.2 h]

theorem lookup_map_moved {names : List (Place × Nat)} (hq : names.lookup q = none) (r : Place) :
    (names.map fun e => if e.1 = p then (q, e.2) else e).lookup r
      = if r = q then names.lookup p else if r = p then none else names.lookup r := by
  induction names with
  | nil => simp
  | cons e names ih =>
      obtain ⟨o, i⟩ := e
      rw [lookup_cons_eq_ite] at hq
      have hne : q ≠ o := fun h => by simp [h] at hq
      have ih := ih (by simpa [hne] using hq)
      -- the first entry is the one to be moved, the one that is looked up, or neither
      rw [lookup_cons_eq_ite, lookup_cons_eq_ite, List.map_cons]
      by_cases ho : o = p
      · subst ho
        rw [if_pos rfl, lookup_cons_eq_ite, ih]
        by_cases hr : r = q <;> by_cases hro : r = o <;> simp_all
      · rw [if_neg ho, lookup_cons_eq_ite, ih]
        by_cases hr : r = q
        · simp [hr, hne, Ne.symm ho]
        · by_cases hro : r = o <;> simp [hr, hro, ho, hne.symm]

section

variable {bytes : ByteArray}

theorem HasFile.ne_nil (hf : f.Sound) (hp : f.HasFile p i bytes) : p ≠ [] := by
  rintro rfl
  obtain rfl := Option.some.inj hp.1
  exact absurd ((isDirectory_of_bytes? hp.2).symm.trans hf.root) nofun

/-- Nothing is below a file. -/
theorem HasFile.eq_of_suffix (hf : f.Sound) (hp : f.HasFile p i bytes) (h : f.node? r = some j)
    (hsuffix : p <:+ r) : r = p := by
  obtain ⟨above, rfl⟩ := hsuffix
  by_cases ha : above = []
  · rw [ha, List.nil_append]
  · obtain ⟨k, hk, hd⟩ := hf.above h ha
    obtain rfl := Option.some.inj (hk.symm.trans hp.1)
    exact absurd ((isDirectory_of_bytes? hp.2).symm.trans hd) nofun

theorem node?_moved (hf : f.Sound) (hp : f.HasFile p i bytes) (hq : f.node? q = none) (r : Place) :
    (f.moved p q).node? r = if r = q then some i else if r = p then none else f.node? r := by
  have hpn := hp.ne_nil hf
  have hqn : q ≠ [] := by
    rintro rfl
    cases hq
  have hlookup := hq
  rw [node?, if_neg (by simpa using hqn)] at hlookup
  have hplace := hp.1
  rw [node?, if_neg (by simpa using hpn)] at hplace
  by_cases hr : r = []
  · subst hr
    simp [node?, Ne.symm hqn, Ne.symm hpn]
  · have hempty : r.isEmpty = false := by simpa using hr
    simp only [node?, hempty, Bool.false_eq_true, if_false]
    rw [moved, lookup_map_moved hlookup, hplace]

/-- Making room in a free place and giving it to a file concerns no other entry. -/
theorem relocate_erase (hf : f.Sound) (hp : f.HasFile p i bytes) (hq : f.node? q = none) :
    (f.erase q).relocate p q = f.moved p q := by
  -- nothing is below a free place, so there is nothing to make room for
  have herase : f.erase q = f := by
    have hkept : f.names.filter (fun e => !q.isSuffixOf e.1) = f.names := by
      refine List.filter_eq_self.2 fun e he => ?_
      obtain ⟨j, hj⟩ := node?_of_mem he
      rw [Bool.not_eq_true', Bool.eq_false_iff]
      intro hsuffix
      obtain ⟨k, hk⟩ := hf.node?_of_suffix hj (List.isSuffixOf_iff_suffix.1 hsuffix)
      cases hk.symm.trans hq
    rw [erase, hkept]
  rw [herase, relocate, moved]
  congr 1
  -- nothing is below a file, so its own entry is the only one to be moved
  refine List.map_congr_left fun e he => ?_
  obtain ⟨j, hj⟩ := node?_of_mem he
  by_cases h : e.1 = p
  · simp [h]
  · have hsuffix : p.isSuffixOf e.1 = false := by
      rw [Bool.eq_false_iff]
      exact fun hs => h (hp.eq_of_suffix hf hj (List.isSuffixOf_iff_suffix.1 hs))
    simp [h, hsuffix]

theorem grows_moved (hf : f.Sound) (hp : f.HasFile p i bytes) (hq : f.node? q = none) :
    Grows f (f.moved p q) := by
  refine ⟨rfl, fun r ⟨j, hj, hd⟩ => ⟨j, ?_, hd⟩⟩
  have hrq : r ≠ q := by
    rintro rfl
    cases hj.symm.trans hq
  have hrp : r ≠ p := by
    rintro rfl
    obtain rfl := Option.some.inj (hj.symm.trans hp.1)
    exact absurd ((isDirectory_of_bytes? hp.2).symm.trans hd) nofun
  rw [node?_moved hf hp hq, if_neg hrq, if_neg hrp, hj]

theorem Sound.moved (hf : f.Sound) (hp : f.HasFile p i bytes) (hq : f.node? q = none)
    (hparent : f.HasDirectory q.tail) : (f.moved p q).Sound := by
  have hgrows := grows_moved hf hp hq
  constructor
  case root => exact hf.root
  case working => exact hgrows.2 _ hf.working
  case parent =>
    intro r j hj
    rw [node?_moved hf hp hq] at hj
    split at hj
    next hr => exact hr ▸ hgrows.2 _ hparent
    · split at hj
      · cases hj
      · exact hgrows.2 _ (hf.parent r j hj)
  case single =>
    intro r r' j hj hj'
    rw [node?_moved hf hp hq] at hj hj'
    -- the entry that has been moved is the only one for its node
    have honly : ∀ o, o ≠ p → f.node? o ≠ some i := fun o ho h => ho (hf.single o p i h hp.1)
    split at hj <;> split at hj'
    next hr hr' => rw [hr, hr']
    · split at hj'
      · cases hj'
      next hr => exact absurd (Option.some.inj hj ▸ hj') (honly r' hr)
    · split at hj
      · cases hj
      next hr => exact absurd (Option.some.inj hj' ▸ hj) (honly r hr)
    · split at hj <;> split at hj'
      · cases hj
      · cases hj
      · cases hj'
      · exact hf.single r r' j hj hj'
  case lt =>
    intro r j hj
    rw [node?_moved hf hp hq] at hj
    split at hj
    · exact Option.some.inj hj ▸ hf.lt p i hp.1
    · split at hj
      · cases hj
      · exact hf.lt r j hj

end

theorem find_eq_ok (hplace : f.place path = .ok p) (h : f.find path = .ok i) :
    f.node? p = some i := by
  simp only [find, hplace, bind, Except.bind] at h
  split at h
  · cases h
  next j hj =>
      split at h
      · cases h
      · rw [hj, Except.ok.inj h]

/-- Moving the file under a path to a free place: it is turned down, or its entry is moved. -/
theorem rename_cases (hf : f.Sound) (hplace : f.place path = .ok p)
    (hfile : ∀ i, f.node? p = some i → f.isDirectory i = false)
    (hfree : ∀ q, f.place target = .ok q → f.node? q = none) :
    (∃ e, f.rename path target = (f, .error e)) ∨
    ∃ i bytes q g, f.rename path target = (g, .ok ()) ∧ f.HasFile p i bytes ∧
      f.place target = .ok q ∧ f.node? q = none ∧ wantsDirectory target = false ∧
      Alike (f.moved p q) g := by
  unfold rename
  cases hfind : f.find path with
  | error e => exact .inl ⟨e, rfl⟩
  | ok i =>
      have hi := find_eq_ok hplace hfind
      have hd := hfile i hi
      obtain ⟨bytes, hp⟩ := hf.bytes_of_file hi hd
      simp only [hplace, bind, Except.bind]
      cases htarget : f.place target with
      | error e => exact .inl ⟨e, rfl⟩
      | ok q =>
          -- the place is free, so what remains are the reasons for turning a free place down
          have hq := hfree q htarget
          simp only [hd, hq, mayMove, Bool.not_false, Bool.and_true]
          cases hw : wantsDirectory target with
          | true => exact .inl ⟨.notDirectory, rfl⟩
          | false =>
              cases hworking : p.isSuffixOf f.working with
              | true => exact .inl ⟨.invalidMove, rfl⟩
              | false =>
                  cases hbelow : p.isSuffixOf q with
                  | true => exact .inl ⟨.invalidMove, rfl⟩
                  | false =>
                      refine .inr ⟨i, bytes, q, _, rfl, hp, rfl, hq, rfl, ?_⟩
                      rw [relocate_erase hf hp hq]
                      exact (alike_notify _ p .modified).trans (alike_notify _ q .modified)

end ConfigLog.Files.Store
