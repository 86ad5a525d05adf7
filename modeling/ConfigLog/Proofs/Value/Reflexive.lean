import ConfigLog.Proofs.Logging.Sameness
import ConfigLog.Proofs.Tree.Reading
import ConfigLog.Value.Convert

set_option autoImplicit false

/-! # Kinds whose values are the same as themselves

Not-a-number is the only value that differs from itself. So every value that is read for a kind
without floating-point numbers is the same as itself (`reflexive_of_isExact`).
-/

namespace ConfigLog

namespace Kind

/-- A value that is read for the kind is the same as itself. -/
def Reflexive (k : Kind) : Prop := ∀ node value, k.ofNode node = .ok value →
  value.same value = true

/-- The kind has no floating-point numbers. -/
def isExact : Kind → Bool
  | single | double => false
  | sequence _ k | set _ k | map _ k | option k => k.isExact
  | whole _ | bool | char | string | path | person _ | celsius _ | definitions => true

end Kind

/-! ## Containers -/

namespace Value

theorem sameItems_refl {vs : List Value} (h : ∀ v ∈ vs, v.same v = true) :
    sameItems vs vs = true := by
  induction vs with
  | nil => rfl
  | cons v vs ih =>
      rw [sameItems, h v List.mem_cons_self, ih fun w hw => h w (List.mem_cons_of_mem v hw)]
      rfl

theorem sameEntries_refl {es : List (String × Value)} (h : ∀ e ∈ es, e.2.same e.2 = true) :
    sameEntries es es = true := by
  induction es with
  | nil => rfl
  | cons e es ih =>
      obtain ⟨k, v⟩ := e
      have hv : v.same v = true := h (k, v) List.mem_cons_self
      rw [sameEntries, hv, ih fun e' he' => h e' (List.mem_cons_of_mem (k, v) he')]
      simp

end Value

namespace Container

open Reading

variable {α : Type}

theorem exists_of_readSequence {read : Node → Result α} {n : Node} {as : List α}
    (h : readSequence read n = .ok as) : ∀ a ∈ as, ∃ m, read m = .ok a := by
  obtain ⟨ns, -, h⟩ := bind_eq_ok h
  intro a ha
  obtain ⟨m, -, hm⟩ := exists_of_mem (mapM_eq_ok_iff.1 h) a ha
  exact ⟨m, hm⟩

theorem mem_insertItem {order : α → α → Ordering} {last : Bool} {a b : α} {as : List α}
    (h : b ∈ insertItem order last a as) : b = a ∨ b ∈ as := by
  induction as with
  | nil => exact .inl (by simpa [insertItem] using h)
  | cons c as ih =>
      rw [insertItem] at h
      split at h
      · simpa using h
      · rcases List.mem_cons.1 h with rfl | h
        · cases last
          · exact .inr List.mem_cons_self
          · exact .inl rfl
        · exact .inr (List.mem_cons_of_mem c h)
      · rcases List.mem_cons.1 h with rfl | h
        · exact .inr List.mem_cons_self
        · exact (ih h).imp id (List.mem_cons_of_mem c)

theorem mem_of_mem_toSet {order : α → α → Ordering} {last : Bool} {as : List α} {b : α}
    (h : b ∈ toSet order last as) : b ∈ as := by
  have hfold : ∀ (as done : List α),
      b ∈ as.foldl (fun done a => insertItem order last a done) done → b ∈ as ∨ b ∈ done := by
    intro as
    induction as with
    | nil => exact fun done hb => .inr hb
    | cons a as ih =>
        intro done hb
        rcases ih _ hb with hb | hb
        · exact .inl (List.mem_cons_of_mem a hb)
        · rcases mem_insertItem hb with rfl | hb
          · exact .inl List.mem_cons_self
          · exact .inr hb
  simpa using hfold as [] h

theorem exists_of_readSet {order : α → α → Ordering} {last : Bool} {read : Node → Result α}
    {n : Node} {as : List α} (h : readSet order last read n = .ok as) :
    ∀ a ∈ as, ∃ m, read m = .ok a := by
  obtain ⟨bs, hbs, h⟩ := bind_eq_ok h
  obtain rfl : toSet order last bs = as := Except.ok.inj h
  exact fun a ha => exists_of_readSequence hbs a (mem_of_mem_toSet ha)

theorem mem_of_mem_ofList {es : List (String × α)} {e : String × α} (h : e ∈ Keyed.ofList es) :
    e ∈ es := by
  have hfold : ∀ (es done : List (String × α)),
      e ∈ es.foldl (fun done e => Keyed.insert e.1 e.2 done) done → e ∈ es ∨ e ∈ done := by
    intro es
    induction es with
    | nil => exact fun done he => .inr he
    | cons d es ih =>
        intro done he
        rcases ih _ he with he | he
        · exact .inl (List.mem_cons_of_mem d he)
        · rcases Keyed.mem_insert he with rfl | he
          · exact .inl List.mem_cons_self
          · exact .inr he
  simpa using hfold es [] h

theorem exists_of_readMap {read : Node → Result α} {n : Node} {es : List (String × α)}
    (h : readMap read n = .ok es) : ∀ e ∈ es, ∃ m, read m = .ok e.2 := by
  obtain ⟨ns, -, h⟩ := bind_eq_ok h
  obtain ⟨ds, hds, h⟩ := bind_eq_ok h
  obtain rfl : Keyed.ofList ds = es := Except.ok.inj h
  intro e he
  obtain ⟨d, -, hd⟩ := exists_of_mem (mapM_eq_ok_iff.1 hds) e (mem_of_mem_ofList he)
  obtain ⟨a, ha, hd⟩ := bind_eq_ok hd
  exact ⟨d.2, by rw [ha, ← Except.ok.inj hd]⟩

end Container

/-! ## All kinds -/

namespace Kind

open Container Reading

theorem whole_of_ofText {w : Width} {text : String} {value : Value}
    (h : w.ofText text = .ok value) : ∃ i, value = .whole i := by
  unfold Width.ofText at h
  simp only at h
  split at h
  · rename_i i _
    exact ⟨i, (Except.ok.inj h).symm⟩
  · cases h

theorem whole_of_ofNode {w : Width} {node : Node} {value : Value}
    (h : w.ofNode node = .ok value) : ∃ i, value = .whole i := by
  unfold Width.ofNode at h
  split at h
  · rename_i i
    split at h
    · exact ⟨i, (Except.ok.inj h).symm⟩
    · cases h
  · cases h
  · exact whole_of_ofText h
  · cases h

/-- Every value that is read for a kind without floating-point numbers is the same as itself. -/
theorem reflexive_of_isExact {k : Kind} (hk : k.isExact = true) : k.Reflexive := by
  induction k with
  | whole w =>
      intro node value h
      obtain ⟨i, rfl⟩ := whole_of_ofNode h
      simp [Value.same]
  | single => cases hk
  | double => cases hk
  | bool =>
      intro node value h
      obtain ⟨b, -, rfl⟩ := map_eq_ok h
      simp [Value.same]
  | char =>
      intro node value h
      obtain ⟨c, -, rfl⟩ := map_eq_ok h
      simp [Value.same]
  | string =>
      intro node value h
      obtain rfl := Except.ok.inj h
      simp [Value.same]
  | path =>
      intro node value h
      obtain ⟨p, -, rfl⟩ := map_eq_ok h
      simp [Value.same, Files.Path.same]
  | sequence form k ih =>
      intro node value h
      obtain ⟨vs, hvs, rfl⟩ := map_eq_ok h
      rw [Value.same]
      refine Value.sameItems_refl fun v hv => ?_
      obtain ⟨m, hm⟩ := exists_of_readSequence hvs v hv
      exact ih hk m v hm
  | set arrangement k ih =>
      intro node value h
      obtain ⟨vs, hvs, rfl⟩ := map_eq_ok h
      rw [Value.same]
      refine Value.sameItems_refl fun v hv => ?_
      obtain ⟨m, hm⟩ := exists_of_readSet hvs v hv
      exact ih hk m v hm
  | map arrangement k ih =>
      intro node value h
      obtain ⟨es, hes, rfl⟩ := map_eq_ok h
      rw [Value.same]
      refine Value.sameEntries_refl fun e he => ?_
      obtain ⟨m, hm⟩ := exists_of_readMap hes e he
      exact ih hk m e.2 hm
  | option k ih =>
      intro node value h
      obtain ⟨o, ho, rfl⟩ := map_eq_ok h
      cases o with
      | none => rfl
      | some v =>
          unfold readOption at ho
          split at ho
          · cases ho
          · obtain ⟨w, hw, hv⟩ := map_eq_ok ho
            obtain rfl := Option.some.inj hv
            show Value.same (.some w) (.some w) = true
            rw [Value.same]
            exact ih hk _ w hw
  | person declared =>
      intro node value h
      unfold Kind.ofNode at h
      split at h
      · obtain rfl := Except.ok.inj h
        simp [Value.same]
      · cases h
  | celsius declared =>
      intro node value h
      obtain ⟨d, -, rfl⟩ := map_eq_ok h
      simp [Value.same]
  | definitions =>
      intro node value h
      obtain ⟨ds, -, rfl⟩ := map_eq_ok h
      rw [Value.same]
      exact Logging.Definitions.same_iff.2 rfl

end Kind

end ConfigLog
