import ConfigLog.Proofs.Logging.Sameness
import ConfigLog.Value.Basic

set_option autoImplicit false

/-! # The equality of values

The equality of values is symmetric (`Value.same_comm`) and transitive (`Value.same_trans`), whatever
the values are. So it is an equivalence on all values that are the same as themselves.
-/

namespace ConfigLog

namespace Number

theorem Binary.equal_comm (x y : Binary) : x.equal y = y.equal x := by
  have hfinite : (x == y || (x.isZero && y.isZero)) = (y == x || (y.isZero && x.isZero)) := by
    rw [Bool.beq_comm, Bool.and_comm]
  cases x with
  | nan => cases y <;> rfl
  | infinity p =>
      cases y with
      | nan => rfl
      | _ => exact hfinite
  | finite p m i =>
      cases y with
      | nan => rfl
      | _ => exact hfinite

theorem Binary.equal_trans {x y z : Binary} (h : x.equal y = true) (h' : y.equal z = true) :
    x.equal z = true := by
  cases x <;> cases y <;> cases z <;> simp_all [Binary.equal, Binary.isZero]
  grind

end Number

namespace Logging.Definitions

theorem same_comm (a b : Definitions) : a.same b = b.same a := by
  rw [Bool.eq_iff_iff, same_iff, same_iff, eq_comm]

theorem same_trans {a b c : Definitions} (h : a.same b = true) (h' : b.same c = true) :
    a.same c = true :=
  same_iff.2 ((same_iff.1 h).trans (same_iff.1 h'))

end Logging.Definitions

namespace Files.Path

theorem same_comm (a b : String) : same a b = same b a := by
  rw [Bool.eq_iff_iff, same_iff, same_iff, eq_comm]

theorem same_trans {a b c : String} (h : same a b = true) (h' : same b c = true) :
    same a c = true :=
  same_iff.2 ((same_iff.1 h).trans (same_iff.1 h'))

end Files.Path

namespace Value

/-! ## Symmetry -/

mutual

theorem same_comm (a b : Value) : a.same b = b.same a := by
  -- values of different kinds are never the same
  cases a <;> cases b <;> try rfl
  case single.single x y => exact x.equal_comm y
  case double.double x y => exact x.equal_comm y
  case path.path p q => exact Files.Path.same_comm p q
  case sequence.sequence vs ws => exact sameItems_comm vs ws
  case set.set vs ws => exact sameItems_comm vs ws
  case map.map es fs => exact sameEntries_comm es fs
  case some.some v w => exact same_comm v w
  case definitions.definitions ds es => exact ds.same_comm es
  all_goals exact Bool.beq_comm

theorem sameItems_comm (vs ws : List Value) : sameItems vs ws = sameItems ws vs := by
  cases vs with
  | nil => cases ws <;> rfl
  | cons v vs =>
      cases ws with
      | nil => rfl
      | cons w ws => rw [sameItems, sameItems, same_comm v w, sameItems_comm vs ws]

theorem sameEntries_comm (es fs : List (String × Value)) : sameEntries es fs = sameEntries fs es := by
  cases es with
  | nil => cases fs <;> rfl
  | cons e es =>
      obtain ⟨k, v⟩ := e
      cases fs with
      | nil => rfl
      | cons f fs =>
          obtain ⟨l, w⟩ := f
          rw [sameEntries, sameEntries, same_comm v w, sameEntries_comm es fs, Bool.beq_comm]

end

/-! ## Transitivity -/

mutual

theorem same_trans {a b c : Value} (h : a.same b = true) (h' : b.same c = true) :
    a.same c = true := by
  cases a <;> cases b <;> try exact absurd h Bool.false_ne_true
  all_goals cases c <;> try exact absurd h' Bool.false_ne_true
  case single.single.single x y z => exact Number.Binary.equal_trans h h'
  case double.double.double x y z => exact Number.Binary.equal_trans h h'
  case path.path.path p q r => exact Files.Path.same_trans h h'
  case sequence.sequence.sequence us vs ws => exact sameItems_trans h h'
  case set.set.set us vs ws => exact sameItems_trans h h'
  case map.map.map ds es fs => exact sameEntries_trans h h'
  case some.some.some u v w => exact same_trans (a := u) h h'
  case definitions.definitions.definitions ds es fs => exact Logging.Definitions.same_trans h h'
  case none.none.none => rfl
  all_goals
    -- what is left are leaves whose values are the same when they are equal
    exact beq_iff_eq.2 ((beq_iff_eq.1 h).trans (beq_iff_eq.1 h'))
termination_by structural a

theorem sameItems_trans {us vs ws : List Value} (h : sameItems us vs = true)
    (h' : sameItems vs ws = true) : sameItems us ws = true := by
  cases us with
  | nil => cases vs <;> cases ws <;> first | rfl | exact h' | exact h
  | cons u us =>
      cases vs with
      | nil => exact absurd h Bool.false_ne_true
      | cons v vs =>
          cases ws with
          | nil => exact absurd h' Bool.false_ne_true
          | cons w ws =>
              rw [sameItems, Bool.and_eq_true] at h h' ⊢
              exact ⟨same_trans h.1 h'.1, sameItems_trans h.2 h'.2⟩
termination_by structural us

theorem sameEntries_trans {ds es fs : List (String × Value)} (h : sameEntries ds es = true)
    (h' : sameEntries es fs = true) : sameEntries ds fs = true := by
  cases ds with
  | nil => cases es <;> cases fs <;> first | rfl | exact h' | exact h
  | cons d ds =>
      obtain ⟨j, u⟩ := d
      cases es with
      | nil => exact absurd h Bool.false_ne_true
      | cons e es =>
          obtain ⟨k, v⟩ := e
          cases fs with
          | nil => exact absurd h' Bool.false_ne_true
          | cons f fs =>
              obtain ⟨l, w⟩ := f
              rw [sameEntries, Bool.and_eq_true, Bool.and_eq_true, beq_iff_eq] at h h' ⊢
              exact ⟨⟨h.1.1.trans h'.1.1, same_trans h.1.2 h'.1.2⟩, sameEntries_trans h.2 h'.2⟩
termination_by structural ds

end

end Value

end ConfigLog
