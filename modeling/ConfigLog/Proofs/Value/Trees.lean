import ConfigLog.Proofs.Value.Order
import ConfigLog.Proofs.Value.Reflexive

set_option autoImplicit false

/-! # Values from their trees

A plain kind is one of whole numbers, truth values, characters, texts and paths, or of containers of
them; an optional value of an optional value is not plain, as both would be missing as null. Every
value of a plain kind is read back from its tree (`Kind.ofNode_of_isPlain`).

A container without a promised order may be written in any order of its items, and with it all
containers around it. `Kind.Writes` are the trees that a value may be written as, and the value is
read back from each of them.
-/

namespace ConfigLog

namespace Kind

/-! ## Plain kinds and their values -/

/-- Whole numbers, truth values, characters, texts, paths and containers of them. What is optional
is not optional itself. -/
def isPlain : Kind → Bool
  | whole _ | bool | char | string | path => true
  | sequence _ k | set _ k | map _ k => k.isPlain
  | option (option _) => false
  | option k => k.isPlain
  | single | double | person _ | celsius _ | definitions => false

theorem isPlain_option {k : Kind} :
    (option k).isPlain = true ↔ k.isPlain = true ∧ ∀ t, k ≠ option t := by
  cases k <;> simp [isPlain]

/-- The value is one of the plain kind. The items of a set ascend, and so do the keys of a map: this
is how they are kept. -/
inductive Has : Kind → Value → Prop
  | whole {w : Width} {i : Int} (h : w.holds i = true) : Has (.whole w) (.whole i)
  | bool (b : Bool) : Has .bool (.bool b)
  | char (c : Char) : Has .char (.char c)
  | string (s : String) : Has .string (.string s)
  | path (p : String) : Has .path (.path p)
  | sequence {form : SequenceForm} {k : Kind} {vs : List Value} (h : ∀ v ∈ vs, Has k v) :
      Has (.sequence form k) (.sequence vs)
  | set {a : Arrangement} {k : Kind} {vs : List Value} (h : ∀ v ∈ vs, Has k v)
      (hsorted : vs.Pairwise fun v w => v.compare w = .lt) : Has (.set a k) (.set vs)
  | map {a : Arrangement} {k : Kind} {es : List (String × Value)} (h : ∀ e ∈ es, Has k e.2)
      (hsorted : es.Pairwise fun d e => d.1 < e.1) : Has (.map a k) (.map es)
  | none {k : Kind} : Has (.option k) .none
  | some {k : Kind} {v : Value} (h : Has k v) : Has (.option k) (.some v)

end Kind

/-! ## The trees of a value -/

/-- The order in which a container may give its items, where the first list has them as they are
kept. -/
def Arrangement.Allows {α : Type} : Arrangement → List α → List α → Prop
  | ordered, as, bs => bs = as
  | hashed, as, bs => bs.Perm as

/-- The tree may be what the value of the kind is written as. -/
def Kind.Writes : Kind → Value → Node → Prop
  | sequence _ k, .sequence vs, n => ∃ ns, List.Forall₂ k.Writes vs ns ∧ n = .sequence ns
  | set a k, .set vs, n =>
    ∃ ws ns, a.Allows vs ws ∧ List.Forall₂ k.Writes ws ns ∧ n = .sequence ns
  | map a k, .map es, n =>
    ∃ ds ns, a.Allows es ds ∧
      List.Forall₂ (fun d m => m.1 = .string d.1 ∧ k.Writes d.2 m.2) ds ns ∧ n = .mapping ns
  | option k, .some v, n => k.Writes v n
  | _, v, n => n = v.toNode

theorem Arrangement.Allows.perm {α : Type} {a : Arrangement} {as bs : List α}
    (h : a.Allows as bs) : bs.Perm as := by
  cases a with
  | ordered =>
      have heq : bs = as := h
      rw [heq]
  | hashed => exact h

theorem Arrangement.allows_self {α : Type} (a : Arrangement) (as : List α) : a.Allows as as := by
  cases a with
  | ordered => exact rfl
  | hashed => exact .refl as

namespace Value

theorem forall₂_itemNodes {R : Value → Node → Prop} {vs : List Value}
    (h : ∀ v ∈ vs, R v v.toNode) : List.Forall₂ R vs (itemNodes vs) := by
  induction vs with
  | nil => exact .nil
  | cons v vs ih =>
      have hrest := ih fun w hw => h w (List.mem_cons_of_mem v hw)
      exact .cons (h v List.mem_cons_self) hrest

theorem forall₂_entryNodes {R : Value → Node → Prop} {es : List (String × Value)}
    (h : ∀ e ∈ es, R e.2 e.2.toNode) :
    List.Forall₂ (fun e m => m.1 = .string e.1 ∧ R e.2 m.2) es (entryNodes es) := by
  induction es with
  | nil => exact .nil
  | cons e es ih =>
      have hrest := ih fun d hd => h d (List.mem_cons_of_mem e hd)
      exact .cons ⟨rfl, h e List.mem_cons_self⟩ hrest

end Value

namespace Kind

/-- The tree of a value is among those it may be written as. -/
theorem writes_toNode (k : Kind) (v : Value) : k.Writes v v.toNode := by
  induction k generalizing v with
  | sequence form k ih =>
      cases v with
      | sequence vs =>
          exact ⟨_, Value.forall₂_itemNodes fun v _ => ih v, rfl⟩
      | _ => exact rfl
  | set a k ih =>
      cases v with
      | set vs =>
          exact ⟨vs, _, a.allows_self vs, Value.forall₂_itemNodes fun v _ => ih v, rfl⟩
      | _ => exact rfl
  | map a k ih =>
      cases v with
      | map es =>
          exact ⟨es, _, a.allows_self es, Value.forall₂_entryNodes fun e _ => ih e.2, rfl⟩
      | _ => exact rfl
  | option k ih =>
      cases v with
      | some v => exact ih v
      | _ => exact rfl
  | _ => exact rfl

/-- Only a missing value is written as null. -/
theorem ne_null_of_writes {k : Kind} (hopt : ∀ t, k ≠ option t) {v : Value} (hv : k.Has v)
    {n : Node} (hn : k.Writes v n) : n ≠ .null := by
  rintro rfl
  cases hv with
  | whole _ => cases hn
  | bool b => cases hn
  | char c => cases hn
  | string s => cases hn
  | path p => cases hn
  | sequence _ =>
      obtain ⟨ns, -, h⟩ := hn
      cases h
  | set _ _ =>
      obtain ⟨ws, ns, -, -, h⟩ := hn
      cases h
  | map _ _ =>
      obtain ⟨ds, ns, -, -, h⟩ := hn
      cases h
  | none => exact hopt _ rfl
  | some _ => exact hopt _ rfl

end Kind

/-! ## Reading the trees -/

namespace Container

variable {α : Type}

theorem readSequence_of_forall₂ {read : Node → Result α} {as : List α} {ns : List Node}
    (h : List.Forall₂ (fun a n => read n = .ok a) as ns) :
    readSequence read (.sequence ns) = .ok as :=
  Reading.mapM_eq_ok_iff.2 h.flip

/-- A set is read from its items in any order. -/
theorem readSet_of_forall₂ {order : α → α → Ordering}
    (hswap : ∀ a b, order b a = (order a b).swap) (last : Bool) {read : Node → Result α}
    {as bs : List α} {ns : List Node} (hperm : bs.Perm as)
    (has : as.Pairwise fun a b => order a b = .lt)
    (h : List.Forall₂ (fun b n => read n = .ok b) bs ns) :
    readSet order last read (.sequence ns) = .ok as := by
  unfold readSet
  rw [readSequence_of_forall₂ h]
  show Except.ok (toSet order last bs) = Except.ok as
  rw [toSet_of_perm hswap last hperm has]

/-- The keys of a mapping are read back from their texts, the values are left as they are. -/
theorem entries_of_forall₂ {R : α → Node → Prop} {ds : List (String × α)} {ns : List (Node × Node)}
    (h : List.Forall₂ (fun d m => m.1 = .string d.1 ∧ R d.2 m.2) ds ns) :
    ∃ ms, entries (.mapping ns) = .ok ms ∧
      List.Forall₂ (fun d m => m.1 = d.1 ∧ R d.2 m.2) ds ms := by
  induction h with
  | nil => exact ⟨[], List.mapM_nil, .nil⟩
  | @cons d n _ ns hd _ ih =>
      obtain ⟨ms, hms, hrest⟩ := ih
      obtain ⟨hkey, hvalue⟩ := hd
      refine ⟨(d.1, n.2) :: ms, ?_, .cons ⟨rfl, hvalue⟩ hrest⟩
      have htext : keyText n.1 = .ok d.1 := by
        rw [hkey]
        rfl
      have hms : ns.mapM (fun e => return (← keyText e.1, e.2)) = Except.ok ms := hms
      rw [entries, List.mapM_cons, htext, hms]
      rfl

/-- A map is read from its entries in any order. -/
theorem readMap_of_forall₂ {read : Node → Result α} {ds es : List (String × α)}
    {ns : List (Node × Node)} (hperm : ds.Perm es) (hes : es.Pairwise fun d e => d.1 < e.1)
    (h : List.Forall₂ (fun d m => m.1 = .string d.1 ∧ read m.2 = .ok d.2) ds ns) :
    readMap read (.mapping ns) = .ok es := by
  obtain ⟨ms, hms, hvalues⟩ := entries_of_forall₂ (R := fun a n => read n = .ok a) h
  have hread : ms.mapM (fun e => return (e.1, ← read e.2)) = Except.ok ds := by
    refine Reading.mapM_eq_ok_iff.2 (hvalues.flip.imp fun m d hd => ?_)
    obtain ⟨hkey, hvalue⟩ := hd
    rw [hvalue, hkey]
    rfl
  unfold readMap
  rw [hms]
  show (ms.mapM (fun e : String × Node => return (e.1, ← read e.2)) >>= fun es =>
    Except.ok (Keyed.ofList es)) = Except.ok es
  rw [hread]
  show Except.ok (Keyed.ofList ds) = Except.ok es
  rw [Keyed.ofList_of_perm hperm hes]

end Container

namespace Kind

open Container

theorem charOfText_toString (c : Char) : charOfText c.toString = .ok c := by
  have hlist : c.toString.toList = [c] := by simp
  rw [charOfText, hlist]

/-- Every value of a plain kind is read back from each tree that it may be written as. -/
theorem ofNode_of_writes {k : Kind} (hk : k.isPlain = true) {v : Value} (hv : k.Has v) {n : Node}
    (hn : k.Writes v n) : k.ofNode n = .ok v := by
  induction hv generalizing n with
  | whole h =>
      obtain rfl := hn
      rw [Value.toNode, ofNode, Width.ofNode, if_pos h]
  | bool b =>
      obtain rfl := hn
      rfl
  | char c =>
      obtain rfl := hn
      rw [Value.toNode, ofNode, charOfNode, charOfText_toString]
      rfl
  | string s =>
      obtain rfl := hn
      rfl
  | path p =>
      obtain rfl := hn
      rfl
  | @sequence form k vs _ ih =>
      obtain ⟨ns, hns, rfl⟩ := hn
      have hitems := (List.forall₂_and_left _ _).2 ⟨ih, hns⟩
      have hread : List.Forall₂ (fun v n => k.ofNode n = .ok v) vs ns :=
        hitems.imp fun v n h => h.1 hk h.2
      rw [ofNode, readSequence_of_forall₂ hread]
      rfl
  | @set a k vs _ hsorted ih =>
      -- the items may come in another order, which their insertion puts right
      obtain ⟨ws, ns, hallows, hns, rfl⟩ := hn
      have hperm := hallows.perm
      have hitems := (List.forall₂_and_left _ _).2 ⟨fun w hw => ih w (hperm.subset hw), hns⟩
      have hread : List.Forall₂ (fun v n => k.ofNode n = .ok v) ws ns :=
        hitems.imp fun v n h => h.1 hk h.2
      rw [ofNode, readSet_of_forall₂ Value.compare_swap _ hperm hsorted hread]
      rfl
  | @map a k es _ hsorted ih =>
      obtain ⟨ds, ns, hallows, hns, rfl⟩ := hn
      have hperm := hallows.perm
      have hitems := (List.forall₂_and_left _ _).2 ⟨fun d hd => ih d (hperm.subset hd), hns⟩
      have hread : List.Forall₂ (fun d m => m.1 = .string d.1 ∧ k.ofNode m.2 = .ok d.2) ds ns :=
        hitems.imp fun d m h => ⟨h.2.1, h.1 hk h.2.2⟩
      rw [ofNode, readMap_of_forall₂ hperm hsorted hread]
      rfl
  | none =>
      obtain rfl := hn
      rfl
  | @some k v hv ih =>
      -- null would be read as a missing value, but only a missing value is written so
      obtain ⟨hplain, hopt⟩ := isPlain_option.1 hk
      have hn : k.Writes v n := hn
      have hnull := ne_null_of_writes hopt hv hn
      rw [ofNode, readOption, ih hplain hn]
      · rfl
      · exact hnull

theorem isExact_of_isPlain {k : Kind} (hk : k.isPlain = true) : k.isExact = true := by
  induction k with
  | single => cases hk
  | double => cases hk
  | sequence form k ih => exact ih hk
  | set a k ih => exact ih hk
  | map a k ih => exact ih hk
  | option k ih => exact ih (isPlain_option.1 hk).1
  | _ => rfl

/-- Every value of a plain kind is read back from its tree, whatever the order is in which the
containers inside it give their items. -/
theorem ofNode_of_isPlain {k : Kind} (hk : k.isPlain = true) {v : Value} (hv : k.Has v) :
    k.ofNode v.toNode = .ok v ∧ v.same v = true ∧
      k.Writes v v.toNode ∧ ∀ n, k.Writes v n → k.ofNode n = .ok v := by
  have hwrites := k.writes_toNode v
  have hread := ofNode_of_writes hk hv hwrites
  have hsame := reflexive_of_isExact (isExact_of_isPlain hk) _ _ hread
  exact ⟨hread, hsame, hwrites, fun n hn => ofNode_of_writes hk hv hn⟩

/-- Numbers at both ends of their type, a missing item, an empty set and keys that differ in case
only, with the entries the other way round. -/
theorem ofNode_of_isPlain_nested :
    let k := Kind.map .hashed (.sequence .vector (.option (.set .ordered (.whole .i64))))
    let ends := [-9223372036854775808, 9223372036854775807]
    let v := Value.map [("A", .sequence []),
      ("a", .sequence [.none, .some (.set []), .some (.set (ends.map .whole))])]
    let n := Node.mapping [
      (.string "a", .sequence [.null, .sequence [], .sequence (ends.map .integer)]),
      (.string "A", .sequence [])]
    k.isPlain = true ∧ k.Has v ∧ k.Writes v n ∧ k.ofNode n = .ok v ∧ k.ofNode v.toNode = .ok v := by
  intro k ends v n
  have hk : k.isPlain = true := rfl
  have hends : ∀ i ∈ ends, Has (.whole .i64) (.whole i) := by
    have hholds : ends.all Width.i64.holds = true := by decide
    exact fun i hi => .whole (List.all_eq_true.1 hholds i hi)
  have hset : Has (.set .ordered (.whole .i64)) (.set (ends.map .whole)) :=
    .set (by simpa using hends) (List.pairwise_pair.2 (by decide))
  have hempty : Has (.set .ordered (.whole .i64)) (.set []) := .set (by simp) .nil
  have hv : k.Has v := by
    refine .map ?_ (List.pairwise_pair.2 (by decide))
    simp only [List.forall_mem_cons, List.not_mem_nil, false_implies, implies_true, and_true]
    refine ⟨.sequence (by simp), .sequence ?_⟩
    simpa using ⟨.none, .some hempty, .some hset⟩
  have hn : k.Writes v n := by
    refine ⟨_, _, List.Perm.swap _ _ _, ?_, rfl⟩
    simp [ends, Writes, Arrangement.Allows, Value.toNode]
  obtain ⟨hread, -, -, hall⟩ := ofNode_of_isPlain hk hv
  exact ⟨hk, hv, hn, hall n hn, hread⟩

end Kind

end ConfigLog
