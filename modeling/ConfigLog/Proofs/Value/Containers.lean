import ConfigLog.Proofs.Value.Ordered

set_option autoImplicit false

/-! # What containers are read as

A container is read item by item, and whole or not at all. `ItemsRead`, `SetRead` and `MapRead` tell
for every node what comes of reading it as a sequence, as a set or as a map, whatever the items are
and however they are read: null is the empty container, the first item that fails is why the
container fails, and a map looks at all keys before it looks at a value. The readers do just that
(`Kind.containers_read`), and so do all kinds of containers, which are read by them.
-/

namespace ConfigLog

namespace Container

open Reading

variable {α : Type} {read : Node → Result α} {n : Node}

/-! ## Sequences -/

/-- What comes of reading the node as a sequence. -/
inductive ItemsRead (read : Node → Result α) : Node → Result (List α) → Prop
  | null : ItemsRead read .null (.ok [])
  /-- Every item is read: the sequence has what the items are read as, in their order. -/
  | ok {ns : List Node} {as : List α} (h : List.Forall₂ (fun n a => read n = .ok a) ns as) :
      ItemsRead read (.sequence ns) (.ok as)
  /-- The first item that fails decides. -/
  | failed {before after : List Node} {n : Node} {e : ConvertError}
      (hbefore : ∀ m ∈ before, ∃ a, read m = .ok a) (hn : read n = .error e) :
      ItemsRead read (.sequence (before ++ n :: after)) (.error e)
  | other {n : Node} (hnull : n ≠ .null) (hsequence : ∀ ns, n ≠ .sequence ns) :
      ItemsRead read n (.error (.wrongKind "sequence" n))

theorem readSequence_eq_iff {r : Result (List α)} :
    readSequence read n = r ↔ ItemsRead read n r := by
  constructor
  · rintro rfl
    cases n with
    | null => exact .null
    | sequence ns =>
        show ItemsRead read (.sequence ns) (ns.mapM read)
        cases hread : ns.mapM read with
        | ok as => exact .ok (mapM_eq_ok_iff.1 hread)
        | error e =>
            obtain ⟨before, m, after, rfl, hbefore, hm⟩ := mapM_eq_error_iff.1 hread
            exact .failed hbefore hm
    | _ => exact .other (by simp) (by simp)
  · intro h
    cases h with
    | null => rfl
    | ok h => exact mapM_eq_ok_iff.2 h
    | failed hbefore hn => exact mapM_eq_error_iff.2 ⟨_, _, _, rfl, hbefore, hn⟩
    | other hnull hsequence =>
        cases n with
        | null => exact absurd rfl hnull
        | sequence ns => exact absurd rfl (hsequence ns)
        | _ => rfl

/-! ## Sets -/

/-- What comes of reading the node as a set: the set of the items, or the failure of a sequence. -/
inductive SetRead (order : α → α → Ordering) (last : Bool) (read : Node → Result α) (n : Node) :
    Result (List α) → Prop
  | ok {items as : List α} (hitems : ItemsRead read n (.ok items))
      (hset : IsSetOf order last items as) : SetRead order last read n (.ok as)
  | failed {e : ConvertError} (h : ItemsRead read n (.error e)) :
      SetRead order last read n (.error e)

theorem setRead_readSet {order : α → α → Ordering} (h : Orders order fun a => ∃ m, read m = .ok a)
    (last : Bool) (n : Node) : SetRead order last read n (readSet order last read n) := by
  unfold readSet
  cases hread : readSequence read n with
  | ok items =>
      have hitems := exists_of_readSequence hread
      exact .ok (readSequence_eq_iff.1 hread) (isSetOf_toSet h last hitems)
  | error e => exact .failed (readSequence_eq_iff.1 hread)

/-! ## Maps -/

/-- What comes of reading the node as a map. -/
inductive MapRead (read : Node → Result α) : Node → Result (List (String × α)) → Prop
  | null : MapRead read .null (.ok [])
  /-- The first key that is no scalar decides, even behind a value that cannot be read. -/
  | badKey {before after : List (Node × Node)} {key value : Node}
      (hbefore : ∀ d ∈ before, d.1.isLeaf = true) (hkey : key.isLeaf = false) :
      MapRead read (.mapping (before ++ (key, value) :: after))
        (.error (.wrongKind "scalar key" key))
  /-- When all keys are scalars, the first value that fails decides. -/
  | badValue {before after : List (Node × Node)} {key value : Node} {e : ConvertError}
      (hkeys : ∀ d ∈ before ++ (key, value) :: after, d.1.isLeaf = true)
      (hbefore : ∀ d ∈ before, ∃ a, read d.2 = .ok a) (hvalue : read value = .error e) :
      MapRead read (.mapping (before ++ (key, value) :: after)) (.error e)
  /-- Under a text the map has what the last value is read as whose key has that text. -/
  | ok {es : List (Node × Node)} {as : List (String × α)}
      (hkeys : ∀ d ∈ es, d.1.isLeaf = true) (hvalues : ∀ d ∈ es, ∃ a, read d.2 = .ok a)
      (hsorted : as.Pairwise fun d e => d.1 < e.1)
      (hlookup : ∀ text a, as.lookup text = some a ↔ ∃ before key value after,
        es = before ++ (key, value) :: after ∧ key.toText = text ∧ read value = .ok a ∧
          ∀ d ∈ after, d.1.toText ≠ text) :
      MapRead read (.mapping es) (.ok as)
  | other {n : Node} (hnull : n ≠ .null) (hmapping : ∀ es, n ≠ .mapping es) :
      MapRead read n (.error (.wrongKind "mapping" n))

theorem keyText_eq_ok_iff {key : Node} {text : String} :
    keyText key = .ok text ↔ key.isLeaf = true ∧ key.toText = text := by
  cases key with
  | bool b => simp [keyText, Node.isLeaf]
  | integer i => simp [keyText, Node.isLeaf]
  | real x => simp [keyText, Node.isLeaf]
  | string s => simp [keyText, Node.isLeaf]
  | _ => simp [keyText, Node.isLeaf]

theorem keyText_eq_error {key : Node} {e : ConvertError} (h : keyText key = .error e) :
    key.isLeaf = false ∧ e = .wrongKind "scalar key" key := by
  cases key with
  | null => exact ⟨rfl, (Except.error.inj h).symm⟩
  | sequence ns => exact ⟨rfl, (Except.error.inj h).symm⟩
  | mapping es => exact ⟨rfl, (Except.error.inj h).symm⟩
  | tagged t c => exact ⟨rfl, (Except.error.inj h).symm⟩
  | _ => cases h

/-- A mapping has entries when all its keys are scalars. -/
theorem entries_mapping_eq_ok_iff {es : List (Node × Node)} {ms : List (String × Node)} :
    entries (.mapping es) = .ok ms ↔
      (∀ d ∈ es, d.1.isLeaf = true) ∧ ms = es.map fun d => (d.1.toText, d.2) := by
  have hentry : ∀ (d : Node × Node) (m : String × Node),
      (do return (← keyText d.1, d.2) : Result (String × Node)) = .ok m ↔
        d.1.isLeaf = true ∧ (d.1.toText, d.2) = m := by
    intro d m
    constructor
    · intro h
      obtain ⟨text, htext, hm⟩ := bind_eq_ok h
      obtain ⟨hleaf, rfl⟩ := keyText_eq_ok_iff.1 htext
      exact ⟨hleaf, Except.ok.inj hm⟩
    · rintro ⟨hleaf, rfl⟩
      rw [keyText_eq_ok_iff.2 ⟨hleaf, rfl⟩]
      rfl
  have hmap : List.Forall₂ (fun (d : Node × Node) m => (d.1.toText, d.2) = m) es ms ↔
      ms = es.map fun d => (d.1.toText, d.2) := by
    rw [← List.forall₂_map_left_iff (R := Eq), List.forall₂_eq_eq_eq]
    exact eq_comm
  refine mapM_eq_ok_iff.trans ?_
  simp only [hentry]
  rw [List.forall₂_and_left, hmap]

theorem entries_mapping_eq_error {es : List (Node × Node)} {e : ConvertError}
    (h : entries (.mapping es) = .error e) :
    ∃ before key value after, es = before ++ (key, value) :: after ∧
      (∀ d ∈ before, d.1.isLeaf = true) ∧ key.isLeaf = false ∧
      e = .wrongKind "scalar key" key := by
  obtain ⟨before, ⟨key, value⟩, after, rfl, hbefore, hkey⟩ := mapM_eq_error_iff.1 h
  have htext : keyText key = .error e := by
    cases hcase : keyText key with
    | ok text => rw [hcase] at hkey; cases hkey
    | error f => rw [hcase] at hkey; exact congrArg _ (Except.error.inj hkey)
  obtain ⟨hleaf, he⟩ := keyText_eq_error htext
  refine ⟨before, key, value, after, rfl, fun d hd => ?_, hleaf, he⟩
  obtain ⟨m, hm⟩ := hbefore d hd
  obtain ⟨text, htext, -⟩ := bind_eq_ok hm
  exact (keyText_eq_ok_iff.1 htext).1

/-- The entry of a map that an entry of a mapping gives. -/
def Gives (read : Node → Result α) (d : Node × Node) (e : String × α) : Prop :=
  d.1.toText = e.1 ∧ read d.2 = .ok e.2

/-- What the last entry with a text among its keys gives is what is looked up under the text. -/
theorem lookup_iff_of_gives {es : List (Node × Node)} {ds : List (String × α)}
    (h : List.Forall₂ (Gives read) es ds) {text : String} {a : α} :
    (Keyed.ofList ds).lookup text = some a ↔ ∃ before key value after,
      es = before ++ (key, value) :: after ∧ key.toText = text ∧ read value = .ok a ∧
        ∀ d ∈ after, d.1.toText ≠ text := by
  rw [Keyed.lookup_ofList_eq_some_iff]
  constructor
  · rintro ⟨before, after, rfl, hafter⟩
    obtain ⟨front, ⟨key, value⟩, back, rfl, -, ⟨hkey, hvalue⟩, hback⟩ := forall₂_append_cons h
    refine ⟨front, key, value, back, rfl, hkey, hvalue, fun d hd => ?_⟩
    obtain ⟨e, he, htext, -⟩ := exists_of_mem hback.flip d hd
    rw [htext]
    exact hafter e he
  · rintro ⟨before, key, value, after, rfl, hkey, hvalue, hafter⟩
    obtain ⟨front, ⟨k, b⟩, back, rfl, -, ⟨hk, hb⟩, hback⟩ := forall₂_append_cons h.flip
    have hk : k = text := hk.symm.trans hkey
    have hb : a = b := Except.ok.inj (hvalue.symm.trans hb)
    refine ⟨front, back, by rw [hk, hb], fun e he => ?_⟩
    obtain ⟨d, hd, htext, -⟩ := exists_of_mem hback.flip e he
    rw [← htext]
    exact hafter d hd

/-- Reads the value of an entry of a mapping. -/
def readEntry (read : Node → Result α) (d : Node × Node) : Result (String × α) :=
  return (d.1.toText, ← read d.2)

theorem readEntry_eq_ok_iff {d : Node × Node} {e : String × α} :
    readEntry read d = .ok e ↔ d.1.toText = e.1 ∧ read d.2 = .ok e.2 := by
  unfold readEntry
  cases hread : read d.2 with
  | error f => exact iff_of_false (fun h => by cases h) (fun h => by cases h.2)
  | ok a =>
      constructor
      · intro h
        obtain rfl : (d.1.toText, a) = e := Except.ok.inj h
        exact ⟨rfl, rfl⟩
      · rintro ⟨htext, ha⟩
        exact congrArg Except.ok (Prod.ext htext (Except.ok.inj ha))

theorem readEntry_eq_error {d : Node × Node} {e : ConvertError} (h : readEntry read d = .error e) :
    read d.2 = .error e := by
  unfold readEntry at h
  cases hread : read d.2 with
  | error f => rw [hread] at h; exact congrArg _ (Except.error.inj h)
  | ok a => rw [hread] at h; cases h

/-- When all keys are scalars, the values are read one after the other. -/
theorem readMap_mapping {es : List (Node × Node)} (hkeys : ∀ d ∈ es, d.1.isLeaf = true) :
    readMap read (.mapping es) = Keyed.ofList <$> es.mapM (readEntry read) := by
  have hmap : (es.map fun d => (d.1.toText, d.2)).mapM
      (fun e : String × Node => (do return (e.1, ← read e.2) : Result (String × α))) =
        es.mapM (readEntry read) := List.mapM_map
  unfold readMap
  rw [entries_mapping_eq_ok_iff.2 ⟨hkeys, rfl⟩]
  show ((es.map fun d => (d.1.toText, d.2)).mapM
    (fun e : String × Node => (do return (e.1, ← read e.2) : Result (String × α))) >>=
      fun ds => pure (Keyed.ofList ds)) = _
  rw [hmap, map_eq_pure_bind]

theorem mapRead_readMap (read : Node → Result α) (n : Node) :
    MapRead read n (readMap read n) := by
  cases n with
  | null => exact .null
  | mapping es =>
      cases hentries : entries (.mapping es) with
      | error e =>
          have hread : readMap read (.mapping es) = .error e := by
            rw [readMap, hentries]
            rfl
          obtain ⟨before, key, value, after, rfl, hbefore, hkey, rfl⟩ :=
            entries_mapping_eq_error hentries
          rw [hread]
          exact .badKey hbefore hkey
      | ok ms =>
          obtain ⟨hkeys, -⟩ := entries_mapping_eq_ok_iff.1 hentries
          rw [readMap_mapping hkeys]
          cases hvalues : es.mapM (readEntry read) with
          | error e =>
              obtain ⟨before, ⟨key, value⟩, after, rfl, hbefore, hvalue⟩ :=
                mapM_eq_error_iff.1 hvalues
              refine .badValue hkeys (fun d hd => ?_) (readEntry_eq_error hvalue)
              obtain ⟨e, he⟩ := hbefore d hd
              exact ⟨e.2, (readEntry_eq_ok_iff.1 he).2⟩
          | ok ds =>
              have hgives : List.Forall₂ (Gives read) es ds := by
                refine (mapM_eq_ok_iff.1 hvalues).imp fun d e h => ?_
                exact readEntry_eq_ok_iff.1 h
              refine .ok hkeys (fun d hd => ?_) (Keyed.pairwise_ofList ds) ?_
              · obtain ⟨e, -, -, hread⟩ := exists_of_mem hgives.flip d hd
                exact ⟨e.2, hread⟩
              · exact fun text a => lookup_iff_of_gives hgives
  | _ => exact .other (by simp) (by simp)

end Container

/-! ## Kinds of containers -/

namespace Kind

open Container

/-- Containers are read item by item, and whole or not at all: sequences, sets and maps of any items
with any way of reading them, where the items of a set have an order. Every kind of container is
read so, in both arrangements, of which one keeps the last of equal items in a set and the other one
the first, and the items of plain kinds have an order. -/
theorem containers_read :
    (∀ {α : Type} (read : Node → Result α) (n : Node),
      (∀ r, readSequence read n = r ↔ ItemsRead read n r) ∧
      (∀ order last, Orders order (fun a => ∃ m, read m = .ok a) →
        SetRead order last read n (readSet order last read n)) ∧
      MapRead read n (readMap read n)) ∧
    ∀ (k : Kind) (n : Node),
      (∀ form, (sequence form k).ofNode n = .sequence <$> readSequence k.ofNode n) ∧
      (∀ arrangement, (set arrangement k).ofNode n
        = .set <$> readSet Value.compare arrangement.keepsLast k.ofNode n) ∧
      (∀ arrangement, (map arrangement k).ofNode n = .map <$> readMap k.ofNode n) ∧
      (k.isPlain = true → Orders Value.compare fun v => ∃ m, k.ofNode m = .ok v) := by
  refine ⟨fun read n => ⟨fun r => readSequence_eq_iff, ?_, mapRead_readMap read n⟩, fun k n => ?_⟩
  · exact fun order last h => setRead_readSet h last n
  · refine ⟨fun form => by rw [ofNode], fun a => by rw [ofNode], fun a => by rw [ofNode], ?_⟩
    intro hk
    refine ⟨Value.compare_swap, ?_⟩
    rintro a b c ⟨_, ha⟩ ⟨_, hb⟩ ⟨_, hc⟩
    exact k.orders_compare.trans (has_of_ofNode hk ha) (has_of_ofNode hk hb) (has_of_ofNode hk hc)

/-- The number 80 and the text 80 are one item of a set of numbers, and one key of a map, where the
later value counts. Of two spellings of a path an ordered set keeps the later one as well, a hashed
one the first. A key that is no scalar is told before a value that is no number. -/
theorem containers_read_alike :
    let u16 := Kind.whole .u16
    let n := Node.sequence [.integer 80, .integer 7, .string "80"]
    let m := Node.mapping [(.integer 80, .integer 1), (.string "80", .integer 2)]
    let bad := Node.mapping [(.string "a", .null), (.null, .integer 1)]
    let paths := Node.sequence [.string "a//b", .string "a/b"]
    SetRead Value.compare true u16.ofNode n (.ok [.whole 7, .whole 80]) ∧
    SetRead Value.compare true path.ofNode paths (.ok [.path "a/b"]) ∧
    SetRead Value.compare false path.ofNode paths (.ok [.path "a//b"]) ∧
    MapRead u16.ofNode m (.ok [("80", .whole 2)]) ∧
    MapRead u16.ofNode bad (.error (.wrongKind "scalar key" .null)) := by
  intro u16 n m bad paths
  obtain ⟨hread, hkinds⟩ := containers_read
  obtain ⟨-, -, -, horder⟩ := hkinds u16 n
  obtain ⟨-, -, -, hpaths⟩ := hkinds path paths
  obtain ⟨-, hset, -⟩ := hread u16.ofNode n
  obtain ⟨-, hspelled, -⟩ := hread path.ofNode paths
  exact ⟨hset Value.compare true (horder rfl), hspelled Value.compare true (hpaths rfl),
    hspelled Value.compare false (hpaths rfl), (hread u16.ofNode m).2.2,
    (hread u16.ofNode bad).2.2⟩

end Kind

end ConfigLog
