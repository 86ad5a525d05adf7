import ConfigLog.Config.Change
import Mathlib.Data.List.Infix

set_option autoImplicit false

/-! # Documents as chains of keys

What a document says about a setting stands at the end of a chain of keys that leads from the root
through mappings. The address of a chain is the list of the places that its entries have in their
mappings; the lexicographic order of addresses is the order of the document, with each mapping
before its parts. Flattening gives one setting for each chain along which all paths are names, and
one invalid path for each chain that fails to make a name only with its last key, both in the order
of the document (`flatten_chains`).
-/

namespace ConfigLog.Config

/-! ## Chains -/

/-- A way through the mappings of a document. -/
structure KeyChain where
  /-- The places of the entries in their mappings. -/
  address : List Nat
  /-- The texts of the keys. -/
  keys : List String
  /-- The node at the end. -/
  node : Node

/-- The chain leads from the node. Every key on its way has a text, and every entry but the last one
leads to a mapping. -/
inductive KeyChain.From : Node → KeyChain → Prop
  | entry {entries : List (Node × Node)} {i : Nat} {key node : Node} {segment : String}
      (hentry : entries[i]? = some (key, node)) (hkey : keyText? key = some segment) :
      From (.mapping entries) ⟨[i], [segment], node⟩
  | deeper {entries : List (Node × Node)} {i : Nat} {key inner : Node} {segment : String}
      {c : KeyChain}
      (hentry : entries[i]? = some (key, inner)) (hkey : keyText? key = some segment)
      (h : From inner c) :
      From (.mapping entries) ⟨i :: c.address, segment :: c.keys, c.node⟩

/-- The entry at the address has a key without a text. -/
inductive Unnamed : Node → List Nat → Prop
  | entry {entries : List (Node × Node)} {i : Nat} {key node : Node}
      (hentry : entries[i]? = some (key, node)) (hkey : keyText? key = none) :
      Unnamed (.mapping entries) [i]
  | deeper {entries : List (Node × Node)} {i : Nat} {key inner : Node} {address : List Nat}
      (hentry : entries[i]? = some (key, inner)) (h : Unnamed inner address) :
      Unnamed (.mapping entries) (i :: address)

/-- The path of some keys: their stored forms with dots between them. -/
def pathOf (keys : List String) : String := ".".intercalate (keys.map normalName)

namespace KeyChain

/-- The path of the chain, and each path on the way to its end, is a name. -/
def Named (c : KeyChain) : Prop :=
  ∀ keys, keys <+: c.keys → keys ≠ [] → isValidName (pathOf keys) = true

/-- The path of the chain is no name, but each path on the way to its end is one. -/
def Refused (c : KeyChain) : Prop :=
  isValidName (pathOf c.keys) = false ∧
    ∀ keys, keys <+: c.keys → keys ≠ [] → keys ≠ c.keys → isValidName (pathOf keys) = true

/-- The list consists of the chains from the root that have the property, each of them once, in the
order of the document. -/
structure Lists (root : Node) (property : KeyChain → Prop) (cs : List KeyChain) : Prop where
  mem : ∀ c, c ∈ cs ↔ c.From root ∧ property c
  ordered : cs.Pairwise fun c d => c.address < d.address

/-! ### Chains with a common start -/

theorem From.keys_ne_nil {n : Node} {c : KeyChain} (h : From n c) : c.keys ≠ [] := by
  cases h <;> simp

theorem From.address_ne_nil {n : Node} {c : KeyChain} (h : From n c) : c.address ≠ [] := by
  cases h <;> simp

/-- One place of a mapping has one key and one node. -/
theorem entry_inj {entries : List (Node × Node)} {i : Nat} {key key' node node' : Node}
    (h : entries[i]? = some (key, node)) (h' : entries[i]? = some (key', node')) :
    key = key' ∧ node = node' :=
  Prod.mk.inj (Option.some.inj (h.symm.trans h'))

/-- A chain that starts like another one has the keys of that one first. -/
theorem From.prefix_keys {n : Node} {c d : KeyChain} (hd : From n d) (hc : From n c)
    (haddress : d.address <+: c.address) :
    d.keys <+: c.keys ∧ (d.keys = c.keys → d = c) := by
  induction hd generalizing c with
  | entry hentry hkey =>
      cases hc with
      | entry hentry' hkey' =>
          obtain ⟨rfl, -⟩ := List.cons_prefix_cons.1 haddress
          obtain ⟨rfl, rfl⟩ := entry_inj hentry hentry'
          obtain rfl := Option.some.inj (hkey.symm.trans hkey')
          exact ⟨List.prefix_rfl, fun _ => rfl⟩
      | deeper hentry' hkey' h' =>
          obtain ⟨rfl, -⟩ := List.cons_prefix_cons.1 haddress
          obtain ⟨rfl, rfl⟩ := entry_inj hentry hentry'
          obtain rfl := Option.some.inj (hkey.symm.trans hkey')
          refine ⟨List.cons_prefix_cons.2 ⟨rfl, List.nil_prefix⟩, fun hkeys => ?_⟩
          exact absurd (List.cons.inj hkeys).2.symm h'.keys_ne_nil
  | deeper hentry hkey h ih =>
      cases hc with
      | entry hentry' hkey' =>
          obtain ⟨rfl, hrest⟩ := List.cons_prefix_cons.1 haddress
          exact absurd (List.prefix_nil.1 hrest) h.address_ne_nil
      | deeper hentry' hkey' h' =>
          obtain ⟨rfl, hrest⟩ := List.cons_prefix_cons.1 haddress
          obtain ⟨rfl, rfl⟩ := entry_inj hentry hentry'
          obtain rfl := Option.some.inj (hkey.symm.trans hkey')
          obtain ⟨hkeys, heq⟩ := ih h' hrest
          refine ⟨List.cons_prefix_cons.2 ⟨rfl, hkeys⟩, fun h => ?_⟩
          rw [heq (List.cons.inj h).2]

/-- A chain never leads past a key without a text. -/
theorem From.not_past_unnamed {n : Node} {c : KeyChain} (hc : From n c) {address : List Nat}
    (h : Unnamed n address) : ¬ address <+: c.address := by
  induction h generalizing c with
  | entry hentry hkey =>
      intro hprefix
      cases hc with
      | entry hentry' hkey' =>
          obtain ⟨rfl, -⟩ := List.cons_prefix_cons.1 hprefix
          obtain ⟨rfl, rfl⟩ := entry_inj hentry hentry'
          cases hkey.symm.trans hkey'
      | deeper hentry' hkey' _ =>
          obtain ⟨rfl, -⟩ := List.cons_prefix_cons.1 hprefix
          obtain ⟨rfl, rfl⟩ := entry_inj hentry hentry'
          cases hkey.symm.trans hkey'
  | deeper hentry h ih =>
      intro hprefix
      cases hc with
      | entry hentry' hkey' =>
          obtain ⟨rfl, hrest⟩ := List.cons_prefix_cons.1 hprefix
          obtain rfl := List.prefix_nil.1 hrest
          cases h
      | deeper hentry' hkey' h' =>
          obtain ⟨rfl, hrest⟩ := List.cons_prefix_cons.1 hprefix
          obtain ⟨rfl, rfl⟩ := entry_inj hentry hentry'
          exact ih h' hrest

end KeyChain

/-! ## All chains of a document -/

/-- The chain with one more entry in front. -/
def KeyChain.under (i : Nat) (segment : String) (c : KeyChain) : KeyChain :=
  ⟨i :: c.address, segment :: c.keys, c.node⟩

mutual

/-- All chains from a node, in the order of the document. -/
def chainsBelow : Node → List KeyChain
  | .mapping entries => chainsOf 0 entries
  | _ => []

/-- All chains through some entries of a mapping, the first of which has the given place. -/
def chainsOf (i : Nat) : List (Node × Node) → List KeyChain
  | [] => []
  | (key, node) :: r =>
    (match keyText? key with
      | none => []
      | some segment => ⟨[i], [segment], node⟩ :: (chainsBelow node).map (·.under i segment))
      ++ chainsOf (i + 1) r

end

/-- A chain through some entries goes through one of them. -/
def Through (i : Nat) (entries : List (Node × Node)) (c : KeyChain) : Prop :=
  ∃ j key node segment, entries[j]? = some (key, node) ∧ keyText? key = some segment ∧
    (c = ⟨[i + j], [segment], node⟩ ∨ ∃ d : KeyChain, d.From node ∧ c = d.under (i + j) segment)

theorem through_zero {entries : List (Node × Node)} {c : KeyChain} :
    Through 0 entries c ↔ c.From (.mapping entries) := by
  constructor
  · rintro ⟨j, key, node, segment, hentry, hkey, rfl | ⟨d, hd, rfl⟩⟩
    · rw [Nat.zero_add]
      exact .entry hentry hkey
    · rw [Nat.zero_add]
      exact .deeper hentry hkey hd
  · intro h
    cases h with
    | entry hentry hkey =>
        exact ⟨_, _, _, _, hentry, hkey, .inl (by rw [Nat.zero_add])⟩
    | deeper hentry hkey h =>
        exact ⟨_, _, _, _, hentry, hkey, .inr ⟨_, h, by rw [Nat.zero_add]; rfl⟩⟩

theorem through_cons {i : Nat} {e : Node × Node} {r : List (Node × Node)} {c : KeyChain} :
    Through i (e :: r) c ↔
      (∃ segment, keyText? e.1 = some segment ∧
        (c = ⟨[i], [segment], e.2⟩ ∨ ∃ d : KeyChain, d.From e.2 ∧ c = d.under i segment)) ∨
      Through (i + 1) r c := by
  constructor
  · rintro ⟨j, key, node, segment, hentry, hkey, hc⟩
    cases j with
    | zero =>
        obtain rfl := Option.some.inj hentry
        exact .inl ⟨segment, hkey, hc⟩
    | succ j =>
        rw [← Nat.add_assoc, Nat.add_right_comm] at hc
        exact .inr ⟨j, key, node, segment, hentry, hkey, hc⟩
  · rintro (⟨segment, hkey, hc⟩ | ⟨j, key, node, segment, hentry, hkey, hc⟩)
    · exact ⟨0, e.1, e.2, segment, rfl, hkey, hc⟩
    · rw [Nat.add_right_comm, Nat.add_assoc] at hc
      exact ⟨j + 1, key, node, segment, hentry, hkey, hc⟩

mutual

theorem mem_chainsBelow (n : Node) (c : KeyChain) : c ∈ chainsBelow n ↔ c.From n := by
  cases n with
  | mapping entries => rw [chainsBelow, mem_chainsOf, through_zero]
  | _ =>
      simp only [chainsBelow, List.not_mem_nil, false_iff]
      intro h
      cases h

theorem mem_chainsOf (i : Nat) (entries : List (Node × Node)) (c : KeyChain) :
    c ∈ chainsOf i entries ↔ Through i entries c := by
  cases entries with
  | nil =>
      rw [chainsOf]
      constructor
      · intro h
        cases h
      · rintro ⟨j, key, node, segment, hentry, -⟩
        cases hentry
  | cons e r =>
      obtain ⟨key, node⟩ := e
      rw [chainsOf, List.mem_append, mem_chainsOf (i + 1) r, through_cons]
      refine or_congr_left ?_
      cases hkey : keyText? key with
      | none => simp
      | some segment =>
          have hbelow := mem_chainsBelow node
          simp only [List.mem_cons, List.mem_map, hbelow, Option.some.injEq, exists_eq_left',
            eq_comm (a := c)]

end

/-! ### Their order -/

theorem Through.exists_address {i : Nat} {entries : List (Node × Node)} {c : KeyChain}
    (h : Through i entries c) : ∃ j rest, i ≤ j ∧ c.address = j :: rest := by
  obtain ⟨j, key, node, segment, -, -, rfl | ⟨d, -, rfl⟩⟩ := h
  · exact ⟨i + j, [], Nat.le_add_right i j, rfl⟩
  · exact ⟨i + j, d.address, Nat.le_add_right i j, rfl⟩

mutual

theorem pairwise_chainsBelow (n : Node) :
    (chainsBelow n).Pairwise fun c d => c.address < d.address := by
  cases n with
  | mapping entries =>
      rw [chainsBelow]
      exact pairwise_chainsOf 0 entries
  | _ => simp [chainsBelow]

theorem pairwise_chainsOf (i : Nat) (entries : List (Node × Node)) :
    (chainsOf i entries).Pairwise fun c d => c.address < d.address := by
  cases entries with
  | nil => simp [chainsOf]
  | cons e r =>
      obtain ⟨key, node⟩ := e
      have hr := pairwise_chainsOf (i + 1) r
      rw [chainsOf]
      cases hkey : keyText? key with
      | none => exact hr
      | some segment =>
          have hnode := pairwise_chainsBelow node
          refine List.pairwise_append.2 ⟨List.pairwise_cons.2 ⟨?_, ?_⟩, hr, ?_⟩
          · intro c hc
            obtain ⟨d, hd, rfl⟩ := List.mem_map.1 hc
            have hne := ((mem_chainsBelow node d).1 hd).address_ne_nil
            obtain ⟨j, rest, hd⟩ := List.exists_cons_of_ne_nil hne
            show [i] < i :: d.address
            rw [hd]
            exact List.cons_lt_cons_self.2 (List.nil_lt_cons j rest)
          · rw [List.pairwise_map]
            exact hnode.imp fun hlt => List.cons_lt_cons_self.2 hlt
          · -- the addresses of later entries start with a larger number
            intro c hc d hd
            obtain ⟨j, rest, hj, hd⟩ := ((mem_chainsOf (i + 1) r d).1 hd).exists_address
            have hc : ∃ start, c.address = i :: start := by
              rcases List.mem_cons.1 hc with rfl | hc
              · exact ⟨[], rfl⟩
              · obtain ⟨d, -, rfl⟩ := List.mem_map.1 hc
                exact ⟨d.address, rfl⟩
            obtain ⟨start, hc⟩ := hc
            rw [hc, hd]
            exact List.cons_lt_cons_iff.2 (.inl (by omega))

end

/-! ## The walk along the chains -/

theorem pathOf_snoc {keys : List String} {segment : String} (h : keys ≠ []) :
    pathOf (keys ++ [segment]) = pathOf keys ++ "." ++ normalName segment := by
  rw [pathOf, List.map_append, String.intercalate_append_of_ne_nil (by simpa using h) (by simp)]
  simp [pathOf]

theorem ne_empty_of_isValidName {name : String} (h : isValidName name = true) : name ≠ "" := by
  rintro rfl
  revert h
  decide

/-- The path of a key below a path that is a name, or below the root. -/
theorem childPath_pathOf {keys : List String} {segment : String}
    (h : keys = [] ∨ isValidName (pathOf keys) = true) :
    childPath (pathOf keys) segment = pathOf (keys ++ [segment]) := by
  rcases h with rfl | h
  · simp [pathOf, childPath]
  · have hne := ne_empty_of_isValidName h
    have hkeys : keys ≠ [] := by
      rintro rfl
      exact hne rfl
    rw [childPath, if_neg (by simpa using hne), pathOf_snoc hkeys]

/-- Behind some keys, each path on the way to the last of the further keys is a name. -/
def isOpen (done : List String) : List String → Bool
  | [] => true
  | [_] => true
  | key :: next :: keys =>
    isValidName (pathOf (done ++ [key])) && isOpen (done ++ [key]) (next :: keys)

theorem isOpen_cons {done keys : List String} {key : String} (h : keys ≠ []) :
    isOpen done (key :: keys)
      = (isValidName (pathOf (done ++ [key])) && isOpen (done ++ [key]) keys) := by
  obtain ⟨next, keys, rfl⟩ := List.exists_cons_of_ne_nil h
  rw [isOpen]

theorem isOpen_iff {done further : List String} : isOpen done further = true ↔
    ∀ keys, keys <+: further → keys ≠ [] → keys ≠ further →
      isValidName (pathOf (done ++ keys)) = true := by
  induction further generalizing done with
  | nil =>
      refine ⟨fun _ keys hkeys hne _ => ?_, fun _ => rfl⟩
      exact absurd (List.prefix_nil.1 hkeys) hne
  | cons key further ih =>
      by_cases hfurther : further = []
      · subst hfurther
        refine ⟨fun _ keys hkeys hne hproper => ?_, fun _ => rfl⟩
        obtain ⟨first, keys, rfl⟩ := List.exists_cons_of_ne_nil hne
        obtain ⟨rfl, hnil⟩ := List.cons_prefix_cons.1 hkeys
        rw [List.prefix_nil.1 hnil] at hproper
        exact absurd rfl hproper
      · rw [isOpen_cons hfurther, Bool.and_eq_true, ih]
        constructor
        · rintro ⟨hfirst, hrest⟩ keys hkeys hne hproper
          obtain ⟨first, keys, rfl⟩ := List.exists_cons_of_ne_nil hne
          obtain ⟨rfl, hrestKeys⟩ := List.cons_prefix_cons.1 hkeys
          by_cases hnil : keys = []
          · rw [hnil]
            exact hfirst
          · have h := hrest keys hrestKeys hnil fun h => hproper (congrArg _ h)
            rwa [List.append_assoc] at h
        · intro h
          refine ⟨?_, fun keys hkeys hne hproper => ?_⟩
          · refine h [key] (List.cons_prefix_cons.2 ⟨rfl, List.nil_prefix⟩) (by simp) ?_
            intro heq
            exact hfurther (List.cons.inj heq).2.symm
          · rw [List.append_assoc]
            refine h (key :: keys) (List.cons_prefix_cons.2 ⟨rfl, hkeys⟩) (by simp) ?_
            intro heq
            exact hproper (List.cons.inj heq).2

/-- What the walk finds at the end of a chain, behind some keys. -/
def findingOf (done : List String) (c : KeyChain) : Finding :=
  if isValidName (pathOf (done ++ c.keys)) then .setting (pathOf (done ++ c.keys)) c.node
  else .invalid (pathOf (done ++ c.keys))

theorem findingOf_under (done : List String) (i : Nat) (segment : String) (c : KeyChain) :
    findingOf done (c.under i segment) = findingOf (done ++ [segment]) c := by
  have hkeys : done ++ (c.under i segment).keys = done ++ [segment] ++ c.keys := by
    simp [KeyChain.under]
  rw [findingOf, findingOf, hkeys]
  rfl

section

variable {β : Type} (pick : Finding → Option β)

/-- What is picked out at the end of a chain, if the walk gets there. -/
def picked (done : List String) (c : KeyChain) : Option β :=
  if isOpen done c.keys then pick (findingOf done c) else none

variable {pick}

theorem picked_under {done : List String} {segment : String} {c : KeyChain} (hc : c.keys ≠ [])
    (i : Nat) : picked pick done (c.under i segment)
      = if isValidName (pathOf (done ++ [segment])) then picked pick (done ++ [segment]) c
        else none := by
  rw [picked, findingOf_under, picked]
  have hopen : isOpen done (c.under i segment).keys = _ := isOpen_cons hc
  rw [hopen]
  cases isValidName (pathOf (done ++ [segment])) <;> simp

mutual

/-- What is picked out of the findings comes from the ends of the chains that stay open. -/
theorem filterMap_findingsBelow (hpick : ∀ path key, pick (.unnamed path key) = none) (n : Node)
    {done : List String} (hdone : done = [] ∨ isValidName (pathOf done) = true) :
    (findingsBelow (pathOf done) n).filterMap pick
      = (chainsBelow n).filterMap (picked pick done) := by
  cases n with
  | mapping entries =>
      rw [findingsBelow, chainsBelow]
      exact filterMap_findingsOf hpick entries 0 hdone
  | _ => simp [findingsBelow, chainsBelow]

theorem filterMap_findingsOf (hpick : ∀ path key, pick (.unnamed path key) = none)
    (entries : List (Node × Node)) (i : Nat) {done : List String}
    (hdone : done = [] ∨ isValidName (pathOf done) = true) :
    (findingsOf (pathOf done) entries).filterMap pick
      = (chainsOf i entries).filterMap (picked pick done) := by
  cases entries with
  | nil => simp [findingsOf, chainsOf]
  | cons e r =>
      obtain ⟨key, node⟩ := e
      have hr := filterMap_findingsOf hpick r (i + 1) hdone
      rw [findingsOf, chainsOf, List.filterMap_append, List.filterMap_append, hr]
      refine congrArg (· ++ _) ?_
      cases hkey : keyText? key with
      | none => simp [hpick]
      | some segment =>
          have hunder : ∀ c ∈ chainsBelow node, (picked pick done ∘ (·.under i segment)) c = _ :=
            fun c hc => picked_under ((mem_chainsBelow node c).1 hc).keys_ne_nil i
          have hlast : picked pick done ⟨[i], [segment], node⟩
              = pick (findingOf done ⟨[i], [segment], node⟩) := if_pos rfl
          simp only [childPath_pathOf hdone]
          rw [List.filterMap_cons, hlast, List.filterMap_map, List.filterMap_congr hunder,
            findingOf]
          by_cases hvalid : isValidName (pathOf (done ++ [segment])) = true
          · have hnode := filterMap_findingsBelow hpick node (.inr hvalid)
            simp only [hvalid, if_true, List.filterMap_cons, hnode]
          · simp [hvalid, List.filterMap_cons]

end

end

/-! ## Settings and invalid paths -/

theorem filterMap_guard {α β : Type} (p : α → Bool) (f : α → β) (as : List α) :
    as.filterMap (fun a => if p a then some (f a) else none) = (as.filter p).map f := by
  induction as with
  | nil => rfl
  | cons a as ih => cases hp : p a <;> simp [hp, ih]

/-- The chains of the settings. -/
def namedChains (root : Node) : List KeyChain :=
  (chainsBelow root).filter fun c => isOpen [] c.keys && isValidName (pathOf c.keys)

/-- The chains of the invalid paths. -/
def refusedChains (root : Node) : List KeyChain :=
  (chainsBelow root).filter fun c => isOpen [] c.keys && !isValidName (pathOf c.keys)

theorem flatten_eq (root : Node) :
    flatten root = (namedChains root).map fun c => (pathOf c.keys, c.node) := by
  have hpick : ∀ path key, Finding.setting? (.unnamed path key) = none := fun _ _ => rfl
  have h := filterMap_findingsBelow hpick root (.inl rfl)
  rw [flatten, findings, namedChains, ← filterMap_guard]
  refine h.trans (congrArg (fun f => (chainsBelow root).filterMap f) (funext fun c => ?_))
  rw [picked, findingOf, List.nil_append]
  cases isOpen [] c.keys <;> cases isValidName (pathOf c.keys) <;> rfl

theorem invalidPaths_eq (root : Node) :
    invalidPaths root = (refusedChains root).map fun c => pathOf c.keys := by
  have hpick : ∀ path key, Finding.invalid? (.unnamed path key) = none := fun _ _ => rfl
  have h := filterMap_findingsBelow hpick root (.inl rfl)
  rw [invalidPaths, findings, refusedChains, ← filterMap_guard]
  refine h.trans (congrArg (fun f => (chainsBelow root).filterMap f) (funext fun c => ?_))
  rw [picked, findingOf, List.nil_append]
  cases isOpen [] c.keys <;> cases isValidName (pathOf c.keys) <;> rfl

theorem KeyChain.named_iff {c : KeyChain} (hc : c.keys ≠ []) :
    c.Named ↔ isOpen [] c.keys = true ∧ isValidName (pathOf c.keys) = true := by
  rw [isOpen_iff]
  constructor
  · intro h
    exact ⟨fun keys hkeys hne _ => h keys hkeys hne, h c.keys List.prefix_rfl hc⟩
  · rintro ⟨hopen, hvalid⟩ keys hkeys hne
    by_cases hproper : keys = c.keys
    · rw [hproper]
      exact hvalid
    · exact hopen keys hkeys hne hproper

theorem KeyChain.refused_iff {c : KeyChain} :
    c.Refused ↔ isOpen [] c.keys = true ∧ isValidName (pathOf c.keys) = false := by
  rw [isOpen_iff]
  exact and_comm

theorem KeyChain.lists_filter {root : Node} {property : KeyChain → Prop} {p : KeyChain → Bool}
    (h : ∀ c : KeyChain, c.keys ≠ [] → (p c = true ↔ property c)) :
    KeyChain.Lists root property ((chainsBelow root).filter p) where
  mem c := by
    rw [List.mem_filter, mem_chainsBelow]
    exact and_congr_right fun hc => h c hc.keys_ne_nil
  ordered := (pairwise_chainsBelow root).filter p

theorem lists_namedChains (root : Node) : KeyChain.Lists root KeyChain.Named (namedChains root) :=
  KeyChain.lists_filter fun c hc => by rw [KeyChain.named_iff hc, Bool.and_eq_true]

theorem lists_refusedChains (root : Node) :
    KeyChain.Lists root KeyChain.Refused (refusedChains root) :=
  KeyChain.lists_filter fun c _ => by simp [KeyChain.refused_iff]

/-! ## The report -/

namespace State

theorem invalid_applySetting (assign : Assign) (done : State × LoadReport)
    (setting : String × Node) : (applySetting assign done setting).2.invalid = done.2.invalid := by
  obtain ⟨s, r⟩ := done
  obtain ⟨name, node⟩ := setting
  simp only [applySetting]
  split
  · rfl
  · split <;> rfl

theorem invalid_foldl_applySetting (assign : Assign) (settings : List (String × Node))
    (done : State × LoadReport) :
    (settings.foldl (applySetting assign) done).2.invalid = done.2.invalid := by
  induction settings generalizing done with
  | nil => rfl
  | cons setting settings ih => rw [List.foldl_cons, ih, invalid_applySetting]

/-- Whatever the listeners do, the report has the invalid paths of the document. -/
theorem invalid_load (s : State) (document : Node) :
    (s.load document).2.invalid = invalidPaths document :=
  invalid_foldl_applySetting assign (flatten document) _

end State

/-- Flattening a document that is a mapping gives the settings of the chains that make names all
along, and its report has the paths of the chains that fail to with their last key; each of these
chains counts once, and both lists have the order of the document. Nothing lies below an invalid
path or behind a key without a text. Any other document has neither settings nor invalid paths. -/
theorem flatten_chains (root : Node) :
    ((∀ entries, root ≠ .mapping entries) → flatten root = []) ∧
    ∃ named refused : List KeyChain,
      KeyChain.Lists root KeyChain.Named named ∧
      KeyChain.Lists root KeyChain.Refused refused ∧
      flatten root = named.map (fun c => (pathOf c.keys, c.node)) ∧
      (∀ s : State, (s.load root).2.invalid = refused.map fun c => pathOf c.keys) ∧
      (∀ d ∈ refused, ∀ c ∈ named ++ refused, d.address <+: c.address → d = c) ∧
      ∀ address, Unnamed root address → ∀ c ∈ named ++ refused, ¬ address <+: c.address := by
  have hnamed := lists_namedChains root
  have hrefused := lists_refusedChains root
  have hfrom : ∀ c ∈ namedChains root ++ refusedChains root, c.From root := by
    intro c hc
    rcases List.mem_append.1 hc with hc | hc
    · exact ((hnamed.mem c).1 hc).1
    · exact ((hrefused.mem c).1 hc).1
  have hopen : ∀ c ∈ namedChains root ++ refusedChains root, ∀ keys, keys <+: c.keys →
      keys ≠ [] → keys ≠ c.keys → isValidName (pathOf keys) = true := by
    intro c hc keys hkeys hne hproper
    rcases List.mem_append.1 hc with hc | hc
    · exact ((hnamed.mem c).1 hc).2 keys hkeys hne
    · exact ((hrefused.mem c).1 hc).2.2 keys hkeys hne hproper
  refine ⟨?_, namedChains root, refusedChains root, hnamed, hrefused, flatten_eq root, ?_, ?_, ?_⟩
  · intro hroot
    cases root with
    | mapping entries => exact absurd rfl (hroot entries)
    | _ => rfl
  · intro s
    rw [s.invalid_load, invalidPaths_eq]
  · -- a chain that goes further would have to be open at the keys that make no name
    intro d hd c hc hprefix
    obtain ⟨hdroot, hinvalid, -⟩ := (hrefused.mem d).1 hd
    obtain ⟨hkeys, heq⟩ := hdroot.prefix_keys (hfrom c hc) hprefix
    by_cases hsame : d.keys = c.keys
    · exact heq hsame
    · have hvalid := hopen c hc d.keys hkeys hdroot.keys_ne_nil hsame
      rw [hvalid] at hinvalid
      cases hinvalid
  · intro address haddress c hc
    exact (hfrom c hc).not_past_unnamed haddress

/-- Keys in two cases, with a dot inside, and of two kinds with one text; two that make no names, a
key without a text, and a mapping under a tag. -/
def tangled : Node := .mapping [
  (.string "System", .mapping [
    (.string "Port", .integer 80),
    (.string "bad-key", .mapping [(.string "below", .null)]),
    (.null, .mapping [(.string "hidden", .null)])]),
  (.integer 80, .bool true),
  (.string "80", .tagged "t" (.mapping [(.string "inside", .null)])),
  (.string "system.port", .null),
  (.string "", .null)]

theorem flatten_chains_tangled :
    flatten (.sequence [tangled]) = [] ∧
    ∃ named refused : List KeyChain,
      KeyChain.Lists tangled KeyChain.Named named ∧
      KeyChain.Lists tangled KeyChain.Refused refused ∧
      named.map (fun c => pathOf c.keys) = ["system", "system.port", "80", "80", "system.port"] ∧
      refused.map (fun c => pathOf c.keys) = ["system.bad-key", ""] ∧
      ∀ c ∈ named ++ refused, ¬ [0, 2] <+: c.address := by
  obtain ⟨hother, -⟩ := flatten_chains (.sequence [tangled])
  obtain ⟨-, named, refused, hnamed, hrefused, hflatten, hinvalid, -, hunnamed⟩ :=
    flatten_chains tangled
  have hnames : (flatten tangled).map (·.1)
      = ["system", "system.port", "80", "80", "system.port"] := by decide
  have hpaths : invalidPaths tangled = ["system.bad-key", ""] := by decide
  have hkey : Unnamed tangled [0, 2] := .deeper rfl (.entry rfl rfl)
  refine ⟨hother (by simp), named, refused, hnamed, hrefused, ?_, ?_, hunnamed [0, 2] hkey⟩
  · rw [← hnames, hflatten, List.map_map]
    rfl
  · rw [← hinvalid { logging := { files := .start [] } }, State.invalid_load, hpaths]

end ConfigLog.Config
