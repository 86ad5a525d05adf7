import ConfigLog.Proofs.Config.Chains
import ConfigLog.Proofs.Config.Reloading

set_option autoImplicit false

/-! # What a clean report leaves out

Each entry of a document is a setting, or lies at or below a path that is no name, or at or below a
key without a text (`Entry.accounted`). The report has the paths, and the settings that a variable
could not take, but not the keys without texts. So a clean report tells of all entries but those
(`isClean_iff`).
-/

namespace ConfigLog.Config

/-! ## Entries -/

/-- There is an entry at the address: each place of it but the last one has a mapping. -/
inductive Entry : Node → List Nat → Prop
  | entry {entries : List (Node × Node)} {i : Nat} {key node : Node}
      (hentry : entries[i]? = some (key, node)) : Entry (.mapping entries) [i]
  | deeper {entries : List (Node × Node)} {i : Nat} {key inner : Node} {address : List Nat}
      (hentry : entries[i]? = some (key, inner)) (h : Entry inner address) :
      Entry (.mapping entries) (i :: address)

/-- Flattening the document gives a setting for the entry at the address. -/
def Flattened (root : Node) (address : List Nat) : Prop :=
  ∃ named : List KeyChain, KeyChain.Lists root KeyChain.Named named ∧
    flatten root = named.map (fun c => (pathOf c.keys, c.node)) ∧ ∃ c ∈ named, c.address = address

variable {n root : Node} {c d : KeyChain} {address : List Nat}

theorem flattened_iff :
    Flattened root address ↔ ∃ c : KeyChain, c.From root ∧ c.Named ∧ c.address = address := by
  constructor
  · rintro ⟨named, hnamed, -, c, hc, haddress⟩
    obtain ⟨hfrom, hname⟩ := (hnamed.mem c).1 hc
    exact ⟨c, hfrom, hname, haddress⟩
  · rintro ⟨c, hfrom, hname, haddress⟩
    have hnamed := lists_namedChains root
    exact ⟨_, hnamed, flatten_eq root, c, (hnamed.mem c).2 ⟨hfrom, hname⟩, haddress⟩

theorem KeyChain.From.entry_address (h : c.From n) : Entry n c.address := by
  induction h with
  | entry hentry => exact .entry hentry
  | deeper hentry _ _ ih => exact .deeper hentry ih

theorem Unnamed.entry_address (h : Unnamed n address) : Entry n address := by
  induction h with
  | entry hentry => exact .entry hentry
  | deeper hentry _ ih => exact .deeper hentry ih

/-- A chain leads to the entry unless there is a key without a text on the way. -/
theorem Entry.cases_keys (h : Entry n address) :
    (∃ c : KeyChain, c.From n ∧ c.address = address) ∨
    ∃ above, Unnamed n above ∧ above <+: address := by
  induction h with
  | @entry entries i key node hentry =>
      cases hkey : keyText? key with
      | none => exact .inr ⟨[i], .entry hentry hkey, List.prefix_rfl⟩
      | some segment => exact .inl ⟨_, .entry hentry hkey, rfl⟩
  | @deeper entries i key inner address hentry h ih =>
      cases hkey : keyText? key with
      | none =>
          refine .inr ⟨[i], .entry hentry hkey, ?_⟩
          exact List.cons_prefix_cons.2 ⟨rfl, List.nil_prefix⟩
      | some segment =>
          rcases ih with ⟨c, hc, rfl⟩ | ⟨above, habove, hstart⟩
          · exact .inl ⟨_, .deeper hentry hkey hc, rfl⟩
          · exact .inr ⟨i :: above, .deeper hentry habove, List.cons_prefix_cons.2 ⟨rfl, hstart⟩⟩

/-! ## Where the names end -/

/-- The first keys of a chain make a chain. -/
theorem KeyChain.From.exists_start (h : c.From n) {keys : List String} (hkeys : keys <+: c.keys)
    (hne : keys ≠ []) : ∃ d : KeyChain, d.From n ∧ d.keys = keys ∧ d.address <+: c.address := by
  induction h generalizing keys with
  | entry hentry hkey =>
      obtain ⟨first, keys, rfl⟩ := List.exists_cons_of_ne_nil hne
      obtain ⟨rfl, hnil⟩ := List.cons_prefix_cons.1 hkeys
      obtain rfl := List.prefix_nil.1 hnil
      exact ⟨_, .entry hentry hkey, rfl, List.prefix_rfl⟩
  | deeper hentry hkey h ih =>
      obtain ⟨first, keys, rfl⟩ := List.exists_cons_of_ne_nil hne
      obtain ⟨rfl, hrest⟩ := List.cons_prefix_cons.1 hkeys
      by_cases hnil : keys = []
      · subst hnil
        exact ⟨_, .entry hentry hkey, rfl, List.cons_prefix_cons.2 ⟨rfl, List.nil_prefix⟩⟩
      · obtain ⟨d, hd, rfl, hstart⟩ := ih hrest hnil
        exact ⟨_, .deeper hentry hkey hd, rfl, List.cons_prefix_cons.2 ⟨rfl, hstart⟩⟩

/-- A chain whose paths are not all names goes on from one that fails with its last key. -/
theorem KeyChain.From.exists_refused (hc : c.From n) (hnot : ¬ c.Named) :
    ∃ d : KeyChain, d.From n ∧ d.Refused ∧ d.address <+: c.address := by
  induction hlength : c.keys.length using Nat.strong_induction_on generalizing c with
  | _ length ih =>
      subst hlength
      by_cases hopen : isOpen [] c.keys = true
      · have hinvalid : isValidName (pathOf c.keys) = false := by
          rw [KeyChain.named_iff hc.keys_ne_nil] at hnot
          exact Bool.eq_false_iff.2 fun hvalid => hnot ⟨hopen, hvalid⟩
        exact ⟨c, hc, KeyChain.refused_iff.2 ⟨hopen, hinvalid⟩, List.prefix_rfl⟩
      · -- a path on the way is no name, and there is a shorter chain for it
        rw [isOpen_iff] at hopen
        push Not at hopen
        obtain ⟨keys, hkeys, hne, hproper, hinvalid⟩ := hopen
        obtain ⟨d, hd, rfl, hstart⟩ := hc.exists_start hkeys hne
        have hshorter : d.keys.length < c.keys.length :=
          Nat.lt_of_le_of_ne hkeys.length_le fun h => hproper (hkeys.eq_of_length h)
        obtain ⟨e, he, hrefused, hstart'⟩ :=
          ih d.keys.length hshorter hd (fun h => hinvalid (h d.keys List.prefix_rfl hne)) rfl
        exact ⟨e, he, hrefused, hstart'.trans hstart⟩

/-- No entry is lost: it is a setting, or what keeps it from being one is above it or in its own
place. -/
theorem Entry.accounted (h : Entry root address) :
    Flattened root address ∨
    (∃ d : KeyChain, d.From root ∧ d.Refused ∧ d.address <+: address) ∨
    ∃ above, Unnamed root above ∧ above <+: address := by
  rcases h.cases_keys with ⟨c, hc, rfl⟩ | hunnamed
  · by_cases hname : c.Named
    · exact .inl (flattened_iff.2 ⟨c, hc, hname, rfl⟩)
    · exact .inr (.inl (hc.exists_refused hname))
  · exact .inr (.inr hunnamed)

theorem not_flattened_of_unnamed {above : List Nat} (h : Unnamed root above)
    (hstart : above <+: address) : ¬ Flattened root address := by
  rw [flattened_iff]
  rintro ⟨c, hc, -, rfl⟩
  exact hc.not_past_unnamed h hstart

theorem KeyChain.From.not_flattened (hd : d.From root) (hrefused : d.Refused)
    (hstart : d.address <+: address) : ¬ Flattened root address := by
  rw [flattened_iff]
  rintro ⟨c, hc, hname, rfl⟩
  have hkeys := (hd.prefix_keys hc hstart).1
  have hvalid := hname d.keys hkeys hd.keys_ne_nil
  rw [hrefused.1] at hvalid
  cases hvalid

/-! ## The report -/

/-- The document has no invalid paths if and only if each entry is a setting or has a key without a
text on the way to it. -/
theorem invalidPaths_eq_nil_iff (root : Node) : invalidPaths root = [] ↔
    ∀ address, Entry root address →
      Flattened root address ∨ ∃ above, Unnamed root above ∧ above <+: address := by
  have hrefused := lists_refusedChains root
  rw [invalidPaths_eq, List.map_eq_nil_iff, List.eq_nil_iff_forall_not_mem]
  constructor
  · intro h address hentry
    rcases hentry.accounted with hflat | ⟨d, hd, hinvalid, -⟩ | hunnamed
    · exact .inl hflat
    · exact absurd ((hrefused.mem d).2 ⟨hd, hinvalid⟩) (h d)
    · exact .inr hunnamed
  · intro h d hmem
    obtain ⟨hd, hinvalid⟩ := (hrefused.mem d).1 hmem
    rcases h d.address hd.entry_address with hflat | ⟨above, habove, hstart⟩
    · exact hd.not_flattened hinvalid List.prefix_rfl hflat
    · exact hd.not_past_unnamed habove hstart

namespace State

/-- Every setting of the document that has a registered name can be converted for its variable. -/
def Converts (s : State) (root : Node) : Prop :=
  ∀ name node v x, (name, node) ∈ flatten root → s.Registers name v x →
    ∃ value, x.kind.ofNode node = .ok value

variable {s : State}

theorem refusal?_eq_none_iff {name : String} {node : Node} :
    s.refusal? (name, node) = none ↔
      ∀ v x, s.Registers name v x → ∃ value, x.kind.ofNode node = .ok value := by
  constructor
  · rintro h v x ⟨hlookup, hx⟩
    cases hread : x.kind.ofNode node with
    | error e => simp [refusal?, hlookup, hx, hread] at h
    | ok value => exact ⟨value, rfl⟩
  · intro h
    cases hlookup : s.names.lookup name with
    | none => simp [refusal?, hlookup]
    | some v =>
        cases hx : s.vars[v]? with
        | none => simp [refusal?, hlookup, hx]
        | some x =>
            obtain ⟨value, hread⟩ := h v x ⟨hlookup, hx⟩
            simp [refusal?, hlookup, hx, hread]

theorem failed_eq_nil_iff (s : State) (root : Node) :
    (s.load root).2.failed = [] ↔ s.Converts root := by
  rw [load_failed, List.filterMap_eq_nil_iff]
  constructor
  · intro h name node v x hmem
    exact refusal?_eq_none_iff.1 (h (name, node) hmem) v x
  · rintro h ⟨name, node⟩ hmem
    exact refusal?_eq_none_iff.2 fun v x => h name node v x hmem

/-- A report is clean if and only if all settings could be converted and each entry is a setting or
has a key without a text on the way to it. So nothing at all was passed over or turned down if and
only if the report is clean and there are no such keys. -/
theorem isClean_iff (s : State) (root : Node) :
    ((s.load root).2.isClean = true ↔
      (∀ address, Entry root address →
        Flattened root address ∨ ∃ above, Unnamed root above ∧ above <+: address) ∧
      s.Converts root) ∧
    ((∀ address, Entry root address → Flattened root address) ∧ s.Converts root ↔
      (s.load root).2.isClean = true ∧ ∀ address, ¬ Unnamed root address) := by
  have hclean : (s.load root).2.isClean = true ↔
      (∀ address, Entry root address →
        Flattened root address ∨ ∃ above, Unnamed root above ∧ above <+: address) ∧
      s.Converts root := by
    rw [LoadReport.isClean, Bool.and_eq_true, List.isEmpty_iff, List.isEmpty_iff, invalid_load,
      invalidPaths_eq_nil_iff, failed_eq_nil_iff]
  refine ⟨hclean, ?_⟩
  rw [hclean]
  constructor
  · rintro ⟨hall, hconverts⟩
    refine ⟨⟨fun address hentry => .inl (hall address hentry), hconverts⟩, fun address h => ?_⟩
    exact not_flattened_of_unnamed h List.prefix_rfl (hall address h.entry_address)
  · rintro ⟨⟨hall, hconverts⟩, hnone⟩
    refine ⟨fun address hentry => ?_, hconverts⟩
    rcases hall address hentry with hflat | ⟨above, habove, -⟩
    · exact hflat
    · exact absurd habove (hnone above)

/-- A key without a text does not keep the report from being clean. -/
theorem not_forall_isClean_iff : ¬ ∀ (s : State) (entries : List (Node × Node)),
    ((s.load (.mapping entries)).2.isClean = true ↔
      (∀ address, Entry (.mapping entries) address → Flattened (.mapping entries) address) ∧
      s.Converts (.mapping entries)) := by
  intro h
  have hiff := h { logging := { files := .start [] } } [(.null, .string "7")]
  have hunnamed : Unnamed (.mapping [(.null, .string "7")]) [0] := .entry rfl rfl
  refine not_flattened_of_unnamed hunnamed List.prefix_rfl ?_
  exact (hiff.1 (by decide)).1 [0] hunnamed.entry_address

end State

end ConfigLog.Config
