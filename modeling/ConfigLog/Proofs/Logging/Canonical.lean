import ConfigLog.Proofs.Logging.Encoding
import ConfigLog.Proofs.Logging.Sameness
import ConfigLog.Proofs.Tree.Reading
import Mathlib.Data.List.Induction

set_option autoImplicit false

/-! # Sets of definitions that come back from their trees

A set of definitions is canonical when no name is blank, no pattern of an appender is empty and no
file has the empty path. These are the sets that are read back from their trees as they are, and no
other sets are ever read: each tree that is read at all gives a canonical set, which has for every
name the last one of the definitions that the tree lists under it (`reads_back`).
-/

namespace ConfigLog

/-! ## Paths without components -/

namespace Files.Path

/-- The empty path is the only one without components. -/
theorem components_eq_nil_iff {path : String} : components path = [] ↔ path = "" := by
  rw [← String.toList_eq_nil_iff]
  unfold components
  cases hcs : path.toList with
  | nil => simp [parts, component?]
  | cons c cs =>
      by_cases hslash : c = '/'
      · simp [hslash]
      · -- the first part has a character, so it stands for a component
        obtain ⟨p, ps, hparts⟩ : ∃ p ps, parts (c :: cs) = (c :: p) :: ps := by
          unfold parts
          split
          · rename_i heq
            cases heq
          · rename_i heq
            cases heq
            exact absurd rfl hslash
          · rename_i d r _ heq
            cases heq
            cases parts cs with
            | nil => exact ⟨[], [], rfl⟩
            | cons p ps => exact ⟨p, ps, rfl⟩
        by_cases hdot : (c :: p) = ['.']
        · simp [hparts, hslash, hdot]
        · have hsome : ∃ x, component? (c :: p) = some x := by
            unfold component?
            rw [if_neg (by simpa using hdot)]
            split <;> exact ⟨_, rfl⟩
          obtain ⟨x, hx⟩ := hsome
          simp [hparts, hslash, hx]

end Files.Path

namespace Logging

open Reading

/-! ## Canonical definitions -/

/-- Neither the pattern nor the path of the appender is empty, if it has one. -/
structure AppenderDefinition.Canonical (a : AppenderDefinition) : Prop where
  pattern : a.pattern ≠ some ""
  path : a.destination ≠ .file ""

/-- The name is not blank, and the appenders are canonical. -/
structure Definition.Canonical (d : Definition) : Prop where
  name : Text.isBlankText d.name = false
  appenders : ∀ a ∈ d.appenders, a.Canonical

/-- All definitions of the set are canonical. -/
def Definitions.Canonical (ds : Definitions) : Prop := ∀ d ∈ ds.toList, d.Canonical

/-- What asks for the same as a canonical appender is canonical. -/
theorem AppenderDefinition.canonical_of_same {a b : AppenderDefinition} (h : a.same b = true)
    (ha : a.Canonical) : b.Canonical := by
  have hmeaning := AppenderDefinition.same_iff.1 h
  have hpattern : a.pattern = b.pattern := congrArg (·.2.2) hmeaning
  have hdestination : a.destination.meaning = b.destination.meaning := congrArg (·.1) hmeaning
  refine ⟨hpattern ▸ ha.pattern, fun hb => ?_⟩
  rw [hb] at hdestination
  cases hpath : a.destination with
  | stdout =>
      rw [hpath] at hdestination
      cases hdestination
  | file path =>
      rw [hpath] at hdestination
      have hnil := Option.some.inj hdestination
      rw [Files.Path.components_eq_nil_iff.2 rfl, Files.Path.components_eq_nil_iff] at hnil
      exact ha.path (hnil ▸ hpath)

theorem exists_same_of_mem_appenders {as bs : List AppenderDefinition}
    (h : sameAppenders as bs = true) {b : AppenderDefinition} (hb : b ∈ bs) :
    ∃ a ∈ as, a.same b = true := by
  have hmem : b.meaning ∈ as.map (·.meaning) := by
    rw [sameAppenders_iff.1 h]
    exact List.mem_map_of_mem hb
  obtain ⟨a, ha, hab⟩ := List.mem_map.1 hmem
  exact ⟨a, ha, AppenderDefinition.same_iff.2 hab⟩

theorem Definition.canonical_of_same {d e : Definition} (h : d.same e = true)
    (hd : d.Canonical) : e.Canonical := by
  refine ⟨name_of_same h ▸ hd.name, fun b hb => ?_⟩
  obtain ⟨a, ha, hab⟩ := exists_same_of_mem_appenders (appenders_of_same h) hb
  exact AppenderDefinition.canonical_of_same hab (hd.appenders a ha)

/-! ## What is read is canonical -/

theorem AppenderFields.canonical_toDefinition {f : AppenderFields} {a : AppenderDefinition}
    (h : f.toDefinition = .ok a) : a.Canonical := by
  have hpattern : f.pattern.filter (· != "") ≠ some "" :=
    filter_ne_empty_iff.1 (filter_filter_ne_empty f.pattern)
  obtain ⟨type, -, h⟩ := bind_eq_ok h
  simp only at h
  split at h
  · obtain rfl := Except.ok.inj h
    exact ⟨hpattern, fun hpath => Destination.noConfusion hpath⟩
  · split at h
    · split at h
      · rename_i path _
        split at h
        · cases h
        · rename_i hempty
          obtain rfl := Except.ok.inj h
          refine ⟨hpattern, fun hpath => hempty ?_⟩
          rw [Destination.file.inj hpath]
          rfl
      · cases h
    · cases h

theorem AppenderDefinition.canonical_ofNode {n : Node} {a : AppenderDefinition}
    (h : ofNode n = .ok a) : a.Canonical := by
  obtain ⟨f, -, h⟩ := bind_eq_ok h
  exact AppenderFields.canonical_toDefinition h

theorem LoggerFields.canonical_step {f g : LoggerFields} {name : String} {value : Node}
    (h : f.step name value = .ok g) (hf : ∀ a ∈ f.appenders, a.Canonical) :
    ∀ a ∈ g.appenders, a.Canonical := by
  unfold step at h
  split at h
  · obtain ⟨_, -, h⟩ := bind_eq_ok h
    exact Except.ok.inj h ▸ hf
  · split at h
    · obtain ⟨_, -, h⟩ := bind_eq_ok h
      exact Except.ok.inj h ▸ hf
    · split at h
      · obtain ⟨_, -, h⟩ := bind_eq_ok h
        exact Except.ok.inj h ▸ hf
      · obtain ⟨as, has, h⟩ := bind_eq_ok h
        obtain rfl := Except.ok.inj h
        rcases Record.items_eq_ok_iff.1 has with ⟨-, rfl⟩ | ⟨ns, -, hread⟩
        · exact fun a ha => absurd ha List.not_mem_nil
        · intro a ha
          obtain ⟨n, -, hn⟩ := exists_of_mem hread a ha
          exact AppenderDefinition.canonical_ofNode hn

theorem Definition.canonical_appenders_ofNode {n : Node} {d : Definition} (h : ofNode n = .ok d) :
    ∀ a ∈ d.appenders, a.Canonical := by
  obtain ⟨f, hread, h⟩ := bind_eq_ok h
  obtain ⟨name, -, h⟩ := bind_eq_ok h
  obtain rfl := Except.ok.inj h
  exact Record.read_keeps LoggerFields.canonical_step hread fun a ha => absurd ha List.not_mem_nil

namespace Definitions

/-! ## What a tree lists -/

/-- The definitions that a tree lists, one after the other. Null lists none. -/
def Listed (n : Node) (given : List Definition) : Prop :=
  (n.untagged = .null ∧ given = []) ∨
    ∃ ns, n.untagged = .sequence ns ∧
      List.Forall₂ (fun n d => Definition.ofNode n = .ok d) ns given

/-- The last definition of a name in a list. -/
def last? (given : List Definition) (name : String) : Option Definition :=
  (given.filter (·.name == name)).getLast?

/-- Of the definitions with the same name the last one counts. -/
theorem get?_ofList (given : List Definition) (name : String) :
    (ofList given).get? name = last? given name := by
  induction given using List.reverseRecOn with
  | nil => rfl
  | append_singleton given d ih =>
      have hinsert : ofList (given ++ [d]) = (ofList given).insert d := List.foldl_concat ..
      rw [hinsert, get?_insert, ih, last?, last?, List.filter_append]
      by_cases hd : d.name = name
      · rw [if_pos hd, List.filter_cons_of_pos (by simpa using hd), List.filter_nil,
          List.getLast?_concat]
      · rw [if_neg hd, List.filter_cons_of_neg (by simpa using hd), List.filter_nil,
          List.append_nil]

theorem mem_ofList {given : List Definition} {d : Definition} (h : d ∈ (ofList given).toList) :
    d ∈ given := by
  have hlast := get?_name_of_mem h
  rw [get?_ofList] at hlast
  exact List.mem_of_mem_filter (List.mem_of_getLast? hlast)

variable {n : Node} {ds : Definitions}

theorem listed_iff {given : List Definition} :
    Listed n given ↔ Record.items Definition.ofNode n = .ok given :=
  Record.items_eq_ok_iff.symm

/-- Null is read like any other tree that lists nothing. -/
theorem ofNode_eq (n : Node) :
    ofNode n = match Record.items Definition.ofNode n with
      | .error e => .error (.record e)
      | .ok given =>
        if given.any fun d => Text.isBlankText d.name then .error .nameless
        else .ok (ofList given) := by
  cases n <;> rfl

/-- A tree is read as a set if it lists definitions whose names are not blank, and then the set has
for each name the last one. -/
theorem ofNode_eq_ok_iff : ofNode n = .ok ds ↔ ∃ given, Listed n given ∧
    (∀ d ∈ given, Text.isBlankText d.name = false) ∧ ∀ name, ds.get? name = last? given name := by
  rw [ofNode_eq]
  constructor
  · intro h
    split at h
    · cases h
    · rename_i given hgiven
      split at h
      · cases h
      · rename_i hblank
        obtain rfl := Except.ok.inj h
        exact ⟨given, listed_iff.2 hgiven, by simpa using hblank, get?_ofList given⟩
  · rintro ⟨given, hgiven, hblank, hget⟩
    have hany : (given.any fun d => Text.isBlankText d.name) = false := by
      simpa [List.any_eq_false] using hblank
    have hset : ofList given = ds := ext_get? fun name => by rw [get?_ofList, hget]
    rw [listed_iff.1 hgiven]
    simp only [hany, Bool.false_eq_true, if_false, hset]

theorem canonical_ofNode (h : ofNode n = .ok ds) : ds.Canonical := by
  obtain ⟨given, hgiven, hblank, hget⟩ := ofNode_eq_ok_iff.1 h
  have hread : ∀ d ∈ given, ∀ a ∈ d.appenders, a.Canonical := by
    rcases hgiven with ⟨-, rfl⟩ | ⟨ns, -, hns⟩
    · exact fun d hd => absurd hd List.not_mem_nil
    · intro d hd
      obtain ⟨m, -, hm⟩ := exists_of_mem hns d hd
      exact Definition.canonical_appenders_ofNode hm
  obtain rfl : ofList given = ds := ext_get? fun name => by rw [get?_ofList, hget]
  exact fun d hd => ⟨hblank d (mem_ofList hd), hread d (mem_ofList hd)⟩

/-- A canonical set is read back from its tree as it is. -/
theorem ofNode_toNode_of_canonical (h : ds.Canonical) : ofNode ds.toNode = .ok ds := by
  have hnames : ¬ ds.Names "" := by
    rintro ⟨d, hd, a, ha, hpath⟩
    exact ((h d hd).appenders a ha).path hpath
  have hblank : (ds.toList.any fun d => Text.isBlankText d.name) = false := by
    simpa [List.any_eq_false] using fun d hd => (h d hd).name
  have hreread : ds.reread = ds := ext_toList <| map_eq_self_iff.2 fun d hd => by
    have happenders : d.appenders.map (·.pruned) = d.appenders :=
      map_eq_self_iff.2 fun a ha =>
        a.pruned_eq_self_iff.2 ((h d hd).appenders a ha).pattern
    rw [Definition.reread, happenders]
  rw [ofNode_toNode hnames, hblank, if_neg Bool.false_ne_true, hreread]

theorem canonical_of_same {es : Definitions} (h : es.same ds = true) (hes : es.Canonical) :
    ds.Canonical := by
  intro d hd
  obtain ⟨e, he, hde⟩ := exists_same_of_mem (same_iff.2 (same_iff.1 h).symm) hd
  exact Definition.canonical_of_same (Definition.same_iff.2 (Definition.same_iff.1 hde).symm)
    (hes e he)

/-- A set is read back from its tree, be it as it is or as one that asks for the same, if and only if
it is canonical. What is read from any tree is canonical, so it comes back from its own tree. It has
each name once, with the last of the definitions that the tree lists under it. -/
theorem reads_back :
    (∀ ds : Definitions,
      (ofNode ds.toNode = .ok ds ↔ ds.Canonical) ∧
      ((∃ es, ofNode ds.toNode = .ok es ∧ es.same ds = true) ↔ ds.Canonical)) ∧
    ∀ (n : Node) (ds : Definitions), ofNode n = .ok ds →
      ds.Canonical ∧ ofNode ds.toNode = .ok ds ∧ (ds.toList.map (·.name)).Nodup ∧
      ∃ given, Listed n given ∧ ∀ name, ds.get? name = last? given name := by
  refine ⟨fun ds => ⟨⟨canonical_ofNode, ofNode_toNode_of_canonical⟩, ?_, fun h => ?_⟩,
    fun n ds h => ?_⟩
  · rintro ⟨es, hes, hsame⟩
    exact canonical_of_same hsame (canonical_ofNode hes)
  · exact ⟨ds, ofNode_toNode_of_canonical h, same_iff.2 rfl⟩
  · have hcanonical := canonical_ofNode h
    obtain ⟨given, hgiven, -, hget⟩ := ofNode_eq_ok_iff.1 h
    exact ⟨hcanonical, ofNode_toNode_of_canonical hcanonical, ds.nodup_names, given, hgiven, hget⟩

/-- A tree that lists a name twice, and an appender with an empty pattern. -/
def twiceNamed : Node := .sequence [
  .mapping [(.string "name", .string "web"), (.string "level", .string "info")],
  .mapping [(.string "name", .string "db"), (.string "level", .null)],
  .mapping [(.string "name", .string "web"), (.string "formatter", .string ""),
    (.string "appenders", .sequence [
      .mapping [(.string "type", .string "FileLogAppender"), (.string "file", .string "web.log"),
        (.string "level", .string " Warn "), (.string "formatter", .string "")]])]]

theorem reads_back_twiceNamed : ∃ ds, ofNode twiceNamed = .ok ds ∧
    ds.toList = [
      { name := "db" },
      { name := "web", pattern := some "", appenders := [{
          destination := .file "web.log", level := some .warn }] }] ∧
    ds.Canonical ∧ ofNode ds.toNode = .ok ds := by
  have hread : ofNode twiceNamed = .ok (ofList [
      { name := "web", level := some .info }, { name := "db" },
      { name := "web", pattern := some "", appenders := [{
          destination := .file "web.log", level := some .warn }] }]) := rfl
  obtain ⟨hcanonical, hstable, -⟩ := reads_back.2 twiceNamed _ hread
  exact ⟨_, hread, by decide, hcanonical, hstable⟩

end Definitions

end Logging

end ConfigLog
