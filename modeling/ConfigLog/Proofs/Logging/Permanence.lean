import ConfigLog.Proofs.Logging.Atomicity
import ConfigLog.Proofs.Logging.Export
import ConfigLog.Proofs.Logging.Operation
import ConfigLog.Proofs.Logging.Routing

set_option autoImplicit false

/-! # Loggers are permanent

No operation gives a name another logger or takes one away (`keeps_operate`), and what can give a
name its logger is told by `Enters`. In a sound state every manager is `Rooted`: its loggers bear
the names that they are listed under, and all but the root fall back to the root, so that a call
visits two loggers at most (`Visits`).
-/

namespace ConfigLog.Logging

/-- The operations that may list loggers under names. -/
def Operation.lists : Operation → Bool
  | .addManager | .obtain _ _ | .reconcile _ _ _ => true
  | _ => false

namespace State

variable {s t u : State} {m : ManagerId} {name : String}

/-! ## Loggers that a call visits -/

/-- A call visits a logger, and while the logger that it has come to accepts the event but has no
appenders, it goes on to the fallback. The appenders of the last one get the event. -/
inductive Visits (s : State) (level : Level) :
    LoggerId → List LoggerId → List AppenderId → Prop
  | refused {i : LoggerId} (h : (s.logger i).accepts level = false) : Visits s level i [i] []
  | served {i : LoggerId} (h : (s.logger i).accepts level = true)
    (ha : (s.logger i).appenders ≠ []) : Visits s level i [i] (s.logger i).appenders
  | dropped {i : LoggerId} (h : (s.logger i).accepts level = true)
    (ha : (s.logger i).appenders = []) (hf : (s.logger i).fallback = none) :
    Visits s level i [i] []
  | passed {i j : LoggerId} {is : List LoggerId} {as : List AppenderId}
    (h : (s.logger i).accepts level = true) (ha : (s.logger i).appenders = [])
    (hf : (s.logger i).fallback = some j) (rest : Visits s level j is as) :
    Visits s level i (i :: is) as

/-- What a call visits is determined. -/
theorem Visits.unique {level : Level} {i : LoggerId} {is js : List LoggerId}
    {as bs : List AppenderId} (h : s.Visits level i is as) (h' : s.Visits level i js bs) :
    js = is ∧ bs = as := by
  induction h generalizing js bs with
  | refused h | served h ha | dropped h ha hf => cases h' <;> simp_all
  | @passed i j is as h ha hf rest ih =>
      cases h' with
      | refused h' => rw [h] at h'; cases h'
      | served _ ha' => exact absurd ha ha'
      | dropped _ _ hf' => rw [hf] at hf'; cases hf'
      | @passed _ k js bs _ _ hf' rest' =>
          rw [hf] at hf'
          obtain rfl := Option.some.inj hf'
          obtain ⟨rfl, rfl⟩ := ih rest'
          exact ⟨rfl, rfl⟩

/-- Only a logger that accepts the event and has no appenders goes on to another one. -/
theorem visits_or_passes (s : State) (i : LoggerId) (level : Level) :
    s.Visits level i [i] (s.receivers i level) ∨
      (s.logger i).accepts level = true ∧ (s.logger i).appenders = [] := by
  cases h : (s.logger i).accepts level with
  | false =>
      rw [receivers_of_refused h]
      exact .inl (.refused h)
  | true =>
      by_cases ha : (s.logger i).appenders = []
      · exact .inr ⟨rfl, ha⟩
      · have hown : s.receivers i level = (s.logger i).appenders := by simp [receivers, h, ha]
        rw [hown]
        exact .inl (.served h ha)

/-- A call of a logger without a fallback visits nobody else. -/
theorem visits_of_fallback_eq_none {i : LoggerId} (hf : (s.logger i).fallback = none)
    (level : Level) : s.Visits level i [i] (s.receivers i level) := by
  rcases visits_or_passes s i level with hvisits | ⟨h, ha⟩
  · exact hvisits
  · have hnobody : s.receivers i level = [] := by simp [receivers, h, ha, hf]
    rw [hnobody]
    exact .dropped h ha hf

/-- A call of a logger whose fallback has none visits these two at most. -/
theorem visits_of_fallback {i j : LoggerId} (hf : (s.logger i).fallback = some j)
    (hj : (s.logger j).fallback = none) (level : Level) :
    s.Visits level i [i] (s.receivers i level) ∨ s.Visits level i [i, j] (s.receivers i level) := by
  rcases visits_or_passes s i level with hvisits | ⟨h, ha⟩
  · exact .inl hvisits
  · have hpassed : s.receivers i level = s.receivers j level := by
      simp only [receivers, h, ha, hf, hj]
      cases hempty : (s.logger j).appenders <;> cases (s.logger j).accepts level <;> rfl
    rw [hpassed]
    exact .inr (.passed h ha hf (visits_of_fallback_eq_none hj level))

/-! ## The loggers of a manager -/

/-- The loggers of a manager bear their names, each of which is exported once, and all of them but
the root fall back to the root, which ends every call. -/
structure Rooted (s : State) (m : ManagerId) : Prop where
  name : ∀ {name : String} {i : LoggerId}, (s.manager m).find? name = some i →
    (s.logger i).name = name
  defined : (s.definitions m).toList.map (·.name) = s.loggerNames m
  nodup : (s.loggerNames m).Nodup
  root : (s.manager m).find? rootName = some (s.manager m).root
  fallback_root : (s.logger (s.manager m).root).fallback = none
  fallback : ∀ {name : String} {i : LoggerId}, (s.manager m).find? name = some i →
    name ≠ rootName → (s.logger i).fallback = some (s.manager m).root
  /-- A call visits the logger alone, or the root as well, and nobody else. -/
  visits : ∀ {name : String} {i : LoggerId}, (s.manager m).find? name = some i → ∀ level : Level,
    ∃ visited, (visited = [i] ∨ visited = [i, (s.manager m).root]) ∧
      ∀ is as, s.Visits level i is as ↔ is = visited ∧ as = s.receivers i level

theorem Sound.nodup_loggerNames (hs : s.Sound) (m : ManagerId) : (s.loggerNames m).Nodup := by
  have hsorted : (s.loggerNames m).Pairwise (· < ·) := List.pairwise_map.2 (hs.sorted m)
  refine hsorted.imp ?_
  rintro a b hlt rfl
  exact String.lt_irrefl a hlt

/-- In a sound state every manager is in order. -/
theorem Sound.rooted (hs : s.Sound) (hm : m < s.managers.size) : s.Rooted m := by
  have hroot := hs.root m hm
  have hend : (s.logger (s.manager m).root).fallback = none := by rw [hs.fallback hroot, if_pos rfl]
  have hfallback : ∀ {name : String} {i : LoggerId}, (s.manager m).find? name = some i →
      name ≠ rootName → (s.logger i).fallback = some (s.manager m).root := by
    intro name i hf hname
    rw [hs.fallback hf, if_neg hname]
  constructor
  case name => exact hs.name
  case defined => exact hs.names_definitions m
  case nodup => exact hs.nodup_loggerNames m
  case root => exact hroot
  case fallback_root => exact hend
  case fallback => exact hfallback
  case visits =>
    intro name i hf level
    -- what a call visits is determined, so one way to visit loggers is the only one
    have hone : ∀ {visited}, s.Visits level i visited (s.receivers i level) →
        ∀ is as, s.Visits level i is as ↔ is = visited ∧ as = s.receivers i level := by
      intro visited h is as
      constructor
      · exact h.unique
      · rintro ⟨rfl, rfl⟩
        exact h
    by_cases hname : name = rootName
    · obtain rfl : (s.manager m).root = i := by
        rw [hname, hroot] at hf
        exact Option.some.inj hf
      exact ⟨_, .inl rfl, hone (visits_of_fallback_eq_none hend level)⟩
    · rcases visits_of_fallback (hfallback hf hname) hend level with h | h
      · exact ⟨_, .inl rfl, hone h⟩
      · exact ⟨_, .inr rfl, hone h⟩

/-! ## Names that stay -/

/-- What the names of one state lead to they lead to in the other as well. -/
structure Keeps (s t : State) : Prop where
  size_managers : s.managers.size ≤ t.managers.size
  root : ∀ k : Nat, k < s.managers.size → (t.manager k).root = (s.manager k).root
  find : ∀ {k : ManagerId} {name : String} {i : LoggerId},
    (s.manager k).find? name = some i → (t.manager k).find? name = some i
  /-- Asking for a logger gives the one that is there and changes nothing. -/
  obtain : ∀ {k : ManagerId} {name : String} {i : LoggerId},
    (s.manager k).find? name = some i → t.obtain k name = (t, i)
  names : ∀ k : ManagerId, s.loggerNames k ⊆ t.loggerNames k

theorem mem_loggerNames : name ∈ s.loggerNames m ↔ ∃ i, (s.manager m).find? name = some i := by
  rw [loggerNames, List.mem_map, ← Option.ne_none_iff_exists', Ne, Manager.find?,
    List.lookup_eq_none_iff]
  constructor
  · rintro ⟨e, he, rfl⟩ hnone
    simpa using hnone e he
  · intro h
    by_contra hnot
    refine h fun e he => bne_iff_ne.2 ?_
    rintro rfl
    exact hnot ⟨e, he, rfl⟩

/-- It is enough that what is found stays. -/
theorem Keeps.of_find (hsize : s.managers.size ≤ t.managers.size)
    (hroot : ∀ k : Nat, k < s.managers.size → (t.manager k).root = (s.manager k).root)
    (hfind : ∀ {k : ManagerId} {name : String} {i : LoggerId},
      (s.manager k).find? name = some i → (t.manager k).find? name = some i) : s.Keeps t where
  size_managers := hsize
  root := hroot
  find := hfind
  obtain hf := obtain_of_find (hfind hf)
  names k name hname := by
    obtain ⟨i, hi⟩ := mem_loggerNames.1 hname
    exact mem_loggerNames.2 ⟨i, hfind hi⟩

theorem Keeps.of_managers (h : t.managers = s.managers) : s.Keeps t := by
  have hman : ∀ k, t.manager k = s.manager k := by
    intro k
    rw [State.manager, State.manager, h]
  refine .of_find (Nat.le_of_eq (by rw [h])) (fun k _ => by rw [hman]) fun hf => ?_
  rw [hman]
  exact hf

theorem Keeps.trans (h : s.Keeps t) (h' : t.Keeps u) : s.Keeps u := by
  refine .of_find (Nat.le_trans h.size_managers h'.size_managers) (fun k hk => ?_) fun hf => ?_
  · rw [h'.root k (Nat.lt_of_lt_of_le hk h.size_managers), h.root k hk]
  · exact h'.find (h.find hf)

/-- What concerns one name keeps them all. -/
theorem Beside.keeps (h : Beside m name s t) : s.Keeps t := by
  refine .of_find (Nat.le_of_eq h.size_managers.symm) (fun k _ => h.root k) ?_
  intro k other i hf
  by_cases ho : k = m ∧ other = name
  · obtain ⟨rfl, rfl⟩ := ho
    exact h.kept i hf
  · rw [h.find k other (Decidable.not_and_iff_or_not.1 ho), hf]

theorem beside_obtain (hm : m < s.managers.size) (name : String) :
    Beside m name s (s.obtain m name).1 :=
  beside_of_local hm (.refl _ _)

theorem keeps_addManager (s : State) : s.Keeps s.addManager.1 := by
  have hold : ∀ k : Nat, k < s.managers.size → s.addManager.1.manager k = s.manager k :=
    fun k hk => manager_addManager_of_ne (Nat.ne_of_lt hk)
  refine .of_find ?_ (fun k hk => by rw [hold k hk]) fun {k name i} hf => ?_
  · simp [State.addManager, State.addLogger, State.addAppender]
  · rw [hold k (lt_of_find hf)]
    exact hf

/-! ## Reconciliations -/

theorem Carried.keeps {as done : List Action} {r : Reconciliation} (h : Carried m s as done t r) :
    s.Keeps t := by
  induction h with
  | nil s => exact .of_managers rfl
  | failed hset _ ih => exact (Keeps.of_managers (managers_congr hset)).trans ih
  | achieved ha _ ih => exact ha.beside.keeps.trans ih

/-- Names that are reported as applied or disabled have a logger afterwards. -/
theorem Carried.listed {as done : List Action} {r : Reconciliation} (h : Carried m s as done t r)
    (hname : name ∈ r.applied ∨ name ∈ r.disabled) : name ∈ t.loggerNames m := by
  induction h with
  | nil => rcases hname with hname | hname <;> cases hname
  | failed _ _ ih => exact ih hname
  | @achieved s t u a as done r ha rest ih =>
      by_cases heq : name = a.name
      · -- the action has given its name a logger, which it keeps
        have hstatus := ha.status
        obtain ⟨i, hi, -⟩ := Option.map_eq_some_iff.1 hstatus
        rw [heq]
        exact mem_loggerNames.2 ⟨i, rest.keeps.find hi⟩
      · refine ih ?_
        cases a with
        | apply d => exact hname.imp (fun h => (List.mem_cons.1 h).resolve_left heq) id
        | disable other => exact hname.imp id fun h => (List.mem_cons.1 h).resolve_left heq

/-- A logger for a manager that is not there is listed nowhere. -/
theorem managers_enrol_of_le (hm : s.managers.size ≤ m) (name : String) :
    (s.enrol m name).managers = s.managers := by
  apply Array.ext_getElem?
  intro k
  show (s.managers.modify m _)[k]? = _
  rw [Array.getElem?_modify]
  split
  · rename_i hk
    rw [← hk, Array.getElem?_eq_none hm]
    rfl
  · rfl

theorem sound_enrol_of_le (hs : s.Sound) (hm : s.managers.size ≤ m) (name : String) :
    (s.enrol m name).Sound := by
  refine hs.of_fields (managers_enrol_of_le hm name) ?_ (fun j hj => ?_) fun j a ha => ?_
  · rw [size_loggers_enrol]
    exact Nat.le_succ _
  · rw [logger_enrol_of_ne (Nat.ne_of_lt hj)]
    exact ⟨rfl, rfl⟩
  · exact hs.appender_lt j a (mem_appenders_of_enrol ha)

/-- A reconciliation of a manager that is not there lists no logger anywhere. -/
theorem reconcile_of_le (hs : s.Sound) (hm : s.managers.size ≤ m) (old new : Definitions) :
    (s.reconcile m old new).1.Sound ∧ (s.reconcile m old new).1.managers = s.managers := by
  refine reconcile_keeps (Q := fun u => u.Sound ∧ u.managers = s.managers) ⟨hs, rfl⟩ ?_ ?_ ?_ ?_
    old new
  · rintro u v h ⟨hu, hman⟩
    exact ⟨hu.congr h, (managers_congr h).trans hman⟩
  · rintro u name ⟨hu, hman⟩
    have hle : u.managers.size ≤ m := by rw [hman]; exact hm
    have hnone : (u.manager m).find? name = none := by
      rw [manager_of_le hle]
      rfl
    rw [obtain_of_find_none hnone]
    refine ⟨(sound_enrol_of_le hu hle name).congr (setup_emit _ _), ?_⟩
    rw [managers_congr (setup_emit _ _), managers_enrol_of_le hle, hman]
  · rintro u i ⟨hu, hman⟩
    exact ⟨(hu.setLevel i .off).clearAppenders i, hman⟩
  · rintro u i source level xs - - hu
    refine install_keeps_of_steps (Q := fun v => v.Sound ∧ v.managers = s.managers) hu
      (fun q _ => ?_) ?_ ?_
    · refine ⟨hu.1.adoptPattern i q, ?_⟩
      exact adoptPattern_keeps (Q := fun v => v.managers = s.managers) hu.2 fun _ _ h => h
    · rintro v ⟨hv, hman⟩
      exact ⟨(hv.setLevel i level).clearAppenders i, hman⟩
    · rintro v x - ⟨hv, hman⟩
      exact ⟨(hv.addAppender x).attach i (by simp [State.addAppender]), hman⟩

/-- A reconciliation keeps a state sound, whether or not the manager is there. -/
theorem sound_reconcile (hs : s.Sound) (m : ManagerId) (old new : Definitions) :
    (s.reconcile m old new).1.Sound := by
  by_cases hm : m < s.managers.size
  · exact hs.reconcile hm old new
  · exact (reconcile_of_le hs (Nat.le_of_not_lt hm) old new).1

theorem keeps_reconcile (hs : s.Sound) (m : ManagerId) (old new : Definitions) :
    s.Keeps (s.reconcile m old new).1 := by
  by_cases hm : m < s.managers.size
  · obtain ⟨done, hc⟩ := carried_carryOut hs hm (plan old new)
    exact hc.keeps
  · exact .of_managers (reconcile_of_le hs (Nat.le_of_not_lt hm) old new).2

/-- Only names that are reported as applied or disabled come by a logger in a reconciliation. -/
theorem reported_of_find (hs : s.Sound) {old new : Definitions} {k : ManagerId} {i : LoggerId}
    (h : (s.manager k).find? name = none)
    (h' : ((s.reconcile m old new).1.manager k).find? name = some i) :
    k = m ∧ (name ∈ (s.reconcile m old new).2.applied ∨
      name ∈ (s.reconcile m old new).2.disabled) := by
  by_cases hm : m < s.managers.size
  · obtain ⟨done, hc⟩ := carried_carryOut hs hm (plan old new)
    by_contra hnot
    have hn : k ≠ m ∨ ∀ a ∈ done, a.name ≠ name := by
      by_cases hk : k = m
      · obtain ⟨happlied, hdisabled⟩ := not_or.1 fun hc => hnot ⟨hk, hc⟩
        exact .inr (hc.ne_of_not_mem happlied hdisabled)
      · exact .inl hk
    rw [reconcile_eq, hc.find? hn, h] at h'
    cases h'
  · have hman := (reconcile_of_le hs (Nat.le_of_not_lt hm) old new).2
    rw [State.manager, hman, ← State.manager, h] at h'
    cases h'

/-- Who is asked for is listed from then on, and so are those that a reconciliation reports as applied
or disabled. -/
structure Lists (s : State) (m : ManagerId) : Prop where
  asked : ∀ name : String,
    ((s.obtain m name).1.manager m).find? name = some (s.obtain m name).2
  reported : ∀ (old new : Definitions) (name : String),
    name ∈ (s.reconcile m old new).2.applied ∨ name ∈ (s.reconcile m old new).2.disabled →
    name ∈ (s.reconcile m old new).1.loggerNames m

theorem Sound.lists (hs : s.Sound) (hm : m < s.managers.size) : s.Lists m where
  asked := find_obtain hm
  reported old new name hname := by
    obtain ⟨done, hc⟩ := carried_carryOut hs hm (plan old new)
    exact hc.listed hname

/-! ## Operations -/

/-- Operations that list no loggers leave the managers alone. -/
theorem managers_operate {o : Operation} (h : o.lists = false) :
    (s.operate o).1.managers = s.managers := by
  cases o with
  | addManager | obtain m name | reconcile m old new => cases h
  | meanwhile files stamp | facade facade | addLogger name | addCustom broken => rfl
  | setLevel i level | setAppenderLevel a level | attach i a | detach i a | clearAppenders i => rfl
  | newAppender d =>
      have hnew : (s.newAppender d).1.managers = s.managers := by
        rcases newAppender_cases s d with h | ⟨u, sink, h, -, hnew⟩
        · exact managers_congr h
        · have hu : u.managers = s.managers := managers_congr h
          rw [hnew]
          exact hu
      exact andThen_fst (Q := fun t => t.managers = s.managers) hnew fun _ _ => hnew
  | build d =>
      have hbuilt : (s.build d).1.managers = s.managers := managers_congr (prepares_build s d).setup
      exact andThen_fst (Q := fun t => t.managers = s.managers) hbuilt fun _ _ => hbuilt
  | setBroken a broken => exact managers_congr (setup_setBroken s a broken)
  | reopen a => exact managers_congr (setup_reopen s a)
  | parse source =>
      have hparsed := managers_congr (setup_parse s source)
      exact andThen_fst (Q := fun t => t.managers = s.managers) hparsed fun _ _ => hparsed
  | setPattern i p =>
      simp only [operate, State.setPattern]
      split
      · exact managers_congr (setup_emit _ _)
      · exact adoptPattern_keeps (Q := fun t => t.managers = s.managers) rfl fun _ _ h => h
  | setAppenderPattern a p =>
      simp only [operate, State.setAppenderPattern]
      split
      · rfl
      · split <;> rfl
  | log i level e => exact managers_congr (setup_log s i level e)
  | emit r => exact managers_congr (setup_emit s r)

/-- No operation takes a logger away from its name. -/
theorem keeps_operate (hs : s.Sound) {o : Operation} (hfits : s.Fits o) :
    s.Keeps (s.operate o).1 := by
  cases hlists : o.lists with
  | false => exact .of_managers (managers_operate hlists)
  | true =>
      cases o with
      | addManager => exact keeps_addManager s
      | obtain m name => exact (beside_obtain hfits name).keeps
      | reconcile m old new => exact keeps_reconcile hs m old new
      | _ => cases hlists

/-- What can give a name of a manager its logger: asking for it, a definition that is applied or
taken back in a reconciliation, and making the manager, which has its root from the start. -/
inductive Enters (s : State) (m : ManagerId) (name : String) : Operation → Prop
  | asked : Enters s m name (.obtain m name)
  | applied (old new : Definitions) (h : name ∈ (s.reconcile m old new).2.applied) :
    Enters s m name (.reconcile m old new)
  | disabled (old new : Definitions) (h : name ∈ (s.reconcile m old new).2.disabled) :
    Enters s m name (.reconcile m old new)
  | made (hm : m = s.managers.size) (hname : name = rootName) : Enters s m name .addManager

/-- A name that has a logger after an operation and had none before has come by it in one of these
ways. -/
theorem enters_operate (hs : s.Sound) {o : Operation} (hfits : s.Fits o) {i : LoggerId}
    (h : (s.manager m).find? name = none)
    (h' : ((s.operate o).1.manager m).find? name = some i) : s.Enters m name o := by
  cases hlists : o.lists with
  | false =>
      rw [State.manager, managers_operate hlists, ← State.manager, h] at h'
      cases h'
  | true =>
      cases o with
      | addManager =>
          rcases find_addManager_cases h' with ⟨hm, hname, -⟩ | ⟨-, hold⟩
          · exact .made hm hname
          · rw [h] at hold
            cases hold
      | obtain k other =>
          by_cases ho : m = k ∧ name = other
          · obtain ⟨rfl, rfl⟩ := ho
            exact .asked
          · have hsame := (beside_obtain hfits other).find m name
              (Decidable.not_and_iff_or_not.1 ho)
            rw [operate, hsame, h] at h'
            cases h'
      | reconcile k old new =>
          obtain ⟨rfl, happlied | hdisabled⟩ := reported_of_find hs h h'
          · exact .applied old new happlied
          · exact .disabled old new hdisabled
      | _ => cases hlists

end State

end ConfigLog.Logging
