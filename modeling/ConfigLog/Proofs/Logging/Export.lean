import ConfigLog.Proofs.Logging.Course

set_option autoImplicit false

/-! # Exported definitions

The definition that a manager exports for a name is told by what the logger of the name goes by
(`get?_definitions`). After a definition has been applied, it is that definition with the defaults
filled in, except for the pattern (`definition_status_apply`).
-/

namespace ConfigLog.Logging

/-! ## What is exported -/

/-- The definition of an appender that is set so. -/
def Setting.definition (x : Setting) : AppenderDefinition where
  destination := x.destination
  level := some x.level
  pattern := if x.own then some x.pattern.source else none

/-- A pattern as it is exported: not at all when it is the default one. -/
def Pattern.exported (p : Pattern) : Option String :=
  if p.source == defaultSource then none else some p.source

/-- The definition of a logger that goes by a status. -/
def Status.definition (name : String) (x : Status) : Definition where
  name := name
  level := some x.level
  pattern := x.pattern.exported
  appenders := x.appenders.map (·.definition)

/-- The definition that an appender exports after it has been built: with the level filled in, and
without an empty pattern. -/
def AppenderDefinition.exported (a : AppenderDefinition) : AppenderDefinition where
  destination := a.destination
  level := some (a.level.getD .debug)
  pattern := a.pattern.filter (· != "")

theorem AppenderDefinition.definition_setting (a : AppenderDefinition) (times : TimeFormat)
    (p : Pattern) : (a.setting times p).definition = a.exported := by
  unfold AppenderDefinition.setting Setting.definition AppenderDefinition.exported Pattern.given?
  cases a.pattern.filter (· != "") <;> rfl

/-- What a logger exports after a definition has been applied to it. -/
theorem definition_status_apply (d : Definition) (times : TimeFormat) (p : Pattern)
    (name : String) : ((Action.apply d).status times p).definition name = {
      name, level := some (d.level.getD .debug), pattern := p.exported
      appenders := d.appenders.map (·.exported) } := by
  simp only [Action.status, Status.definition, List.map_map, Definition.mk.injEq, true_and]
  exact List.map_congr_left fun a _ => a.definition_setting times p

/-! ## Sets in order -/

theorem insertByName_of_forall_lt {d : Definition} {ds : List Definition}
    (h : ∀ e ∈ ds, e.name < d.name) : insertByName d ds = ds ++ [d] := by
  induction ds with
  | nil => rfl
  | cons e ds ih =>
      have he := h e List.mem_cons_self
      have hnot : ¬ d.name < e.name := fun hc => String.lt_irrefl _ (String.lt_trans he hc)
      rw [insertByName, if_neg hnot, if_pos he, ih fun x hx => h x (List.mem_cons_of_mem e hx)]
      rfl

/-- The set of a list in name order is that list. -/
theorem toList_ofList {ds : List Definition} (h : ds.Pairwise fun a b => a.name < b.name) :
    (Definitions.ofList ds).toList = ds := by
  -- each definition comes behind those that are in the set already
  have hfold : ∀ (es : List Definition) (done : Definitions),
      (done.toList ++ es).Pairwise (fun a b => a.name < b.name) →
      (es.foldl Definitions.insert done).toList = done.toList ++ es := by
    intro es
    induction es with
    | nil => exact fun done _ => (List.append_nil _).symm
    | cons e es ih =>
        intro done hsorted
        have hlt : ∀ d ∈ done.toList, d.name < e.name := by
          intro d hd
          exact (List.pairwise_append.1 hsorted).2.2 d hd e List.mem_cons_self
        have hinsert : (done.insert e).toList = done.toList ++ [e] :=
          insertByName_of_forall_lt hlt
        rw [List.foldl_cons, ih, hinsert, List.append_assoc]
        · rfl
        · rw [hinsert, List.append_assoc]
          exact hsorted
  exact hfold ds .empty h

namespace State

variable {s : State} {m : ManagerId}

/-- The definition of a logger is told by its name and by what it goes by. -/
theorem definition_eq (hs : s.Sound) (i : LoggerId) :
    s.definition i = (s.statusOf i).definition (s.logger i).name := by
  have happenders : ∀ as : List AppenderId, (∀ a : Nat, a ∈ as → a < s.appenders.size) →
      (as.filterMap fun a => s.appenders[a]?.map (·.definition))
        = (as.map s.setting).map (·.definition) := by
    intro as
    induction as with
    | nil => exact fun _ => rfl
    | cons a as ih =>
        intro h
        obtain ⟨x, ha⟩ : ∃ x, s.appenders[a]? = some x :=
          ⟨_, Array.getElem?_eq_getElem (h a List.mem_cons_self)⟩
        rw [List.filterMap_cons, ha, Option.map_some, List.map_cons, List.map_cons,
          setting_of_getElem? ha]
        exact congrArg _ (ih fun b hb => h b (List.mem_cons_of_mem a hb))
  simp only [State.definition, Status.definition, statusOf, Definition.mk.injEq, true_and]
  exact ⟨rfl, happenders _ (hs.appender_lt i)⟩

theorem find?_map_definition (s : State) {es : List (String × LoggerId)}
    (h : ∀ e ∈ es, (s.definition e.2).name = e.1) (name : String) :
    (es.map fun e => s.definition e.2).find? (·.name == name)
      = (es.lookup name).map s.definition := by
  induction es with
  | nil => rfl
  | cons e es ih =>
      obtain ⟨k, i⟩ := e
      have hk : (s.definition i).name = k := h _ List.mem_cons_self
      rw [List.map_cons, List.find?_cons, List.lookup_cons, hk]
      by_cases hname : k = name
      · simp [hname]
      · rw [beq_eq_false_iff_ne.2 hname, beq_eq_false_iff_ne.2 (Ne.symm hname)]
        exact ih fun e he => h e (List.mem_cons_of_mem _ he)

/-- A logger that a manager lists has the definition of its name. -/
theorem Sound.name_definition (hs : s.Sound) {e : String × LoggerId}
    (he : e ∈ (s.manager m).loggers) : (s.definition e.2).name = e.1 :=
  hs.name (Keyed.lookup_of_mem (hs.sorted m) he)

/-- The exported definitions are those of the loggers, in the order of the names. -/
theorem Sound.toList_definitions (hs : s.Sound) (m : ManagerId) :
    (s.definitions m).toList = (s.manager m).loggers.map fun e => s.definition e.2 := by
  refine toList_ofList (List.pairwise_map.2 ?_)
  refine (hs.sorted m).imp_of_mem fun {d e} hd he hlt => ?_
  rw [hs.name_definition hd, hs.name_definition he]
  exact hlt

/-- Each name has one exported definition. -/
theorem Sound.names_definitions (hs : s.Sound) (m : ManagerId) :
    (s.definitions m).toList.map (·.name) = s.loggerNames m := by
  rw [hs.toList_definitions, List.map_map]
  exact List.map_congr_left fun e he => hs.name_definition he

/-- The definition that a manager exports for a name. -/
theorem get?_definitions (hs : s.Sound) (m : ManagerId) (name : String) :
    (s.definitions m).get? name = (s.status? m name).map (·.definition name) := by
  rw [Definitions.get?, hs.toList_definitions, find?_map_definition s fun e => hs.name_definition,
    status?, Option.map_map]
  show ((s.manager m).find? name).map s.definition = _
  cases hf : (s.manager m).find? name with
  | none => rfl
  | some i =>
      rw [Option.map_some, Option.map_some, definition_eq hs, hs.name hf]
      rfl

end State

end ConfigLog.Logging
