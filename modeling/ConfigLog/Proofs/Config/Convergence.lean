import ConfigLog.Proofs.Config.Law
import ConfigLog.Proofs.Logging.Export
import ConfigLog.Proofs.Logging.Sameness

set_option autoImplicit false

/-! # Convergence of runs

When every definition can be applied, the loggers follow the definitions of the variable whatever
led to them, all but the patterns: the last action on a defined name applies its definition
(`realized_chain`), so two runs with the same end export the same levels and appenders
(`runs_converge`). A pattern stays until another one is given under the name, so the patterns may
differ (`pattern_outlives_definition`).
-/

namespace ConfigLog.Config

open Logging (Action Definition Definitions Pass Pattern Reconciliation allDone lastPattern plan
  sameAppenders)

/-! ## Definitions that are realized -/

/-- The last action on the name of each definition applies it. -/
def Realized (ds : Definitions) (done : List Action) : Prop :=
  ∀ d ∈ ds.toList, ∃ e as bs, done = as ++ .apply e :: bs ∧ (∀ c ∈ bs, c.name ≠ d.name) ∧
    e.same d = true

variable {ds es : Definitions} {done : List Action} {ps : List Pass}

/-- An action of a list in which each name has one. -/
theorem exists_split {a : Action} {as : List Action} (hn : (as.map (·.name)).Nodup) (ha : a ∈ as) :
    ∃ bs cs, as = bs ++ a :: cs ∧ ∀ c ∈ cs, c.name ≠ a.name := by
  obtain ⟨bs, cs, rfl⟩ := List.append_of_mem ha
  refine ⟨bs, cs, rfl, fun c hc hname => ?_⟩
  rw [List.map_append, List.map_cons] at hn
  have hcs := (List.nodup_cons.1 (List.nodup_append.1 hn).2.1).1
  exact hcs (hname ▸ List.mem_map_of_mem hc)

/-- A pass whose actions are all done realizes the new definitions. -/
theorem Realized.plan (h : Realized ds done) : Realized es (done ++ plan ds es) := by
  intro d hd
  cases hagrees : ds.agrees d with
  | true =>
      -- nothing happens to the name, so the action that realized the old definition still counts
      obtain ⟨e, he, hsame⟩ : ∃ e ∈ ds.toList, e.same d = true := by
        unfold Definitions.agrees at hagrees
        split at hagrees
        · rename_i e hget
          exact ⟨e, (Definitions.mem_of_get? hget).1, hagrees⟩
        · cases hagrees
      obtain ⟨f, as, bs, hdone, hbs, hf⟩ := h e he
      refine ⟨f, as, bs ++ Logging.plan ds es, ?_, fun c hc => ?_, Definition.same_trans hf hsame⟩
      · rw [hdone, List.append_assoc, List.cons_append]
      · rcases List.mem_append.1 hc with hc | hc
        · rw [← Definition.name_of_same hsame]
          exact hbs c hc
        · exact Logging.ne_of_agrees hd hagrees c hc
  | false =>
      obtain ⟨bs, cs, hplan, hcs⟩ :=
        exists_split (Logging.nodup_plan ds es) (Logging.mem_plan_apply.2 ⟨hd, hagrees⟩)
      refine ⟨d, done ++ bs, cs, ?_, hcs, d.same_refl⟩
      rw [hplan, List.append_assoc]

theorem done_of_failed_eq_nil {p : Pass} (h : p.report.failed = []) :
    p.done = Logging.plan p.old p.new := by
  refine List.filter_eq_self.2 fun a _ => ?_
  simp [Reconciliation.failedNames, h]

/-- Passes without failures realize the definitions that they lead to. -/
theorem realized_chain (hps : ∀ p ∈ ps, p.report.failed = []) (hc : Chain ds ps es)
    (h : Realized ds done) : Realized es (done ++ allDone ps) := by
  induction ps generalizing ds done with
  | nil =>
      obtain rfl : es = ds := hc
      rw [allDone, List.flatMap_nil, List.append_nil]
      exact h
  | cons p ps ih =>
      obtain ⟨rfl, -, hrest⟩ := hc
      have hdone := done_of_failed_eq_nil (hps p List.mem_cons_self)
      have hnew : Realized p.new (done ++ Logging.plan p.old p.new) := h.plan
      have hstep := ih (fun q hq => hps q (List.mem_cons_of_mem p hq)) hrest hnew
      rw [List.append_assoc, ← hdone] at hstep
      exact hstep

namespace State

variable {b : Binding} {s t u : State}

/-! ## What a run exports -/

theorem same_exported {a e : Logging.AppenderDefinition} (h : a.same e = true) :
    a.exported.same e.exported = true := by
  have hm := Logging.AppenderDefinition.same_iff.1 h
  simp only [Logging.AppenderDefinition.meaning, Prod.mk.injEq] at hm
  obtain ⟨hdest, hlevel, hpattern⟩ := hm
  rw [Logging.AppenderDefinition.same_iff]
  simp only [Logging.AppenderDefinition.meaning, Logging.AppenderDefinition.exported, hdest, hlevel,
    hpattern]

/-- What a manager exports for a defined name after a run without failures: the definition with the
defaults filled in, and with the last pattern that was given under the name. -/
theorem History.get?_definitions {l : Logging.State} (hl : l.Sound)
    (hs : s.logging = l.addManager.1) (h : History l.managers.size b s t u ps)
    (hps : ∀ p ∈ ps, p.report.failed = []) {d : Definition}
    (hd : d ∈ (u.current b.subject).toList) :
    ∃ x, (u.logging.definitions l.managers.size).get? d.name = some x ∧
      x.level = some (d.level.getD .debug) ∧
      sameAppenders x.appenders (d.appenders.map (·.exported)) = true ∧
      x.pattern = (lastPattern l.times d.name (allDone ps) .default).exported ∧
      ∀ q, Pattern.given? l.times d.pattern = some q →
        lastPattern l.times d.name (allDone ps) .default = q := by
  have hstart : Realized .empty [] := fun d hd => by cases hd
  -- the last action on the name applies a definition that is the same
  obtain ⟨e, as, bs, hdone, hbs, hsame⟩ := realized_chain hps h.chain hstart d hd
  rw [List.nil_append] at hdone
  have hname : e.name = d.name := Definition.name_of_same hsame
  rw [← hname] at hbs
  have hstatus := h.last_action hl hs hdone hbs
  have hsound : u.logging.Sound := by
    have hc := h.course
    rw [hs] at hc
    exact (hc.intact (Logging.State.intact_addManager hl)).sound
  have hget : (u.logging.definitions l.managers.size).get? e.name = some {
      name := e.name, level := some (e.level.getD .debug)
      pattern := (lastPattern l.times e.name (allDone ps) .default).exported
      appenders := e.appenders.map (·.exported) } := by
    rw [Logging.State.get?_definitions hsound]
    refine (congrArg _ hstatus).trans ?_
    rw [Option.map_some, Logging.definition_status_apply]
    rfl
  refine ⟨_, hname ▸ hget, ?_, ?_, ?_, fun q hq => ?_⟩
  · rw [Definition.level_of_same hsame]
  · exact Logging.sameAppenders_map (fun _ _ => same_exported) (Definition.appenders_of_same hsame)
  · rfl
  · rw [hdone, ← hname]
    exact Logging.lastPattern_of_given (Definition.pattern_of_same hsame ▸ hq) hbs _

/-! ## Two runs -/

/-- Two runs of fresh managers in which every definition could be applied and which end with the
same definitions export the same levels and appenders for all defined names. The patterns that they
export are those that were given last under the names, so they are the same as well where the
definition gives one. -/
theorem runs_converge {l l' : Logging.State} (hl : l.Sound) (hl' : l'.Sound) {s s' : State}
    (hs : s.logging = l.addManager.1) (hs' : s'.logging = l'.addManager.1)
    (hr : s.Ready l.managers.size) (hr' : s'.Ready l'.managers.size) (steps steps' : List Step) :
    ∃ t t', s.bind l.managers.size = (t, .ok s.nextBinding) ∧
      s'.bind l'.managers.size = (t', .ok s'.nextBinding) ∧
      ∀ u u', u = t.run s.nextBinding steps → u' = t'.run s'.nextBinding steps' →
      ∀ ps ps', History l.managers.size s.nextBinding s t u ps →
        History l'.managers.size s'.nextBinding s' t' u' ps' →
        (∀ p ∈ ps, p.report.failed = []) → (∀ p ∈ ps', p.report.failed = []) →
        (u.current s.nextBinding.subject).same (u'.current s'.nextBinding.subject) = true →
        ∀ d ∈ (u.current s.nextBinding.subject).toList, ∃ x x',
          (u.logging.definitions l.managers.size).get? d.name = some x ∧
          (u'.logging.definitions l'.managers.size).get? d.name = some x' ∧
          x.level = x'.level ∧ sameAppenders x.appenders x'.appenders = true ∧
          x.pattern = (lastPattern l.times d.name (allDone ps) .default).exported ∧
          x'.pattern = (lastPattern l'.times d.name (allDone ps') .default).exported ∧
          ((Pattern.given? l.times d.pattern).isSome → x.pattern = x'.pattern) := by
  obtain ⟨t, -, hbind, -⟩ := history_run hr steps
  obtain ⟨t', -, hbind', -⟩ := history_run hr' steps'
  refine ⟨t, t', hbind, hbind', fun u u' _ _ ps ps' h h' hps hps' hsame d hd => ?_⟩
  -- the other run ends with a definition that is the same, so it exports the same
  obtain ⟨d', hd', hdd'⟩ := Definitions.exists_same_of_mem hsame hd
  obtain ⟨x, hx, hlevel, happenders, hpattern, hlast⟩ := h.get?_definitions hl hs hps hd
  obtain ⟨x', hx', hlevel', happenders', hpattern', hlast'⟩ := h'.get?_definitions hl' hs' hps' hd'
  rw [← Definition.name_of_same hdd'] at hx' hpattern' hlast'
  refine ⟨x, x', hx, hx', ?_, ?_, hpattern, hpattern', fun hgiven => ?_⟩
  · rw [hlevel, hlevel', Definition.level_of_same hdd']
  · have hbetween := Logging.sameAppenders_map (fun _ _ => same_exported)
      (Definition.appenders_of_same hdd')
    rw [Logging.sameAppenders_iff] at *
    exact (happenders.trans hbetween).trans happenders'.symm
  · obtain ⟨q, hq⟩ := Option.isSome_iff_exists.1 hgiven
    -- the texts are the same, and an exported pattern is its text
    obtain ⟨text, htext, rfl⟩ := Option.map_eq_some_iff.1 hq
    have hq' : Pattern.given? l'.times d'.pattern = some (.compile l'.times text) :=
      Option.map_eq_some_iff.2 ⟨text, Definition.pattern_of_same hdd' ▸ htext, rfl⟩
    rw [hpattern, hpattern', hlast _ hq, hlast' _ hq']
    rfl

/-- The definition `plain` without its pattern. -/
def bare : Definition := { plain with pattern := none }

/-- The state after one set of definitions has been stored and then another one. -/
def replaced (ds es : Definitions) : State :=
  (alone.bind 0).1.run alone.nextBinding [.set ds, .set es]

/-- The passes when one set of definitions is stored and then another one. -/
def replacing (ds es : Definitions) : List Pass :=
  [⟨.empty, ds, (alone.logging.reconcile 0 .empty ds).2⟩,
    ⟨ds, es, ((alone.logging.reconcile 0 .empty ds).1.reconcile 0 ds es).2⟩]

theorem runs_converge_plain : ∃ x x',
    ((replaced (.ofList [bare]) (.ofList [plain])).logging.definitions 0).get? "x" = some x ∧
    ((replaced (.ofList []) (.ofList [plain])).logging.definitions 0).get? "x" = some x' ∧
    x.level = x'.level ∧ sameAppenders x.appenders x'.appenders = true ∧
    x.pattern = x'.pattern := by
  obtain ⟨t, t', ht, ht', hconverge⟩ := runs_converge
    (Logging.State.sound_start (.start []) .universal)
    (Logging.State.sound_start (.start []) .universal) (show alone.logging = _ from rfl)
    (show alone.logging = _ from rfl) ready_alone ready_alone
    [.set (.ofList [bare]), .set (.ofList [plain])] [.set (.ofList []), .set (.ofList [plain])]
  obtain rfl : (alone.bind 0).1 = t := congrArg Prod.fst ht
  obtain rfl : (alone.bind 0).1 = t' := congrArg Prod.fst ht'
  have hh : History 0 alone.nextBinding alone (alone.bind 0).1
      (replaced (.ofList [bare]) (.ofList [plain]))
      (replacing (.ofList [bare]) (.ofList [plain])) := by
    constructor
    case course => exact .pass (.pass (.start _) .empty (.ofList [bare])) _ (.ofList [plain])
    case chain => exact ⟨rfl, rfl, rfl, rfl, rfl⟩
    case pairs => rfl
  have hh' : History 0 alone.nextBinding alone (alone.bind 0).1
      (replaced (.ofList []) (.ofList [plain]))
      [⟨.empty, .ofList [plain], (alone.logging.reconcile 0 .empty (.ofList [plain])).2⟩] := by
    constructor
    case course => exact .pass (.start _) .empty (.ofList [plain])
    case chain => exact ⟨rfl, rfl, rfl⟩
    case pairs => rfl
  obtain ⟨x, x', hx, hx', hlevel, happenders, -, -, hpattern⟩ := hconverge _ _ rfl rfl _ _ hh hh'
    (by rintro p (_ | ⟨_, _ | ⟨_, hp⟩⟩) <;> first | rfl | cases hp)
    (by rintro p (_ | ⟨_, hp⟩) <;> first | rfl | cases hp) (by decide) plain (by decide)
  exact ⟨x, x', hx, hx', hlevel, happenders, hpattern (by decide)⟩

/-- The state after a pattern has been given and taken back, with one more manager that is not bound
yet. -/
def late : State :=
  { replaced (.ofList [plain]) (.ofList [bare]) with
    logging := (replaced (.ofList [plain]) (.ofList [bare])).logging.addManager.1 }

/-- Two managers follow the same definitions without failures, one from the beginning and one that
is bound at the end. They export different patterns for a defined name: the first one keeps a
pattern that is not defined any more. -/
theorem pattern_outlives_definition :
    (∃ ps, History 0 alone.nextBinding alone (alone.bind 0).1
        (replaced (.ofList [plain]) (.ofList [bare])) ps ∧ ∀ p ∈ ps, p.report.failed = []) ∧
    (∃ ps, History 1 late.nextBinding late (late.bind 1).1 (late.bind 1).1 ps ∧
        ∀ p ∈ ps, p.report.failed = []) ∧
    ((replaced (.ofList [plain]) (.ofList [bare])).current alone.nextBinding.subject).same
      ((late.bind 1).1.current late.nextBinding.subject) = true ∧
    ((late.bind 1).1.current late.nextBinding.subject).get? "x" = some bare ∧
    (((late.bind 1).1.logging.definitions 0).get? "x").map (·.pattern) = some (some "%m") ∧
    (((late.bind 1).1.logging.definitions 1).get? "x").map (·.pattern) = some none := by
  have hh : History 0 alone.nextBinding alone (alone.bind 0).1
      (replaced (.ofList [plain]) (.ofList [bare]))
      (replacing (.ofList [plain]) (.ofList [bare])) := by
    constructor
    case course => exact .pass (.pass (.start _) .empty (.ofList [plain])) _ (.ofList [bare])
    case chain => exact ⟨rfl, rfl, rfl, rfl, rfl⟩
    case pairs => rfl
  have hh' : History 1 late.nextBinding late (late.bind 1).1 (late.bind 1).1
      [⟨.empty, .ofList [bare], (late.logging.reconcile 1 .empty (.ofList [bare])).2⟩] := by
    constructor
    case course => exact .pass (.start _) .empty (.ofList [bare])
    case chain => exact ⟨rfl, rfl, rfl⟩
    case pairs => rfl
  refine ⟨⟨_, hh, ?_⟩, ⟨_, hh', ?_⟩, by decide, by decide, by decide, by decide⟩
  · rintro p (_ | ⟨_, _ | ⟨_, hp⟩⟩) <;> first | rfl | cases hp
  · rintro p (_ | ⟨_, hp⟩) <;> first | rfl | cases hp

end State

end ConfigLog.Config
