import ConfigLog.Proofs.Config.Loading
import ConfigLog.Proofs.Config.Registration
import ConfigLog.Proofs.Value.Equivalence
import Mathlib.Data.List.Induction

set_option autoImplicit false

/-! # Applying a document again

A file that is watched is applied again and again. What a document makes of a variable is told by the
values that are read for it, one after the other (`held_settings`), and doing the same once more
makes no difference in the end (`foldl_hold_foldl_hold`). On the way there are changes, and listeners
are told of them, unless all values that the document gives to one variable are the same
(`settled_load_iff`).
-/

namespace ConfigLog.Config

/-! ## One value after the other -/

/-- What a variable holds after it has been set: its own value if that is the same. -/
def hold (c d : Value) : Value := if c.same d then c else d

/-- All of the values are the same. -/
def AllSame (ds : List Value) : Prop := ∀ a ∈ ds, ∀ b ∈ ds, a.same b = true

section

variable {c d : Value} {ds : List Value}

theorem foldl_hold_of_same (h : ∀ d ∈ ds, c.same d = true) : ds.foldl hold c = c := by
  induction ds with
  | nil => rfl
  | cons d ds ih =>
      have hd : hold c d = c := if_pos (h d List.mem_cons_self)
      rw [List.foldl_cons, hd, ih fun e he => h e (List.mem_cons_of_mem d he)]

/-- Values that are all the same leave one that is the same as each of them. -/
theorem same_foldl_hold (h : AllSame ds) (c : Value) (hd : d ∈ ds) :
    (ds.foldl hold c).same d = true := by
  cases ds with
  | nil => cases hd
  | cons e ds =>
      have hfirst : (hold c e).same e = true := by
        unfold hold
        split
        · assumption
        · exact h e List.mem_cons_self e List.mem_cons_self
      have hall : ∀ a ∈ e :: ds, (hold c e).same a = true := fun a ha =>
        Value.same_trans hfirst (h e List.mem_cons_self a ha)
      have hrest : ds.foldl hold (hold c e) = hold c e :=
        foldl_hold_of_same fun a ha => hall a (List.mem_cons_of_mem e ha)
      rw [List.foldl_cons, hrest]
      exact hall d hd

/-- If a value makes the difference at the end, it differs from one that is there already. -/
theorem exists_ne_of_not_allSame (hd : d.same d = true) (hnot : ¬ AllSame (ds ++ [d])) :
    ∃ e ∈ ds, e.same d = false := by
  by_contra hcon
  have hsame : ∀ e ∈ ds ++ [d], e.same d = true := by
    intro e he
    rcases List.mem_append.1 he with he | he
    · exact Bool.eq_true_of_not_eq_false fun hne => hcon ⟨e, he, hne⟩
    · rwa [List.mem_singleton.1 he]
  refine hnot fun a ha b hb => Value.same_trans (hsame a ha) ?_
  rw [Value.same_comm]
  exact hsame b hb

/-- When some of the values differ, it makes no difference in the end what was held before. -/
theorem foldl_hold_eq_of_not_allSame (hds : ∀ d ∈ ds, d.same d = true) (h : ¬ AllSame ds)
    (a b : Value) : ds.foldl hold a = ds.foldl hold b := by
  induction ds using List.reverseRecOn with
  | nil => exact absurd (fun a ha => by cases ha) h
  | append_singleton ds d ih =>
      rw [List.foldl_append, List.foldl_append]
      by_cases hsame : AllSame ds
      · -- the last value replaces whatever has come of the others
        obtain ⟨e, he, hne⟩ := exists_ne_of_not_allSame (hds d (by simp)) h
        have hlast : ∀ c, hold (ds.foldl hold c) d = d := by
          intro c
          refine if_neg fun hd => ?_
          have hed : e.same d = true := by
            refine Value.same_trans ?_ hd
            rw [Value.same_comm]
            exact same_foldl_hold hsame c he
          rw [hne] at hed
          cases hed
        exact (hlast a).trans (hlast b).symm
      · rw [ih (fun d hd => hds d (List.mem_append_left _ hd)) hsame]

/-- The same values once more make no difference. -/
theorem foldl_hold_foldl_hold (hds : ∀ d ∈ ds, d.same d = true) (c : Value) :
    ds.foldl hold (ds.foldl hold c) = ds.foldl hold c := by
  by_cases h : AllSame ds
  · exact foldl_hold_of_same fun d hd => same_foldl_hold h c hd
  · exact foldl_hold_eq_of_not_allSame hds h _ _

end

/-! ## What is read for a variable -/

/-- The values that are read for a name. -/
def readings (k : Kind) (name : String) (settings : List (String × Node)) : List Value :=
  settings.filterMap fun e => if e.1 = name then (k.ofNode e.2).toOption else none

theorem mem_readings {k : Kind} {name : String} {settings : List (String × Node)} {d : Value} :
    d ∈ readings k name settings ↔ ∃ node, (name, node) ∈ settings ∧ k.ofNode node = .ok d := by
  have hok : ∀ result : Container.Result Value, result.toOption = some d ↔ result = .ok d := by
    intro result
    cases result <;> simp [Except.toOption]
  simp only [readings, List.mem_filterMap, Option.ite_none_right_eq_some, hok]
  constructor
  · rintro ⟨⟨n, node⟩, hmem, rfl, hread⟩
    exact ⟨node, hmem, hread⟩
  · rintro ⟨node, hmem, hread⟩
    exact ⟨(name, node), hmem, rfl, hread⟩

namespace State

variable {s t : State} {v : VariableId} {k : Kind} {c : Value} {name : String} {node : Node}
  {settings : List (String × Node)}

/-- The kind and the value of a variable. -/
def held (s : State) (v : VariableId) : Option (Kind × Value) :=
  s.vars[v]?.map fun x => (x.kind, x.value)

theorem held_eq_some : s.held v = some (k, c) ↔
    ∃ x, s.vars[v]? = some x ∧ x.kind = k ∧ x.value = c := by
  simp [held]

theorem value?_eq_held (s : State) (v : VariableId) : s.value? v = (s.held v).map (·.2) := by
  rw [value?, held, Option.map_map]
  rfl

theorem Shaped.held (h : s.Shaped t) (hheld : s.held v = some (k, c)) {d : Value}
    (hd : t.value? v = some d) : t.held v = some (k, d) := by
  obtain ⟨x, hx, rfl, -⟩ := held_eq_some.1 hheld
  obtain ⟨y, hy, -, hkind⟩ := h.kind hx
  rw [value?_of_getElem? hy] at hd
  exact held_eq_some.2 ⟨y, hy, hkind, Option.some.inj hd⟩

theorem Calm.held (h : s.Calm t) (v : VariableId) : t.held v = s.held v := by
  cases hx : s.held v with
  | none =>
      have hvalue := h.value? v
      rw [value?_eq_held, value?_eq_held, hx] at hvalue
      exact Option.map_eq_none_iff.1 hvalue
  | some e =>
      refine h.toShaped.held hx ?_
      rw [h.value?, value?_eq_held, hx]
      rfl

/-- A registered variable has the name that it is registered under, so it has no other one. -/
theorem Registered.name_unique (hs : s.Registered) {other : String}
    (h : s.names.lookup name = some v) (h' : s.names.lookup other = some v) : other = name := by
  obtain ⟨x, hx, rfl⟩ := hs name v h
  obtain ⟨y, hy, rfl⟩ := hs other v h'
  rw [Option.some.inj (hx.symm.trans hy)]

/-- What one setting makes of a registered variable. -/
theorem held_applied (hs : s.Loadable) (hlookup : s.names.lookup name = some v)
    (hheld : s.held v = some (k, c)) (setting : String × Node) :
    (s.applied assign setting).held v
      = some (k, (readings k name [setting]).foldl hold c) := by
  obtain ⟨other, node⟩ := setting
  refine (shaped_applied hs (other, node)).held hheld ?_
  have hvalue : s.value? v = some c := by
    rw [value?_eq_held, hheld]
    rfl
  by_cases hname : other = name
  · subst hname
    obtain ⟨x, hx, rfl, rfl⟩ := held_eq_some.1 hheld
    rcases applied_cases node hs hlookup hx with
      ⟨e, hread, -, hcalm, -⟩ | ⟨new, hread, hsame, -, heq⟩ | ⟨new, hread, hne, -, hreplaced⟩
    · simp [readings, hread, Except.toOption, hcalm.value?, hvalue]
    · simp [readings, hread, Except.toOption, hold, hsame, heq, hvalue]
    · simp [readings, hread, Except.toOption, hold, hne, hreplaced.value]
  · have hlookup' : s.names.lookup other ≠ some v := fun h =>
      hname (hs.registered.name_unique hlookup h)
    rw [value?_applied hs hlookup', hvalue]
    simp [readings, hname]

/-- A registered variable takes on the values that are read for it, one after the other. -/
theorem held_settings (hs : s.Loadable) (hlookup : s.names.lookup name = some v)
    (hheld : s.held v = some (k, c)) (settings : List (String × Node)) :
    (settings.foldl (applied assign) s).held v
      = some (k, (readings k name settings).foldl hold c) := by
  induction settings generalizing s c with
  | nil => exact hheld
  | cons setting settings ih =>
      have hsplit : readings k name (setting :: settings)
          = readings k name [setting] ++ readings k name settings := by
        rw [← List.singleton_append, readings, List.filterMap_append]
        rfl
      rw [List.foldl_cons, hsplit, List.foldl_append]
      refine ih (hs.applied setting) ?_ (held_applied hs hlookup hheld setting)
      rwa [(shaped_applied hs setting).names]

/-! ## When nothing changes -/

/-- Every registered variable has the values already that are read for it. -/
def Settled (s : State) (settings : List (String × Node)) : Prop :=
  ∀ name v k c, s.names.lookup name = some v → s.held v = some (k, c) →
    ∀ d ∈ readings k name settings, c.same d = true

theorem Calm.settled_iff (h : s.Calm t) : t.Settled settings ↔ s.Settled settings := by
  simp only [Settled, h.names, h.held]

/-- A setting that changes nothing is calm. -/
theorem calm_applied (hs : s.Loadable) (hlookup : s.names.lookup name = some v)
    (h : (s.fate v node).isUpdated = false) : s.Calm (s.applied assign (name, node)) := by
  obtain ⟨x, hx, -⟩ := hs.registered name v hlookup
  rcases applied_cases node hs hlookup hx with
    ⟨e, -, -, hcalm, -⟩ | ⟨new, -, -, -, heq⟩ | ⟨new, -, -, hfate, -⟩
  · exact hcalm
  · rw [heq]
    exact .refl s
  · rw [hfate] at h
    cases h

/-- A setting changes nothing when its variable has the value already that is read. -/
theorem isUpdated_eq_false_iff (hheld : s.held v = some (k, c)) :
    (s.fate v node).isUpdated = false ↔ ∀ d, k.ofNode node = .ok d → c.same d = true := by
  obtain ⟨x, hx, rfl, rfl⟩ := held_eq_some.1 hheld
  cases hread : x.kind.ofNode node with
  | error e => simp [fate_of_error hx hread, Fate.isUpdated]
  | ok d =>
      cases hsame : x.value.same d with
      | true => simp [fate_of_same hx hread hsame, Fate.isUpdated, hsame]
      | false => simp [fate_of_ne hx hread hsame, Fate.isUpdated, hsame]

theorem settled_cons (hlookup : s.names.lookup name = some v)
    (hheld : s.held v = some (k, c)) : s.Settled ((name, node) :: settings) ↔
      (∀ d, k.ofNode node = .ok d → c.same d = true) ∧ s.Settled settings := by
  constructor
  · intro h
    refine ⟨fun d hd => ?_, fun other w k' c' hother hw d hd => ?_⟩
    · exact h name v k c hlookup hheld d (mem_readings.2 ⟨node, List.mem_cons_self, hd⟩)
    · obtain ⟨n, hn, hread⟩ := mem_readings.1 hd
      exact h other w k' c' hother hw d
        (mem_readings.2 ⟨n, List.mem_cons_of_mem _ hn, hread⟩)
  · rintro ⟨hfirst, hrest⟩ other w k' c' hother hw d hd
    obtain ⟨n, hn, hread⟩ := mem_readings.1 hd
    rcases List.mem_cons.1 hn with heq | hn
    · obtain ⟨rfl, rfl⟩ := Prod.mk.injEq .. ▸ heq
      obtain rfl : v = w := Option.some.inj (hlookup.symm.trans hother)
      obtain ⟨rfl, rfl⟩ := Prod.mk.injEq .. ▸ Option.some.inj (hheld.symm.trans hw)
      exact hfirst d hread
    · exact hrest other w k' c' hother hw d (mem_readings.2 ⟨n, hn, hread⟩)

theorem settled_cons_of_unknown (hlookup : s.names.lookup name = none) :
    s.Settled ((name, node) :: settings) ↔ s.Settled settings := by
  have hreadings : ∀ other v k, s.names.lookup other = some v →
      readings k other ((name, node) :: settings) = readings k other settings := by
    intro other v k hother
    have hne : name ≠ other := by
      rintro rfl
      rw [hlookup] at hother
      cases hother
    simp [readings, hne]
  unfold Settled
  constructor
  · intro h other v k c hother hv
    rw [← hreadings other v k hother]
    exact h other v k c hother hv
  · intro h other v k c hother hv
    rw [hreadings other v k hother]
    exact h other v k c hother hv

/-- Settings change nothing if and only if the variables have all the values already. -/
theorem stages_quiet_iff (hs : s.Loadable) (settings : List (String × Node)) :
    (∀ g ∈ stages s settings, g.fate.isUpdated = false) ↔ s.Settled settings := by
  induction settings generalizing s with
  | nil =>
      refine ⟨fun _ name v k c _ _ d hd => ?_, fun _ g hg => ?_⟩
      · cases hd
      · cases hg
  | cons setting settings ih =>
      obtain ⟨name, node⟩ := setting
      cases hlookup : s.names.lookup name with
      | none =>
          rw [settled_cons_of_unknown hlookup, ← ih hs]
          simp only [stages, hlookup, List.nil_append, applied_of_lookup_eq_none hlookup]
      | some v =>
          obtain ⟨x, hx, -⟩ := hs.registered name v hlookup
          have hheld : s.held v = some (x.kind, x.value) := held_eq_some.2 ⟨x, hx, rfl, rfl⟩
          simp only [stages, hlookup, List.cons_append, List.nil_append, List.forall_mem_cons,
            ih (hs.applied (name, node))]
          rw [settled_cons hlookup hheld, ← isUpdated_eq_false_iff hheld]
          -- only a setting that changes nothing leaves the rest as it would be without it
          constructor
          · rintro ⟨hfirst, hrest⟩
            exact ⟨hfirst, (calm_applied hs hlookup hfirst).settled_iff.1 hrest⟩
          · rintro ⟨hfirst, hrest⟩
            exact ⟨hfirst, (calm_applied hs hlookup hfirst).settled_iff.2 hrest⟩

/-! ## Whole documents -/

/-- What is reported of a document before it is applied goes to loggers only. -/
theorem calm_announced (s : State) (document : Node) : s.Calm (s.announced document) := by
  obtain ⟨l, hl⟩ := s.announced_eq document
  rw [hl]
  exact calm_logging s l

theorem Loadable.announced (hs : s.Loadable) (document : Node) :
    (s.announced document).Loadable := by
  obtain ⟨l, hl⟩ := s.announced_eq document
  rw [hl]
  exact ⟨hs.registered, hs.idle, hs.passive⟩

theorem load_fst (s : State) (document : Node) : (s.load document).1
    = ((flatten document).foldl (applied assign) (s.announced document)).emit
        (appliedRecord (s.load document).2) := loadWith_fst s document

theorem Loadable.load (hs : s.Loadable) (document : Node) :
    (s.load document).1.Loadable ∧ s.Shaped (s.load document).1 := by
  obtain ⟨hend, hshaped⟩ := (hs.announced document).foldl (flatten document)
  rw [load_fst]
  exact ⟨⟨hend.registered, hend.idle, hend.passive⟩,
    ((calm_announced s document).toShaped.trans hshaped).trans (calm_logging _ _).toShaped⟩

theorem held_load (hs : s.Loadable) (hlookup : s.names.lookup name = some v)
    (hheld : s.held v = some (k, c)) (document : Node) : (s.load document).1.held v
      = some (k, (readings k name (flatten document)).foldl hold c) := by
  have hcalm := calm_announced s document
  rw [load_fst]
  refine held_settings (hs.announced document) ?_ ?_ _
  · rw [hcalm.names, hlookup]
  · rw [hcalm.held, hheld]

/-- A variable that is not registered keeps its value. -/
theorem value?_load_of_unregistered (hs : s.Loadable) (hv : ∀ name, s.names.lookup name ≠ some v)
    (document : Node) : (s.load document).1.value? v = s.value? v := by
  have hkeep : ∀ (t : State), t.Loadable → t.names = s.names → ∀ settings : List (String × Node),
      (settings.foldl (applied assign) t).value? v = t.value? v := by
    intro t ht hnames settings
    induction settings generalizing t with
    | nil => rfl
    | cons setting settings ih =>
        have hnames' := (shaped_applied ht setting).names.trans hnames
        rw [List.foldl_cons, ih _ (ht.applied setting) hnames', value?_applied ht]
        rw [hnames]
        exact hv setting.1
  have hcalm := calm_announced s document
  rw [load_fst, ← hcalm.value? v]
  exact hkeep _ (hs.announced document) hcalm.names (flatten document)

/-- The report of a document sorts its stages by what comes of them. -/
theorem load_snd (hs : s.Loadable) (document : Node) : (s.load document).2 = {
    invalid := invalidPaths document
    updated := ((s.stagesOf document).filter (·.fate.isUpdated)).map (·.name)
    unchanged := ((s.stagesOf document).filter (·.fate.isUnchanged)).map (·.name)
    failed := (s.stagesOf document).filterMap (·.failure?) } := by
  have hreport : (s.load document).2 = ((flatten document).foldl (applySetting assign)
      (s.announced document, { invalid := invalidPaths document })).2 := rfl
  rw [hreport, foldl_applySetting_snd (hs.announced document)]
  rfl

theorem load_calls (hs : s.Loadable) (document : Node) : (s.load document).1.calls
    = s.calls ++ (s.stagesOf document).flatMap (·.notices) := by
  obtain ⟨l, hl⟩ := s.announced_eq document
  have hcalls := foldl_calls (hs.announced document) (flatten document)
  rw [show (s.announced document).calls = s.calls by rw [hl]] at hcalls
  rw [load_fst]
  exact hcalls

/-! ## What cannot be read -/

/-- The reason why a setting with a registered name cannot be read, if there is one. -/
def refusal? (s : State) (setting : String × Node) : Option (String × ConvertError) :=
  match s.names.lookup setting.1 with
  | none => none
  | some v => ((s.vars[v]?).map (·.kind)).bind fun kind =>
    match kind.ofNode setting.2 with
    | .error e => some (setting.1, e)
    | .ok _ => none

theorem Labelled.refusal?_eq (h : s.Labelled t) : t.refusal? = s.refusal? := by
  have hkind : ∀ v : VariableId, (t.vars[v]?).map (·.kind) = (s.vars[v]?).map (·.kind) := by
    intro v
    have hlabel := congrArg (Option.map fun label => label.2.1) (h.label v)
    rwa [Option.map_map, Option.map_map] at hlabel
  funext setting
  simp only [refusal?, h.names, hkind]

theorem failed_applySetting (s : State) (r : LoadReport) (setting : String × Node) :
    (applySetting assign (s, r) setting).2.failed = r.failed ++ (s.refusal? setting).toList := by
  obtain ⟨name, node⟩ := setting
  cases hlookup : s.names.lookup name with
  | none => simp [applySetting, refusal?, hlookup]
  | some v =>
      cases hx : s.vars[v]? with
      | none => simp [applySetting, refusal?, assignNode, hlookup, hx]
      | some x =>
          cases hread : x.kind.ofNode node with
          | error e => simp [applySetting, refusal?, assignNode, assignRead, hlookup, hx, hread]
          | ok value =>
              simp only [applySetting, refusal?, assignNode, assignRead, hlookup, hx, hread]
              cases assign s v value with
              | mk t changed => cases changed <;> simp [hread]

/-- What cannot be read is told by the kinds of the variables, and no listener changes those. -/
theorem failed_foldl_applySetting (settings : List (String × Node)) (s : State) (r : LoadReport) :
    (settings.foldl (applySetting assign) (s, r)).2.failed
      = r.failed ++ settings.filterMap s.refusal? := by
  induction settings generalizing s r with
  | nil => exact (List.append_nil _).symm
  | cons setting settings ih =>
      have hlabelled : s.Labelled (s.applied assign setting) :=
        Account.setting closed_labels labelled_assign s setting
      have hstep : applySetting assign (s, r) setting
          = (s.applied assign setting, (applySetting assign (s, r) setting).2) := by
        rw [← applySetting_fst s r setting]
      rw [List.foldl_cons, hstep, ih, failed_applySetting, hlabelled.refusal?_eq,
        List.append_assoc]
      cases hrefusal : s.refusal? setting <;> simp [hrefusal]

theorem load_failed (s : State) (document : Node) :
    (s.load document).2.failed = (flatten document).filterMap s.refusal? := by
  obtain ⟨l, hl⟩ := s.announced_eq document
  have hlabelled : s.Labelled (s.announced document) := hl ▸ labelled_of_eq rfl rfl
  rw [← hlabelled.refusal?_eq]
  exact failed_foldl_applySetting (flatten document) (s.announced document) _

theorem labelled_load (s : State) (document : Node) : s.Labelled (s.load document).1 :=
  Account.load closed_labels labelled_assign s document

/-! ## The law -/

/-- No value that the document has for a registered variable differs from itself, as not-a-number
does. -/
def Definite (s : State) (document : Node) : Prop :=
  ∀ name v x, s.names.lookup name = some v → s.vars[v]? = some x →
    ∀ node d, (name, node) ∈ flatten document → x.kind.ofNode node = .ok d → d.same d = true

/-- All values that the document has for one registered variable are the same. -/
def Consistent (s : State) (document : Node) : Prop :=
  ∀ name v x, s.names.lookup name = some v → s.vars[v]? = some x →
    ∀ m n a b, (name, m) ∈ flatten document → (name, n) ∈ flatten document →
      x.kind.ofNode m = .ok a → x.kind.ofNode n = .ok b → a.same b = true

/-- What applying a document a second time does. -/
structure Reloaded (s : State) (document : Node) : Prop where
  /-- Every variable has the value that it has after the first time. -/
  value : ∀ v, ((s.load document).1.load document).1.value? v = (s.load document).1.value? v
  failed : ((s.load document).1.load document).2.failed = (s.load document).2.failed
  invalid : ((s.load document).1.load document).2.invalid = (s.load document).2.invalid
  /-- Nothing changes on the way, and no listener is called, if and only if the document has no two
  values for one variable that differ. -/
  silent : ((s.load document).1.load document).2.updated = [] ∧
    ((s.load document).1.load document).1.calls = (s.load document).1.calls ↔
      s.Consistent document
  /-- It is enough that no registered name occurs twice. -/
  single : (∀ name v, s.names.lookup name = some v →
      ((flatten document).filter (·.1 == name)).length ≤ 1) → s.Consistent document

theorem Definite.readings_same {document : Node} (h : s.Definite document)
    (hlookup : s.names.lookup name = some v) (hheld : s.held v = some (k, c)) :
    ∀ d ∈ readings k name (flatten document), d.same d = true := by
  intro d hd
  obtain ⟨x, hx, rfl, -⟩ := held_eq_some.1 hheld
  obtain ⟨node, hnode, hread⟩ := mem_readings.1 hd
  exact h name v x hlookup hx node d hnode hread

theorem consistent_iff {document : Node} : s.Consistent document ↔
    ∀ name v k c, s.names.lookup name = some v → s.held v = some (k, c) →
      AllSame (readings k name (flatten document)) := by
  constructor
  · intro h name v k c hlookup hheld a ha b hb
    obtain ⟨x, hx, rfl, -⟩ := held_eq_some.1 hheld
    obtain ⟨m, hm, ha⟩ := mem_readings.1 ha
    obtain ⟨n, hn, hb⟩ := mem_readings.1 hb
    exact h name v x hlookup hx m n a b hm hn ha hb
  · intro h name v x hlookup hx m n a b hm hn ha hb
    exact h name v x.kind x.value hlookup (held_eq_some.2 ⟨x, hx, rfl, rfl⟩) a
      (mem_readings.2 ⟨m, hm, ha⟩) b (mem_readings.2 ⟨n, hn, hb⟩)

/-- A name that occurs once has one node only. -/
theorem Definite.consistent {document : Node} (h : s.Definite document)
    (hsingle : ∀ name v, s.names.lookup name = some v →
      ((flatten document).filter (·.1 == name)).length ≤ 1) : s.Consistent document := by
  intro name v x hlookup hx m n a b hm hn ha hb
  have hmem : ∀ node, (name, node) ∈ flatten document →
      (name, node) ∈ (flatten document).filter (·.1 == name) := fun node hnode =>
    List.mem_filter.2 ⟨hnode, beq_self_eq_true name⟩
  obtain ⟨e, he⟩ := List.length_eq_one_iff.1
    (Nat.le_antisymm (hsingle name v hlookup) (List.length_pos_of_mem (hmem m hm)))
  have hm' := hmem m hm
  have hn' := hmem n hn
  rw [he, List.mem_singleton] at hm' hn'
  obtain rfl : m = n := congrArg Prod.snd (hm'.trans hn'.symm)
  obtain rfl := Except.ok.inj (ha.symm.trans hb)
  exact h name v x hlookup hx m a hm ha

/-- Behind a document its variables have all the values that it has for them if and only if these are
the same. -/
theorem settled_load_iff (hs : s.Loadable) (document : Node) :
    (s.load document).1.Settled (flatten document) ↔ s.Consistent document := by
  rw [consistent_iff]
  have hshaped := (hs.load document).2
  constructor
  · intro h name v k c hlookup hheld a ha b hb
    have hsettled := h name v k _ (hshaped.names ▸ hlookup) (held_load hs hlookup hheld document)
    refine Value.same_trans ?_ (hsettled b hb)
    rw [Value.same_comm]
    exact hsettled a ha
  · intro h name v k c hlookup hheld d hd
    have hlookup' : s.names.lookup name = some v := hshaped.names ▸ hlookup
    obtain ⟨x, hx, -⟩ := hs.registered name v hlookup'
    have hx' : s.held v = some (x.kind, x.value) := held_eq_some.2 ⟨x, hx, rfl, rfl⟩
    have hload := held_load hs hlookup' hx' document
    obtain ⟨rfl, rfl⟩ := Prod.mk.injEq .. ▸ Option.some.inj (hload.symm.trans hheld)
    exact same_foldl_hold (h name v _ _ hlookup' hx') _ hd

/-- Nothing is updated if and only if the variables have all the values already, and then nobody is
called. -/
theorem updated_eq_nil_iff (hs : s.Loadable) (document : Node) :
    ((s.load document).2.updated = [] ∧ (s.load document).1.calls = s.calls) ↔
      s.Settled (flatten document) := by
  have hquiet : (s.announced document).Settled (flatten document) ↔
      ∀ g ∈ s.stagesOf document, g.fate.isUpdated = false :=
    (stages_quiet_iff (hs.announced document) (flatten document)).symm
  rw [← (calm_announced s document).settled_iff, hquiet, load_snd hs, load_calls hs]
  simp only [List.map_eq_nil_iff, List.filter_eq_nil_iff, List.append_right_eq_self,
    List.flatMap_eq_nil_iff, Bool.not_eq_true]
  refine ⟨fun h => h.1, fun h => ⟨h, fun g hg => ?_⟩⟩
  have hfate := h g hg
  unfold Stage.notices
  cases hcase : g.fate with
  | updated old new =>
      rw [hcase] at hfate
      cases hfate
  | failed e => rfl
  | unchanged => rfl

/-- Applying a document a second time right after the first. -/
theorem load_again (hs : s.Loadable) {document : Node} (hd : s.Definite document) :
    Reloaded s document := by
  obtain ⟨hfirst, hshaped⟩ := hs.load document
  constructor
  case value =>
    intro v
    by_cases hv : ∃ name, s.names.lookup name = some v
    · obtain ⟨name, hlookup⟩ := hv
      obtain ⟨x, hx, -⟩ := hs.registered name v hlookup
      have hheld : s.held v = some (x.kind, x.value) := held_eq_some.2 ⟨x, hx, rfl, rfl⟩
      have hload := held_load hs hlookup hheld document
      have hagain := held_load hfirst (hshaped.names ▸ hlookup) hload document
      rw [foldl_hold_foldl_hold (hd.readings_same hlookup hheld), ← hload] at hagain
      rw [value?_eq_held, value?_eq_held, hagain]
    · refine value?_load_of_unregistered hfirst (fun name hlookup => hv ⟨name, ?_⟩) document
      exact hshaped.names ▸ hlookup
  case failed => rw [load_failed, load_failed, (labelled_load s document).refusal?_eq]
  case invalid => rw [load_snd hs, load_snd hfirst]
  case silent => rw [updated_eq_nil_iff hfirst, settled_load_iff hs]
  case single => exact hd.consistent

/-- A document is definite for variables of kinds without not-a-number. -/
theorem definite_of_reflexive (h : ∀ name v x, s.names.lookup name = some v →
    s.vars[v]? = some x → x.kind.Reflexive) (document : Node) : s.Definite document :=
  fun name v x hlookup hx node d _ hread => h name v x hlookup hx node d hread

/-- One setting for each name, in whatever case it is written. -/
def distinct : Node := .mapping [(.string "App", .mapping [
  (.string "LEVEL", .string "debug"), (.string "retries", .string "lots")])]

theorem load_again_settled : settled.Loadable ∧ settled.Definite overlapping ∧
    settled.Definite distinct ∧
    ¬ (((settled.load overlapping).1.load overlapping).2.updated = [] ∧
      ((settled.load overlapping).1.load overlapping).1.calls
        = (settled.load overlapping).1.calls) ∧
    ((settled.load distinct).1.load distinct).2.updated = [] ∧
    ((settled.load distinct).1.load distinct).2.failed.map (·.1) = ["app.retries"] := by
  have hdefinite := definite_of_reflexive exact_settled
  have hlaw := load_again loadable_settled (hdefinite overlapping)
  have hdistinct := load_again loadable_settled (hdefinite distinct)
  refine ⟨loadable_settled, hdefinite overlapping, hdefinite distinct, ?_, ?_, ?_⟩
  · rw [hlaw.silent]
    intro hsame
    have hlevel := hsame "app.level" 0 _ rfl rfl (.string "debug") (.string "warn") _ _
      (List.mem_of_getElem? (i := 1) rfl) (List.mem_of_getElem? (i := 2) rfl) rfl rfl
    exact absurd hlevel (by decide)
  · refine (hdistinct.silent.2 (hdistinct.single fun name v _ => ?_)).1
    have hnodup : ((flatten distinct).map (·.1)).Nodup := by decide
    have hcount := List.nodup_iff_count_le_one.1 hnodup name
    rwa [List.count, List.countP_map, List.countP_eq_length_filter] at hcount
  · rw [hdistinct.failed]
    decide

end State

end ConfigLog.Config
