import ConfigLog.Proofs.Config.Passive
import ConfigLog.Proofs.Value.Reflexive

set_option autoImplicit false

/-! # What applying a document does

A document is applied in stages, one for each setting with a registered name. What comes of a stage
is settled by the node and the value that the variable has just before (`Stage.fate`): the report
sorts the stages by it, listeners are told of the stages that bring a new value, and in the end each
variable holds what was read from the last node that could be read for it (`load_law`).
-/

namespace ConfigLog.Config

/-! ## Stages -/

/-- What comes of a setting. -/
inductive Fate where
  /-- The node cannot be read. -/
  | failed (e : ConvertError)
  /-- The variable has the value already. -/
  | unchanged
  | updated (old new : Value)

/-- A setting with a registered name, with the state just before it is applied. -/
structure Stage where
  name : String
  node : Node
  subject : VariableId
  before : State

namespace Fate

/-- The variable gets a new value. -/
def isUpdated : Fate → Bool
  | updated _ _ => true
  | _ => false

/-- The variable has the value already. -/
def isUnchanged : Fate → Bool
  | unchanged => true
  | _ => false

/-- Why the node cannot be read. -/
def error? : Fate → Option ConvertError
  | failed e => some e
  | _ => none

end Fate

namespace State

/-- What comes of setting a variable from a node. -/
def fate (s : State) (v : VariableId) (node : Node) : Fate :=
  match s.vars[v]? with
  | none => .unchanged
  | some x =>
    match x.kind.ofNode node with
    | .error e => .failed e
    | .ok new => if x.value.same new then .unchanged else .updated x.value new

/-- The stages of some settings. -/
def stages : State → List (String × Node) → List Stage
  | _, [] => []
  | s, (name, node) :: settings =>
    (match s.names.lookup name with
      | none => []
      | some v => [{ name, node, subject := v, before := s }])
      ++ stages (s.applied assign (name, node)) settings

/-- The stages of a document. -/
def stagesOf (s : State) (document : Node) : List Stage :=
  stages (s.announced document) (flatten document)

/-- The setting has a registered name. -/
def knows (s : State) (setting : String × Node) : Bool := (s.names.lookup setting.1).isSome

/-- The listeners of a variable. -/
def listenersOf (s : State) (v : VariableId) : List (ListenerId × Listener) :=
  ((s.vars[v]?).map (·.listeners)).getD []

end State

namespace Stage

/-- What comes of a stage. -/
def fate (g : Stage) : Fate := g.before.fate g.subject g.node

/-- The name with the reason why the node cannot be read. -/
def failure? (g : Stage) : Option (String × ConvertError) := g.fate.error?.map fun e => (g.name, e)

/-- The calls of listeners in a stage. -/
def notices (g : Stage) : List Call :=
  match g.fate with
  | .updated old new => (g.before.listenersOf g.subject).map (State.record g.subject old new)
  | _ => []

end Stage

namespace State

variable {s t u : State} {v : VariableId} {x : Variable} {name : String} {node : Node}

/-! ## One setting -/

theorem fate_of_error (hx : s.vars[v]? = some x) {e : ConvertError}
    (hread : x.kind.ofNode node = .error e) : s.fate v node = .failed e := by
  simp only [fate, hx, hread]

theorem fate_of_same (hx : s.vars[v]? = some x) {new : Value}
    (hread : x.kind.ofNode node = .ok new) (hsame : x.value.same new = true) :
    s.fate v node = .unchanged := by
  simp only [fate, hx, hread, hsame, if_true]

theorem fate_of_ne (hx : s.vars[v]? = some x) {new : Value}
    (hread : x.kind.ofNode node = .ok new) (hne : x.value.same new = false) :
    s.fate v node = .updated x.value new := by
  simp only [fate, hx, hread, hne, Bool.false_eq_true, if_false]

/-- Registered names lead to their variables, no change is on its way, and all listeners are
passive. -/
structure Loadable (s : State) : Prop where
  registered : s.Registered
  idle : s.Idle
  passive : s.Passive

theorem Shaped.registered (h : s.Shaped t) (hs : s.Registered) : t.Registered :=
  hs.of_vars h.names fun v x hx => by
    obtain ⟨y, hy, hname, -⟩ := h.kind (v := v) hx
    exact ⟨y, hy, hname⟩

/-- What becomes of a state that a setting with a registered name is applied to. -/
theorem applied_cases (node : Node) (hs : s.Loadable)
    (hlookup : s.names.lookup name = some v) (hx : s.vars[v]? = some x) :
    (∃ e, x.kind.ofNode node = .error e ∧ s.fate v node = .failed e ∧
      s.Calm (s.applied assign (name, node)) ∧
      (s.applied assign (name, node)).calls = s.calls) ∨
    (∃ new, x.kind.ofNode node = .ok new ∧ x.value.same new = true ∧
      s.fate v node = .unchanged ∧ s.applied assign (name, node) = s) ∨
    ∃ new, x.kind.ofNode node = .ok new ∧ x.value.same new = false ∧
      s.fate v node = .updated x.value new ∧
      Replaced s v x new (s.applied assign (name, node)) := by
  have hc := hs.idle.not_locked hx
  have happlied : s.applied assign (name, node)
      = (s.assignRead assign v x "convert node into" (x.kind.ofNode node)).1 := by
    rw [applied_of_lookup hlookup]
    simp only [assignNode, hx]
  cases hread : x.kind.ofNode node with
  | error e =>
      rw [happlied, hread]
      exact .inl ⟨e, rfl, fate_of_error hx hread, calm_logging s _, rfl⟩
  | ok new =>
      rw [hread] at happlied
      cases hsame : x.value.same new with
      | true =>
          refine .inr (.inl ⟨new, rfl, hsame, fate_of_same hx hread hsame, happlied.trans ?_⟩)
          show (s.assign v new).1 = s
          rw [assign_eq_transition, transition_of_same hx hc hsame]
      | false =>
          rw [happlied]
          exact .inr (.inr ⟨new, rfl, hsame, fate_of_ne hx hread hsame,
            assign_passive hs.passive hs.idle hx hsame⟩)

/-- A setting leaves everything but values, listeners and loggers as it is. -/
theorem shaped_applied (hs : s.Loadable) (setting : String × Node) :
    s.Shaped (s.applied assign setting) := by
  obtain ⟨name, node⟩ := setting
  cases hlookup : s.names.lookup name with
  | none =>
      rw [applied_of_lookup_eq_none hlookup]
      exact .refl s
  | some v =>
      obtain ⟨x, hx, -⟩ := hs.registered name v hlookup
      rcases applied_cases node hs hlookup hx with
        ⟨e, -, -, hcalm, -⟩ | ⟨new, -, -, -, heq⟩ | ⟨new, -, -, -, hreplaced⟩
      · exact hcalm.toShaped
      · rw [heq]
        exact .refl s
      · exact hreplaced.toShaped

theorem Loadable.applied (hs : s.Loadable) (setting : String × Node) :
    (s.applied assign setting).Loadable where
  registered := (shaped_applied hs setting).registered hs.registered
  idle := (Account.setting closed_sameFlags sameFlags_covers s setting).idle hs.idle
  passive := (shaped_applied hs setting).passive hs.passive

/-- A setting of another name leaves a variable its value. -/
theorem value?_applied (hs : s.Loadable) {setting : String × Node}
    (h : s.names.lookup setting.1 ≠ some v) :
    (s.applied assign setting).value? v = s.value? v := by
  obtain ⟨name, node⟩ := setting
  cases hlookup : s.names.lookup name with
  | none => rw [applied_of_lookup_eq_none hlookup]
  | some w =>
      have hw : v ≠ w := by
        rintro rfl
        exact h hlookup
      obtain ⟨x, hx, -⟩ := hs.registered name w hlookup
      rcases applied_cases node hs hlookup hx with
        ⟨e, -, -, hcalm, -⟩ | ⟨new, -, -, -, heq⟩ | ⟨new, -, -, -, hreplaced⟩
      · exact hcalm.value? v
      · rw [heq]
      · exact hreplaced.others v hw

/-- The calls of listeners that a setting brings about are those of its stage. -/
theorem calls_applied (hs : s.Loadable) (hlookup : s.names.lookup name = some v) (node : Node) :
    (s.applied assign (name, node)).calls
      = s.calls ++ Stage.notices { name, node, subject := v, before := s } := by
  obtain ⟨x, hx, -⟩ := hs.registered name v hlookup
  have hlisteners : s.listenersOf v = x.listeners := by
    rw [listenersOf, hx]
    rfl
  unfold Stage.notices Stage.fate
  rcases applied_cases node hs hlookup hx with
    ⟨e, -, hfate, -, hcalls⟩ | ⟨new, -, -, hfate, heq⟩ | ⟨new, -, -, hfate, hreplaced⟩
  · simp only [hfate, hcalls, List.append_nil]
  · simp only [hfate, heq, List.append_nil]
  · simp only [hfate, hlisteners]
    exact hreplaced.calls

/-! ## The report -/

/-- Enters what has come of a setting into a report. -/
def Fate.enter (r : LoadReport) (name : String) : Fate → LoadReport
  | .failed e => { r with failed := r.failed ++ [(name, e)] }
  | .unchanged => { r with unchanged := r.unchanged ++ [name] }
  | .updated _ _ => { r with updated := r.updated ++ [name] }

theorem applySetting_snd (hs : s.Loadable) (hlookup : s.names.lookup name = some v)
    (r : LoadReport) (node : Node) :
    (applySetting assign (s, r) (name, node)).2 = Fate.enter r name (s.fate v node) := by
  obtain ⟨x, hx, -⟩ := hs.registered name v hlookup
  have hc := hs.idle.not_locked hx
  simp only [applySetting, hlookup, assignNode, hx]
  cases hread : x.kind.ofNode node with
  | error e =>
      rw [fate_of_error hx hread]
      rfl
  | ok new =>
      cases hsame : x.value.same new with
      | true =>
          have hassign := assign_eq_transition s v new
          rw [transition_of_same hx hc hsame] at hassign
          rw [fate_of_same hx hread hsame]
          simp only [assignRead, hassign]
          rfl
      | false =>
          have hassign : (s.assign v new).2 = true := by
            rw [assign_eq_transition]
            simp only [transition, hx, hc, hsame, Bool.false_eq_true, if_false]
          rw [fate_of_ne hx hread hsame]
          simp only [assignRead, hassign]
          rfl

theorem applySetting_of_lookup_eq_none (hlookup : s.names.lookup name = none) (r : LoadReport)
    (node : Node) : applySetting assign (s, r) (name, node) = (s, r) := by
  simp only [applySetting, hlookup]

theorem applySetting_eq (r : LoadReport) (setting : String × Node) :
    applySetting assign (s, r) setting
      = (s.applied assign setting, (applySetting assign (s, r) setting).2) :=
  Prod.ext (applySetting_fst s r setting) rfl

/-- The report of some settings sorts their stages by what comes of them. -/
theorem foldl_applySetting_snd (hs : s.Loadable) (settings : List (String × Node))
    (r : LoadReport) :
    (settings.foldl (applySetting assign) (s, r)).2 = { r with
      updated := r.updated ++ ((stages s settings).filter (·.fate.isUpdated)).map (·.name)
      unchanged := r.unchanged ++ ((stages s settings).filter (·.fate.isUnchanged)).map (·.name)
      failed := r.failed ++ (stages s settings).filterMap (·.failure?) } := by
  induction settings generalizing s r with
  | nil => simp [stages]
  | cons setting settings ih =>
      obtain ⟨name, node⟩ := setting
      have hrest := ih (hs.applied (name, node)) (applySetting assign (s, r) (name, node)).2
      rw [← applySetting_eq] at hrest
      rw [List.foldl_cons, hrest]
      cases hlookup : s.names.lookup name with
      | none =>
          rw [applySetting_of_lookup_eq_none hlookup]
          simp only [stages, hlookup, List.nil_append]
      | some v =>
          rw [applySetting_snd hs hlookup]
          simp only [stages, hlookup, List.cons_append, List.nil_append]
          cases hfate : s.fate v node <;>
            simp [Fate.enter, Stage.failure?, Stage.fate, hfate, Fate.isUpdated, Fate.isUnchanged,
              Fate.error?]

/-! ## Several settings -/

theorem stages_settings (hs : s.Loadable) (settings : List (String × Node)) :
    (stages s settings).map (fun g => (g.name, g.node)) = settings.filter s.knows := by
  induction settings generalizing s with
  | nil => rfl
  | cons setting settings ih =>
      obtain ⟨name, node⟩ := setting
      have hrest := ih (hs.applied (name, node))
      have hknows : (s.applied assign (name, node)).knows = s.knows := by
        funext other
        rw [knows, knows, (shaped_applied hs (name, node)).names]
      rw [hknows] at hrest
      cases hlookup : s.names.lookup name with
      | none =>
          rw [List.filter_cons_of_neg (by simp [knows, hlookup]), ← hrest]
          simp only [stages, hlookup, List.nil_append]
      | some v =>
          rw [List.filter_cons_of_pos (by simp [knows, hlookup]), ← hrest]
          simp only [stages, hlookup, List.cons_append, List.nil_append, List.map_cons]

theorem foldl_calls (hs : s.Loadable) (settings : List (String × Node)) :
    (settings.foldl (applied assign) s).calls
      = s.calls ++ (stages s settings).flatMap (·.notices) := by
  induction settings generalizing s with
  | nil => simp [stages]
  | cons setting settings ih =>
      obtain ⟨name, node⟩ := setting
      rw [List.foldl_cons, ih (hs.applied (name, node))]
      cases hlookup : s.names.lookup name with
      | none =>
          rw [applied_of_lookup_eq_none hlookup]
          simp only [stages, hlookup, List.nil_append, applied_of_lookup_eq_none hlookup]
      | some v =>
          rw [calls_applied hs hlookup node]
          simp only [stages, hlookup, List.cons_append, List.nil_append, List.flatMap_cons,
            List.append_assoc]

/-- Settings without registered names make no difference. -/
theorem foldl_applySetting_filter (hs : s.Loadable) (settings : List (String × Node))
    (r : LoadReport) : settings.foldl (applySetting assign) (s, r)
      = (settings.filter s.knows).foldl (applySetting assign) (s, r) := by
  induction settings generalizing s r with
  | nil => rfl
  | cons setting settings ih =>
      obtain ⟨name, node⟩ := setting
      cases hlookup : s.names.lookup name with
      | none =>
          rw [List.filter_cons_of_neg (by simp [knows, hlookup]), List.foldl_cons,
            applySetting_of_lookup_eq_none hlookup]
          exact ih hs r
      | some v =>
          have hknows : (s.applied assign (name, node)).knows = s.knows := by
            funext other
            rw [knows, knows, (shaped_applied hs (name, node)).names]
          rw [List.filter_cons_of_pos (by simp [knows, hlookup]), List.foldl_cons, List.foldl_cons,
            applySetting_eq, ih (hs.applied (name, node)), hknows]

theorem Loadable.foldl (hs : s.Loadable) (settings : List (String × Node)) :
    (settings.foldl (State.applied assign) s).Loadable ∧
      s.Shaped (settings.foldl (State.applied assign) s) := by
  induction settings generalizing s with
  | nil => exact ⟨hs, .refl s⟩
  | cons setting settings ih =>
      obtain ⟨hrest, hshaped⟩ := ih (hs.applied setting)
      exact ⟨hrest, (shaped_applied hs setting).trans hshaped⟩

/-- A variable of which no setting says anything that can be read keeps its value. -/
theorem value?_foldl (hs : s.Loadable) (hx : s.vars[v]? = some x)
    (settings : List (String × Node))
    (h : ∀ setting ∈ settings, s.names.lookup setting.1 = some v →
      ∀ value, x.kind.ofNode setting.2 ≠ .ok value) :
    (settings.foldl (applied assign) s).value? v = s.value? v := by
  induction settings generalizing s x with
  | nil => rfl
  | cons setting settings ih =>
      have hshaped := shaped_applied hs setting
      obtain ⟨y, hy, -, hkind⟩ := hshaped.kind hx
      have hvalue : (s.applied assign setting).value? v = s.value? v := by
        by_cases hlookup : s.names.lookup setting.1 = some v
        · have hread := h setting List.mem_cons_self hlookup
          rcases applied_cases setting.2 hs hlookup hx with
            ⟨e, -, -, hcalm, -⟩ | ⟨new, hok, -⟩ | ⟨new, hok, -⟩
          · exact hcalm.value? v
          · exact absurd hok (hread new)
          · exact absurd hok (hread new)
        · exact value?_applied hs hlookup
      rw [List.foldl_cons, ← hvalue]
      -- the variable has its kind and its name still, so what is assumed of settings holds of it
      refine ih (hs.applied setting) hy fun other hother hlookup => ?_
      rw [hkind]
      exact h other (List.mem_cons_of_mem setting hother) (hshaped.names ▸ hlookup)

/-- A variable holds what was read from the last node that could be read for it. -/
theorem same_foldl (hs : s.Loadable) (hlookup : s.names.lookup name = some v)
    (hx : s.vars[v]? = some x) (hk : x.kind.Reflexive) {before after : List (String × Node)}
    {new : Value} (hread : x.kind.ofNode node = .ok new)
    (hafter : ∀ setting ∈ after, setting.1 = name → ∀ value,
      x.kind.ofNode setting.2 ≠ .ok value) :
    ∃ value, ((before ++ (name, node) :: after).foldl (applied assign) s).value? v = some value ∧
      value.same new = true := by
  obtain ⟨ht, hshaped⟩ := hs.foldl before
  rw [List.foldl_append, List.foldl_cons]
  generalize before.foldl (applied assign) s = t at ht hshaped ⊢
  obtain ⟨y, hy, hname, hkind⟩ := hshaped.kind hx
  have hylookup : t.names.lookup name = some v := hshaped.names ▸ hlookup
  -- after the setting the variable has the value, and those that follow leave it alone
  have hvalue : ∃ value, (t.applied assign (name, node)).value? v = some value ∧
      value.same new = true := by
    rcases applied_cases node ht hylookup hy with
      ⟨e, herror, -⟩ | ⟨other, hok, hsame, -, heq⟩ | ⟨other, hok, -, -, hreplaced⟩
    · rw [hkind, hread] at herror
      cases herror
    · rw [hkind, hread] at hok
      obtain rfl := Except.ok.inj hok
      exact ⟨y.value, by rw [heq, value?_of_getElem? hy], hsame⟩
    · rw [hkind, hread] at hok
      obtain rfl := Except.ok.inj hok
      exact ⟨new, hreplaced.value, hk node new hread⟩
  have hshaped' := shaped_applied ht (name, node)
  obtain ⟨z, hz, -, hzkind⟩ := hshaped'.kind hy
  rw [value?_foldl (ht.applied (name, node)) hz after]
  · exact hvalue
  · intro setting hsetting hslookup
    rw [hzkind, hkind]
    refine hafter setting hsetting ?_
    -- each variable is registered under its own name only
    obtain ⟨z', hz', hzname⟩ := (ht.applied (name, node)).registered setting.1 v hslookup
    obtain ⟨w, hw, hwname⟩ := (ht.applied (name, node)).registered name v
      (hshaped'.names ▸ hylookup)
    rw [← hzname, ← hwname, Option.some.inj (hz'.symm.trans hw)]

/-! ## The law -/

/-- What applying a document does. -/
structure Loaded (s : State) (document : Node) : Prop where
  /-- There is a stage for each setting with a registered name, in order. -/
  settings : (s.stagesOf document).map (fun g => (g.name, g.node))
    = (flatten document).filter s.knows
  updated : (s.load document).2.updated
    = ((s.stagesOf document).filter (·.fate.isUpdated)).map (·.name)
  unchanged : (s.load document).2.unchanged
    = ((s.stagesOf document).filter (·.fate.isUnchanged)).map (·.name)
  failed : (s.load document).2.failed = (s.stagesOf document).filterMap (·.failure?)
  calls : (s.load document).1.calls = s.calls ++ (s.stagesOf document).flatMap (·.notices)
  /-- A variable keeps its value if nothing that is said of it can be read. -/
  keeps : ∀ v x, s.vars[v]? = some x →
    (∀ setting ∈ flatten document, s.names.lookup setting.1 = some v →
      ∀ value, x.kind.ofNode setting.2 ≠ .ok value) →
    (s.load document).1.value? v = some x.value
  /-- Otherwise it holds what was read from the last node that can be read for it. -/
  last : ∀ name v x, s.names.lookup name = some v → s.vars[v]? = some x →
    ∀ before node after new, flatten document = before ++ (name, node) :: after →
    x.kind.ofNode node = .ok new →
    (∀ setting ∈ after, setting.1 = name → ∀ value, x.kind.ofNode setting.2 ≠ .ok value) →
    ∃ value, (s.load document).1.value? v = some value ∧ value.same new = true
  /-- Settings without registered names make no difference. -/
  unknown : ∀ r, (flatten document).foldl (applySetting assign) (s.announced document, r)
    = ((flatten document).filter s.knows).foldl (applySetting assign) (s.announced document, r)
  names : (s.load document).1.names = s.names
  stuck : (s.load document).1.stuck = s.stuck

theorem announced_eq (s : State) (document : Node) :
    ∃ l, s.announced document = { s with logging := l } := by
  have h : ∀ rs : List Logging.Record, ∃ l, rs.foldl emit s = { s with logging := l } := by
    intro rs
    induction rs using List.reverseRecOn with
    | nil => exact ⟨s.logging, rfl⟩
    | append_singleton rs r ih =>
        obtain ⟨l, hl⟩ := ih
        rw [List.foldl_append, hl]
        exact ⟨l.emit r, rfl⟩
  exact h _

/-- Applying a document to registered variables whose kinds compare every value equal to itself,
with listeners that set no variables and apply no documents. -/
theorem load_law (hs : s.Loadable)
    (hk : ∀ name v x, s.names.lookup name = some v → s.vars[v]? = some x → x.kind.Reflexive)
    (document : Node) : Loaded s document := by
  -- warnings of paths that are not valid go to loggers, so all else is as it was
  obtain ⟨l, hl⟩ := s.announced_eq document
  have ha : (s.announced document).Loadable := by
    rw [hl]
    exact ⟨hs.registered, hs.idle, hs.passive⟩
  have hshaped : s.Shaped (s.announced document) := hl ▸ (calm_logging s l).toShaped
  have hvars : (s.announced document).vars = s.vars := by rw [hl]
  have hknows : (s.announced document).knows = s.knows := by
    funext setting
    rw [knows, knows, hshaped.names]
  have hreport : (s.load document).2 = ((flatten document).foldl (applySetting assign)
      (s.announced document, { invalid := invalidPaths document })).2 := rfl
  have hend : (s.load document).1 = ((flatten document).foldl (applied assign)
      (s.announced document)).emit (appliedRecord (s.load document).2) :=
    loadWith_fst s document
  rw [foldl_applySetting_snd ha] at hreport
  have hvalue : ∀ v, (s.load document).1.value? v
      = ((flatten document).foldl (applied assign) (s.announced document)).value? v := by
    intro v
    rw [hend]
    rfl
  constructor
  case settings => rw [stagesOf, stages_settings ha, hknows]
  case updated =>
    rw [hreport]
    exact List.nil_append _
  case unchanged =>
    rw [hreport]
    exact List.nil_append _
  case failed =>
    rw [hreport]
    exact List.nil_append _
  case calls =>
    have hcalls := foldl_calls ha (flatten document)
    rw [show (s.announced document).calls = s.calls by rw [hl]] at hcalls
    rw [hend]
    exact hcalls
  case keeps =>
    intro v x hx hread
    have hax : (s.announced document).vars[v]? = some x := hvars ▸ hx
    rw [hvalue, value?_foldl ha hax _ (hshaped.names ▸ hread), value?_of_getElem? hax]
  case last =>
    intro name v x hlookup hx before node after new hsplit hread hafter
    rw [hvalue, hsplit]
    exact same_foldl ha (hshaped.names ▸ hlookup) (hvars ▸ hx) (hk name v x hlookup hx) hread hafter
  case unknown =>
    intro r
    rw [foldl_applySetting_filter ha, hknows]
  case names =>
    rw [hend]
    exact (ha.foldl (flatten document)).2.names.trans hshaped.names
  case stuck =>
    rw [hend]
    exact (ha.foldl (flatten document)).2.stuck.trans hshaped.stuck

/-- Two registered variables with passive listeners, one of a text and one of a number. -/
def settled : State := (fresh { files := .start [] }).session [
  .obtain "app.level" .string (.string "info") "", .obtain "app.retries" (.whole .u8) (.whole 3) "",
  .listen 0 {
    tag := some "first"
    told := fun _ new => .remember new (.listen 0 (some "late") (fun _ _ => .done) fun _ => .done) },
  .listen 1 { tag := some "other" }]

theorem loadable_settled : settled.Loadable where
  registered := registered_session _ _
  idle := idle_session (idle_fresh _) _
  passive := by
    intro v x hx l hl
    have hv : v < 2 := (Array.getElem?_eq_some_iff.1 hx).1
    match v, hv with
    | 0, _ =>
        obtain rfl := Option.some.inj hx
        obtain rfl := List.mem_singleton.1 hl
        exact fun old new => ⟨fun _ _ => trivial, fun _ => trivial⟩
    | 1, _ =>
        obtain rfl := Option.some.inj hx
        obtain rfl := List.mem_singleton.1 hl
        exact fun _ _ => trivial

theorem exact_settled : ∀ name v x, settled.names.lookup name = some v →
    settled.vars[v]? = some x → x.kind.Reflexive := by
  intro name v x _ hx
  have hv : v < 2 := (Array.getElem?_eq_some_iff.1 hx).1
  match v, hv with
  | 0, _ =>
      obtain rfl := Option.some.inj hx
      exact Kind.reflexive_of_isExact rfl
  | 1, _ =>
      obtain rfl := Option.some.inj hx
      exact Kind.reflexive_of_isExact rfl

/-- Two settings for the text, a number that cannot be read, and a name that is not registered. -/
def overlapping : Node := .mapping [(.string "app", .mapping [
  (.string "level", .string "debug"), (.string "LEVEL", .string "warn"),
  (.string "retries", .string "lots"), (.string "port", .integer 80)])]

theorem load_law_settled : settled.Loadable ∧ Loaded settled overlapping ∧
    (settled.load overlapping).2.updated = ["app.level", "app.level"] ∧
    (settled.load overlapping).2.failed.map (·.1) = ["app.retries"] ∧
    (settled.load overlapping).1.calls.map (·.tag) = [some "first", some "first", some "late"] := by
  have hlaw := load_law loadable_settled exact_settled overlapping
  refine ⟨loadable_settled, hlaw, ?_, ?_, ?_⟩
  · rw [hlaw.updated]
    decide
  · rw [hlaw.failed]
    decide
  · rw [hlaw.calls]
    decide

end State

end ConfigLog.Config
