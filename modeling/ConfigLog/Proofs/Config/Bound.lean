import ConfigLog.Config.Binding
import ConfigLog.Config.Change
import ConfigLog.Proofs.Logging.Course

set_option autoImplicit false

/-! # What a binding keeps

A binding is kept as long as no other listener reconciles the manager and nobody unties it
(`Bound`). `Moves` says what then becomes of a state: the logging state takes a course whose passes
lead the manager from the definitions that the variable held to those that it holds, one for each
time that the listener of the binding was told of a change. All that other listeners do is of that
kind (`moves_program`), and so is setting a variable (`tame_assign`).
-/

namespace ConfigLog.Config

open Logging (Definitions Pass)

/-! ## Other listeners -/

/-- A program leaves a binding alone, and so does each listener that it adds: it neither unties the
binding nor reconciles its manager, and to the variable of the binding it gives nothing but
definitions. -/
def Program.Spares (b : Binding) (m n : Nat) : Program → Prop
  | .done => True
  | .look next => ∀ view, (next view).Spares b m n
  | .remember _ next => next.Spares b m n
  | .listen _ _ told next =>
    (∀ old new, (told old new).Spares b m n) ∧ ∀ i, (next i).Spares b m n
  | .listenWith _ init _ told next =>
    (∀ value, (init value).Spares b m n) ∧ (∀ old new, (told old new).Spares b m n) ∧
      ∀ i, (next i).Spares b m n
  | .unlisten v i next => (v = b.subject → i ≠ b.listener) ∧ ∀ found, (next found).Spares b m n
  | .unlistenAll v next => v ≠ b.subject ∧ next.Spares b m n
  | .assign v value next =>
    (v = b.subject → ∃ ds, value = .definitions ds) ∧ ∀ changed, (next changed).Spares b m n
  | .load _ next => ∀ report, (next report).Spares b m n
  | .turn (.reconcile k _ _) next => (k ≠ m ∧ k < n) ∧ next.Spares b m n
  | .turn _ next => next.Spares b m n

/-- All that a listener does leaves a binding alone. -/
def Listener.Spares (b : Binding) (m n : Nat) (l : Listener) : Prop :=
  ∀ old new, (l.told old new).Spares b m n

/-! ## Passes of a variable -/

/-- The sets of a pass as values of a variable. -/
def pair (p : Pass) : Value × Value := (.definitions p.old, .definitions p.new)

/-- Passes that lead from one set of definitions to another, each from where the one before it
ended, and none to where it starts. -/
def Chain : Definitions → List Pass → Definitions → Prop
  | ds, [], es => es = ds
  | ds, p :: ps, es => p.old = ds ∧ p.old.same p.new = false ∧ Chain p.new ps es

theorem Chain.append {ds es fs : Definitions} {ps qs : List Pass} (h : Chain ds ps es)
    (h' : Chain es qs fs) : Chain ds (ps ++ qs) fs := by
  induction ps generalizing ds with
  | nil => exact (show es = ds from h) ▸ h'
  | cons p ps ih => exact ⟨h.1, h.2.1, ih h.2.2⟩

namespace State

variable {b : Binding} {m n : Nat} {s t u : State} {ps qs : List Pass}

/-- The definitions that a variable holds. -/
def current (s : State) (v : VariableId) : Definitions :=
  match s.value? v with
  | some (.definitions ds) => ds
  | _ => .empty

/-- What a listener has been told so far: the old and the new values. -/
def told (s : State) (i : ListenerId) : List (Value × Value) :=
  (s.calls.filter (·.listener == i)).map fun c => (c.old, c.new)

/-! ## The invariant -/

/-- A manager is bound: the variable holds definitions and has the listener of the binding, and all
other listeners leave it alone. The managers that they reconcile are among the first `n`. -/
structure Bound (b : Binding) (m n : Nat) (s : State) : Prop where
  intact : s.logging.Intact m
  size : n ≤ s.logging.managers.size
  next : b.listener < s.nextListener
  subject : ∃ x, s.vars[b.subject]? = some x ∧ x.kind = .definitions ∧
    (∃ ds, x.value = .definitions ds) ∧
    x.listeners.filter (·.1 == b.listener) = [(b.listener, follower m)]
  others : ∀ v x, s.vars[v]? = some x → ∀ l ∈ x.listeners,
    (v = b.subject ∧ l.1 = b.listener) ∨ (l.1 ≠ b.listener ∧ l.2.Spares b m n)

/-- What becomes of a state while a manager stays bound, with the passes over the manager. -/
structure Moves (b : Binding) (m n : Nat) (s : State) (ps : List Pass) (t : State) : Prop where
  bound : t.Bound b m n
  course : Logging.State.Course m s.logging ps t.logging
  chain : Chain (s.current b.subject) ps (t.current b.subject)
  told : t.told b.listener = s.told b.listener ++ ps.map pair
  changing : t.isChanging b.subject = s.isChanging b.subject
  /-- While a change is on its way there is no other one. -/
  quiet : s.isChanging b.subject = true → ps = []

theorem Moves.refl (hs : s.Bound b m n) : Moves b m n s [] s where
  bound := hs
  course := .start _
  chain := rfl
  told := (List.append_nil _).symm
  changing := rfl
  quiet _ := rfl

theorem Moves.trans (h : Moves b m n s ps t) (h' : Moves b m n t qs u) :
    Moves b m n s (ps ++ qs) u where
  bound := h'.bound
  course := h.course.trans h'.course
  chain := h.chain.append h'.chain
  told := by rw [h'.told, h.told, List.map_append, List.append_assoc]
  changing := h'.changing.trans h.changing
  quiet hc := by rw [h.quiet hc, h'.quiet (h.changing.trans hc), List.append_nil]

/-- One thing after the other. -/
theorem moves_then (h : ∃ ps, Moves b m n s ps t)
    (h' : t.Bound b m n → ∃ ps, Moves b m n t ps u) : ∃ ps, Moves b m n s ps u := by
  obtain ⟨ps, hfirst⟩ := h
  obtain ⟨qs, hrest⟩ := h' hfirst.bound
  exact ⟨ps ++ qs, hfirst.trans hrest⟩

/-- What all steps of a fold do, the fold does. -/
theorem moves_foldl {α : Type} (step : State → α → State) (as : List α)
    (h : ∀ s : State, s.Bound b m n → ∀ a ∈ as, ∃ ps, Moves b m n s ps (step s a))
    (hs : s.Bound b m n) : ∃ ps, Moves b m n s ps (as.foldl step s) := by
  induction as generalizing s with
  | nil => exact ⟨[], .refl hs⟩
  | cons a as ih =>
      exact moves_then (h s hs a List.mem_cons_self)
        (ih fun s hs c hc => h s hs c (List.mem_cons_of_mem a hc))

/-! ## Changes of variables and of the logging state -/

/-- A variable may change as long as its kind stays, a variable with definitions keeps to them, the
listener of the binding stays, and new listeners leave the binding alone. -/
theorem Bound.modify (hs : s.Bound b m n) {v : VariableId} {f : Variable → Variable}
    (hf : ∀ x, v = b.subject → x.kind = .definitions → (∃ ds, x.value = .definitions ds) →
      (f x).kind = .definitions ∧ (∃ ds, (f x).value = .definitions ds) ∧
      (f x).listeners.filter (·.1 == b.listener) = x.listeners.filter (·.1 == b.listener))
    (hl : ∀ x, ∀ l ∈ (f x).listeners,
      l ∈ x.listeners ∨ (l.1 ≠ b.listener ∧ l.2.Spares b m n)) :
    (s.modify v f).Bound b m n where
  intact := hs.intact
  size := hs.size
  next := hs.next
  subject := by
    obtain ⟨x, hx, hkind, hvalue, hown⟩ := hs.subject
    by_cases hv : v = b.subject
    · obtain ⟨hkind', hvalue', hown'⟩ := hf x hv hkind hvalue
      refine ⟨f x, ?_, hkind', hvalue', hown'.trans hown⟩
      rw [getElem?_modify, if_pos hv, hx, Option.map_some]
    · exact ⟨x, by rw [getElem?_modify, if_neg hv, hx], hkind, hvalue, hown⟩
  others := by
    intro w y hy l hmem
    rw [getElem?_modify] at hy
    by_cases hv : v = w
    · subst hv
      rw [if_pos rfl] at hy
      obtain ⟨x, hx, rfl⟩ := Option.map_eq_some_iff.1 hy
      exact (hl x l hmem).elim (hs.others v x hx l) .inr
    · rw [if_neg hv] at hy
      exact hs.others w y hy l hmem

/-- A change of a variable that keeps the value of the one that is bound. -/
theorem moves_modify (hs : s.Bound b m n) {v : VariableId} {f : Variable → Variable}
    (hf : ∀ x, v = b.subject → (f x).kind = x.kind ∧ (f x).value = x.value ∧
      (f x).changing = x.changing ∧
      (f x).listeners.filter (·.1 == b.listener) = x.listeners.filter (·.1 == b.listener))
    (hl : ∀ x, ∀ l ∈ (f x).listeners,
      l ∈ x.listeners ∨ (l.1 ≠ b.listener ∧ l.2.Spares b m n)) :
    Moves b m n s [] (s.modify v f) := by
  -- what the change keeps can be read off the variable of the binding as before
  have hvar : ∀ {β : Type} (g : Variable → β), (∀ x, v = b.subject → g (f x) = g x) →
      ((s.modify v f).vars[b.subject]?).map g = (s.vars[b.subject]?).map g :=
    fun g hg => map_getElem?_modify (fun hv x => hg x hv) s
  refine ⟨hs.modify ?_ hl, .start _, ?_, (List.append_nil _).symm, ?_, fun _ => rfl⟩
  · intro x hv hkind hvalue
    obtain ⟨hk, hval, -, hown⟩ := hf x hv
    exact ⟨hk.trans hkind, by rw [hval]; exact hvalue, hown⟩
  · have hvalue := hvar (·.value) fun x hv => (hf x hv).2.1
    show (s.modify v f).current b.subject = s.current b.subject
    rw [current, current, value?, value?, hvalue]
  · have hchanging := hvar (·.changing) fun x hv => (hf x hv).2.2.1
    rw [isChanging, isChanging, hchanging]

theorem Bound.logging {l : Logging.State} (hs : s.Bound b m n)
    (h : Logging.State.Course m s.logging ps l) :
    ({ s with logging := l } : State).Bound b m n where
  intact := h.intact hs.intact
  size := by
    show n ≤ l.managers.size
    rw [h.size_managers hs.intact]
    exact hs.size
  next := hs.next
  subject := hs.subject
  others := hs.others

/-- The logging state may go on without a pass over the manager. -/
theorem moves_logging {l : Logging.State} (hs : s.Bound b m n)
    (h : Logging.State.Course m s.logging [] l) : Moves b m n s [] { s with logging := l } where
  bound := hs.logging h
  course := h
  chain := rfl
  told := (List.append_nil _).symm
  changing := rfl
  quiet _ := rfl

theorem moves_emit (hs : s.Bound b m n) (r : Logging.Record) : Moves b m n s [] (s.emit r) :=
  moves_logging hs (.emit (.start _) r)

/-- A binding depends on the variables, the calls, the loggers and the number that the next listener
gets, and on nothing else. -/
theorem moves_of_eq (hs : s.Bound b m n) (hvars : t.vars = s.vars) (hcalls : t.calls = s.calls)
    (hlogging : t.logging = s.logging) (hnext : s.nextListener ≤ t.nextListener) :
    Moves b m n s [] t where
  bound := by
    constructor
    case intact => exact hlogging ▸ hs.intact
    case size => exact hlogging ▸ hs.size
    case next => exact Nat.lt_of_lt_of_le hs.next hnext
    case subject => exact hvars ▸ hs.subject
    case others => exact hvars ▸ hs.others
  course := hlogging ▸ .start _
  chain := by
    show t.current b.subject = s.current b.subject
    rw [current, current, value?, value?, hvars]
  told := by
    rw [State.told, State.told, hcalls]
    exact (List.append_nil _).symm
  changing := by rw [isChanging, isChanging, hvars]
  quiet _ := rfl

theorem moves_stuck (hs : s.Bound b m n) : Moves b m n s [] { s with stuck := true } :=
  moves_of_eq hs rfl rfl rfl (Nat.le_refl _)

/-! ## Documents -/

/-- A way of setting variables keeps a manager bound, as long as the variable of the binding is
given definitions. -/
def Tame (b : Binding) (m n : Nat) (assign : Assign) : Prop :=
  ∀ s v value, s.Bound b m n → (v = b.subject → ∃ ds, value = .definitions ds) →
    ∃ ps, Moves b m n s ps (assign s v value).1

variable {assign : Assign}

theorem ofNode_definitions {node : Node} {value : Value}
    (h : Kind.definitions.ofNode node = .ok value) : ∃ ds, value = .definitions ds := by
  rw [Kind.ofNode] at h
  cases hd : definitionsOfNode node with
  | error e =>
      rw [hd] at h
      cases h
  | ok ds =>
      rw [hd] at h
      exact ⟨ds, (Except.ok.inj h).symm⟩

/-- What has been read for a variable of definitions are definitions. -/
theorem moves_assignRead (ha : Tame b m n assign) (hs : s.Bound b m n) {v : VariableId}
    (x : Variable) (attempt : String) {result : Except ConvertError Value}
    (h : v = b.subject → ∀ value, result = .ok value → ∃ ds, value = .definitions ds) :
    ∃ ps, Moves b m n s ps (s.assignRead assign v x attempt result).1 := by
  cases result with
  | error e => exact ⟨[], moves_emit hs _⟩
  | ok value => exact ha s v value hs fun hv => h hv value rfl

theorem moves_assignNode (ha : Tame b m n assign) (hs : s.Bound b m n) (v : VariableId)
    (node : Node) : ∃ ps, Moves b m n s ps (s.assignNode assign v node).1 := by
  unfold assignNode
  split
  · exact ⟨[], .refl hs⟩
  · rename_i x hx
    refine moves_assignRead ha hs x _ fun hv value hok => ?_
    -- the variable of the binding is one of definitions, so what is read for it is definitions
    obtain ⟨y, hy, hkind, -⟩ := hs.subject
    rw [hv, hy] at hx
    rw [← Option.some.inj hx, hkind] at hok
    exact ofNode_definitions hok

theorem moves_applySetting (ha : Tame b m n assign) (hs : s.Bound b m n) (r : LoadReport)
    (setting : String × Node) :
    ∃ ps, Moves b m n s ps (applySetting assign (s, r) setting).1 := by
  simp only [applySetting]
  split
  · exact ⟨[], .refl hs⟩
  · rename_i v hv
    have hn := moves_assignNode ha hs v setting.2
    split
    all_goals
      rename_i he
      rwa [he] at hn

theorem moves_loadWith (ha : Tame b m n assign) (hs : s.Bound b m n) (document : Node) :
    ∃ ps, Moves b m n s ps (s.loadWith assign document).1 := by
  -- the report that goes along has no part in what becomes of the state
  have hfold : ∀ (settings : List (String × Node)) (s : State) (r : LoadReport),
      s.Bound b m n → ∃ ps, Moves b m n s ps (settings.foldl (applySetting assign) (s, r)).1 := by
    intro settings
    induction settings with
    | nil => exact fun s _ hs => ⟨[], .refl hs⟩
    | cons setting settings ih =>
        intro s r hs
        obtain ⟨ps, hp⟩ := moves_applySetting ha hs r setting
        obtain ⟨qs, hq⟩ := ih _ (applySetting assign (s, r) setting).2 hp.bound
        exact ⟨ps ++ qs, hp.trans hq⟩
  obtain ⟨ps, hp⟩ := moves_foldl emit ((findings document).filterMap findingRecord?)
    (fun s hs r _ => ⟨[], moves_emit hs r⟩) hs
  obtain ⟨qs, hq⟩ := hfold (flatten document) _ { invalid := invalidPaths document } hp.bound
  exact ⟨_, (hp.trans hq).trans (moves_emit hq.bound _)⟩

/-! ## Listeners -/

theorem moves_remember (hs : s.Bound b m n) (note : Value) :
    Moves b m n s [] (s.remember note) :=
  moves_of_eq hs rfl rfl rfl (Nat.le_refl _)

theorem moves_listen (hs : s.Bound b m n) (v : VariableId) {l : Listener}
    (hl : l.Spares b m n) : Moves b m n s [] (s.listen v l).1 := by
  have hne : s.nextListener ≠ b.listener := Nat.ne_of_gt hs.next
  have hnext : Moves b m n s [] { s with nextListener := s.nextListener + 1 } :=
    moves_of_eq hs rfl rfl rfl (Nat.le_succ _)
  refine hnext.trans (moves_modify hnext.bound (fun x _ => ⟨rfl, rfl, rfl, ?_⟩) fun x l' hmem => ?_)
  · simp [List.filter_append, hne]
  · rcases List.mem_append.1 hmem with hmem | hmem
    · exact .inl hmem
    · rw [List.mem_singleton.1 hmem]
      exact .inr ⟨hne, hl⟩

theorem moves_unlisten (hs : s.Bound b m n) {v : VariableId} {i : ListenerId}
    (h : v = b.subject → i ≠ b.listener) : Moves b m n s [] (s.unlisten v i).1 := by
  refine moves_modify hs (fun x hv => ⟨rfl, rfl, rfl, ?_⟩) fun x l hmem => ?_
  · rw [List.filter_filter]
    refine List.filter_congr fun l _ => ?_
    by_cases hl : l.1 = b.listener
    · simp [hl, Ne.symm (h hv)]
    · simp [hl]
  · exact .inl (List.mem_filter.1 hmem).1

theorem moves_unlistenAll (hs : s.Bound b m n) {v : VariableId} (h : v ≠ b.subject) :
    Moves b m n s [] (s.unlistenAll v) :=
  moves_modify hs (fun _ hv => absurd hv h) fun _ _ hmem => by cases hmem

/-- What is done to loggers without reconciling the manager. -/
theorem moves_turn (hs : s.Bound b m n) {t : Logging.Turn} {next : Program}
    (ht : (Program.turn t next).Spares b m n) :
    Moves b m n s [] (s.turn t) ∧ next.Spares b m n := by
  cases t with
  | report r => exact ⟨moves_logging hs (.emit (.start _) r), ht⟩
  | log i level e => exact ⟨moves_logging hs (.log (.start _) i level e), ht⟩
  | reconcile k old new =>
      obtain ⟨⟨hk, hlt⟩, hnext⟩ := ht
      exact ⟨moves_logging hs (.other (.start _) hk (Nat.lt_of_lt_of_le hlt hs.size) old new), hnext⟩

/-- Looking at a variable leaves the binding alone if that is so for what is done meanwhile. -/
theorem moves_listenAfter (hs : s.Bound b m n) {init : Value → State → State}
    (hinit : ∀ value (s : State), s.Bound b m n → ∃ ps, Moves b m n s ps (init value s))
    (v : VariableId) {l : Listener} (hl : l.Spares b m n) :
    ∃ ps, Moves b m n s ps (s.listenAfter init v l).1 := by
  cases hx : s.vars[v]? with
  | none =>
      simp only [listenAfter, hx]
      exact ⟨[], moves_listen hs v hl⟩
  | some x =>
      cases hc : x.locked with
      | true =>
          simp only [listenAfter, hx, hc, if_true]
          exact ⟨[], moves_stuck hs⟩
      | false =>
          have hmark : ∀ (s : State) (pinned : Bool), s.Bound b m n →
              Moves b m n s [] (s.modify v ({ · with pinned })) := fun s pinned hs =>
            moves_modify hs (fun _ _ => ⟨rfl, rfl, rfl, rfl⟩) fun _ _ hl => .inl hl
          have hpin := hmark s true hs
          obtain ⟨ps, hlook⟩ := hinit x.value _ hpin.bound
          have hlisten := moves_listen hlook.bound v hl
          rw [listenAfter_of_not_locked init hx hc]
          exact ⟨_, ((hpin.trans hlook).trans hlisten).trans (hmark _ false hlisten.bound)⟩

/-- A program that leaves the binding alone. -/
theorem moves_program (ha : Tame b m n assign) {p : Program} (hp : p.Spares b m n)
    (hs : s.Bound b m n) : ∃ ps, Moves b m n s ps (p.run assign s) := by
  induction p generalizing s with
  | done => exact ⟨[], .refl hs⟩
  | look next ih => exact ih s.view (hp s.view) hs
  | remember note next ih => exact moves_then ⟨[], moves_remember hs note⟩ (ih hp)
  | listen v tag told next _ ih =>
      exact moves_then ⟨[], moves_listen hs v (l := { tag, told }) hp.1⟩ (ih _ (hp.2 _))
  | listenWith v init tag told next ihinit _ ih =>
      obtain ⟨hinit, htold, hnext⟩ := hp
      exact moves_then (moves_listenAfter hs (fun value t ht => ihinit value (hinit value) ht) v
        (l := { tag, told }) htold) (ih _ (hnext _))
  | unlisten v i next ih => exact moves_then ⟨[], moves_unlisten hs hp.1⟩ (ih _ (hp.2 _))
  | unlistenAll v next ih => exact moves_then ⟨[], moves_unlistenAll hs hp.1⟩ (ih hp.2)
  | assign v value next ih => exact moves_then (ha s v value hs hp.1) (ih _ (hp.2 _))
  | load document next ih => exact moves_then (moves_loadWith ha hs document) (ih _ (hp _))
  | turn t next ih =>
      obtain ⟨hturn, hnext⟩ := moves_turn hs hp
      exact moves_then ⟨[], hturn⟩ (ih hnext)

/-- Calls of other listeners are recorded without touching what the binding has been told. -/
theorem moves_record (hs : s.Bound b m n) {c : Call} (h : c.listener ≠ b.listener) :
    Moves b m n s [] (s.note c) where
  bound := ⟨hs.intact, hs.size, hs.next, hs.subject, hs.others⟩
  course := .start _
  chain := rfl
  told := by simp [told, note, List.filter_append, h]
  changing := rfl
  quiet _ := rfl

theorem moves_call (ha : Tame b m n assign) (hs : s.Bound b m n) {v : VariableId}
    {l : ListenerId × Listener} (hne : l.1 ≠ b.listener) (hl : l.2.Spares b m n)
    (old new : Value) : ∃ ps, Moves b m n s ps (call assign v old new s l) := by
  unfold call
  split
  · exact ⟨[], .refl hs⟩
  · rename_i seen _
    have hr := moves_record hs
      (c := { subject := v, listener := l.1, tag := l.2.tag, old, new, seen }) hne
    obtain ⟨ps, hp⟩ := moves_program ha (hl old new) hr.bound
    exact ⟨_, hr.trans hp⟩

/-! ## Setting variables -/

/-- Setting another variable. -/
theorem moves_transition_of_ne (ha : Tame b m n assign) (hs : s.Bound b m n) {v : VariableId}
    (hv : v ≠ b.subject) (new : Value) :
    ∃ ps, Moves b m n s ps (transition assign s v new).1 := by
  unfold transition
  split
  · exact ⟨[], .refl hs⟩
  · rename_i x hx
    split
    · exact ⟨[], moves_stuck hs⟩
    · split
      · exact ⟨[], .refl hs⟩
      · have hmark : ∀ (s : State) (f : Variable → Variable), s.Bound b m n →
            (∀ x, (f x).listeners = x.listeners) → Moves b m n s [] (s.modify v f) :=
          fun s f hs hf => moves_modify hs (fun _ h => absurd h hv) fun x l hl => .inl (hf x ▸ hl)
        have h1 := hmark s ({ · with changing := true }) hs fun _ => rfl
        -- each listener of another variable leaves the binding alone
        obtain ⟨ps, h2⟩ := moves_foldl (call assign v x.value new) x.listeners
          (fun s' hs' l hl => by
            rcases hs.others v x hx l hl with ⟨h, -⟩ | ⟨hne, hsp⟩
            · exact absurd h hv
            · exact moves_call ha hs' hne hsp _ _) h1.bound
        exact ⟨_, (h1.trans h2).trans
          (hmark _ ({ · with value := new, changing := false }) h2.bound fun _ => rfl)⟩

theorem current_of_value? {v : VariableId} {ds : Definitions}
    (h : s.value? v = some (.definitions ds)) : s.current v = ds := by
  rw [current, h]

theorem Bound.value? (hs : s.Bound b m n) :
    s.value? b.subject = some (.definitions (s.current b.subject)) := by
  obtain ⟨x, hx, -, ⟨ds, hds⟩, -⟩ := hs.subject
  have hv : s.value? b.subject = some (.definitions ds) := by
    rw [State.value?, hx, Option.map_some, hds]
  rw [current_of_value? hv, hv]

/-- The listener of a binding has been told of a change that is on its way: it has made a pass, and
the variable holds what it held. -/
structure Notified (b : Binding) (m n : Nat) (old new : Definitions) (s t : State) : Prop where
  bound : t.Bound b m n
  course : ∃ r, Logging.State.Course m s.logging [⟨old, new, r⟩] t.logging
  current : t.current b.subject = s.current b.subject
  told : t.told b.listener = s.told b.listener ++ [(.definitions old, .definitions new)]
  changing : t.isChanging b.subject = s.isChanging b.subject

/-- Other listeners may be called before and after. -/
theorem Notified.between {old new : Definitions} {s' t' : State} (h : Moves b m n s [] s')
    (hn : Notified b m n old new s' t') (h' : Moves b m n t' [] t) :
    Notified b m n old new s t where
  bound := h'.bound
  course := by
    obtain ⟨r, hc⟩ := hn.course
    exact ⟨r, (h.course.trans hc).trans h'.course⟩
  current := by
    have hs' : s'.current b.subject = s.current b.subject := h.chain
    have ht : t.current b.subject = t'.current b.subject := h'.chain
    rw [ht, hn.current, hs']
  told := by
    have hs' : s'.told b.listener = s.told b.listener := by
      rw [h.told]
      exact List.append_nil _
    have ht : t.told b.listener = t'.told b.listener := by
      rw [h'.told]
      exact List.append_nil _
    rw [ht, hn.told, hs']
  changing := by rw [h'.changing, hn.changing, h.changing]

/-- The listener of the binding reconciles its manager, and that is all it does. -/
theorem notified_call (assign : Assign) (hs : s.Bound b m n) (old new : Definitions) :
    Notified b m n old new s
      (call assign b.subject (.definitions old) (.definitions new) s
        (b.listener, follower m)) := by
  have hcall : call assign b.subject (.definitions old) (.definitions new) s
      (b.listener, follower m) = { s with
        calls := s.calls ++ [{
          subject := b.subject, listener := b.listener, tag := none, old := .definitions old,
          new := .definitions new, seen := .definitions (s.current b.subject) }]
        logging := (s.logging.reconcile m old new).1 } := by
    simp only [call, hs.value?]
    rfl
  have hcourse : Logging.State.Course m s.logging
      [⟨old, new, (s.logging.reconcile m old new).2⟩] (s.logging.reconcile m old new).1 :=
    .pass (.start _) old new
  have hb := hs.logging hcourse
  rw [hcall]
  exact {
    bound := ⟨hb.intact, hb.size, hb.next, hb.subject, hb.others⟩
    course := ⟨_, hcourse⟩
    current := rfl
    told := by simp [told, List.filter_append]
    changing := rfl }

/-- Other listeners of the variable make no pass while a change of it is on its way. -/
theorem moves_others (ha : Tame b m n assign) (hs : s.Bound b m n)
    (hc : s.isChanging b.subject = true) (ls : List (ListenerId × Listener))
    (hls : ∀ l ∈ ls, l.1 ≠ b.listener ∧ l.2.Spares b m n) (old new : Value) :
    Moves b m n s [] (ls.foldl (call assign b.subject old new) s) := by
  obtain ⟨ps, hp⟩ := moves_foldl (call assign b.subject old new) ls
    (fun u hu l hl => moves_call ha hu (hls l hl).1 (hls l hl).2 old new) hs
  exact hp.quiet hc ▸ hp

/-- All listeners of the variable are told of a change: the one of the binding stands somewhere
among the others, which leave the binding alone. -/
theorem notified_listeners (ha : Tame b m n assign) (hs : s.Bound b m n)
    (hc : s.isChanging b.subject = true) {x : Variable} (hx : s.vars[b.subject]? = some x)
    (old new : Definitions) :
    Notified b m n old new s
      (x.listeners.foldl (call assign b.subject (.definitions old) (.definitions new)) s) := by
  obtain ⟨y, hy, -, -, hown⟩ := hs.subject
  obtain rfl : x = y := Option.some.inj (hx.symm.trans hy)
  obtain ⟨before, after, hlist, hbefore, -, hafter⟩ := List.filter_eq_cons_iff.1 hown
  have hothers : ∀ l ∈ x.listeners, l.1 ≠ b.listener →
      l.1 ≠ b.listener ∧ l.2.Spares b m n := by
    intro l hl hne
    rcases hs.others b.subject x hx l hl with ⟨-, h⟩ | h
    · exact absurd h hne
    · exact h
  have h1 := moves_others ha hs hc before
    (fun l hl => hothers l (by simp [hlist, hl]) (by simpa using hbefore l hl))
    (.definitions old) (.definitions new)
  have h2 := notified_call assign h1.bound old new
  have h3 := moves_others ha h2.bound (by rw [h2.changing, h1.changing, hc]) after
    (fun l hl => hothers l (by simp [hlist, hl])
      (by simpa using List.filter_eq_nil_iff.1 hafter l hl))
    (.definitions old) (.definitions new)
  rw [hlist, List.foldl_append, List.foldl_cons]
  exact .between h1 h2 h3

/-- The value of the variable is the definitions that it holds. -/
theorem Bound.value_eq (hs : s.Bound b m n) {x : Variable} (hx : s.vars[b.subject]? = some x) :
    x.value = .definitions (s.current b.subject) :=
  Option.some.inj ((value?_of_getElem? hx).symm.trans hs.value?)

/-- Setting the variable of the binding while it may be set: all listeners but one leave the binding
alone, and that one makes a pass from the old definitions to the new ones. -/
theorem moves_transition_self (ha : Tame b m n assign) (hs : s.Bound b m n) {x : Variable}
    (hx : s.vars[b.subject]? = some x) (hc : x.locked = false) (new : Definitions)
    (hsame : (s.current b.subject).same new = false) :
    ∃ r, Moves b m n s [⟨s.current b.subject, new, r⟩]
      (transition assign s b.subject (.definitions new)).1 := by
  have hvalue := hs.value_eq hx
  have hquiet : s.isChanging b.subject = false :=
    (isChanging_of_getElem? hx).trans (changing_of_not_locked hc).1
  -- the change is marked as being on its way
  have hmark : (s.mark b.subject).vars[b.subject]? = some { x with changing := true } := by
    rw [mark, getElem?_modify, if_pos rfl, hx, Option.map_some]
  have hbound : (s.mark b.subject).Bound b m n :=
    hs.modify (fun _ _ hk hd => ⟨hk, hd, rfl⟩) fun _ _ hl => .inl hl
  have hchanging : (s.mark b.subject).isChanging b.subject = true := isChanging_of_getElem? hmark
  -- all listeners are told
  have hn := notified_listeners ha hbound hchanging hmark (s.current b.subject) new
  have hcurrent : (s.mark b.subject).current b.subject = s.current b.subject := by
    rw [current, current, value?_of_getElem? hmark, value?_of_getElem? hx]
  have hend : (transition assign s b.subject (.definitions new)).1 = _ :=
    congrArg Prod.fst (transition_of_ne hx hc (by rw [hvalue]; exact hsame))
  rw [hvalue] at hend
  rw [hend]
  generalize x.listeners.foldl (call assign b.subject (.definitions (s.current b.subject))
    (.definitions new)) (s.mark b.subject) = t at hn ⊢
  -- the new value is put up
  obtain ⟨r, hcourse⟩ := hn.course
  obtain ⟨y, hy, -⟩ := hn.bound.subject
  have hcommit : (t.commit b.subject (.definitions new)).vars[b.subject]?
      = some { y with value := .definitions new, changing := false } := by
    rw [commit, getElem?_modify, if_pos rfl, hy, Option.map_some]
  exact ⟨r, {
    bound := hn.bound.modify (fun _ _ hk _ => ⟨hk, ⟨new, rfl⟩, rfl⟩) fun _ _ hl => .inl hl
    course := hcourse
    chain := ⟨rfl, hsame, current_of_value? (value?_of_getElem? hcommit)⟩
    told := hn.told
    changing := (isChanging_of_getElem? hcommit).trans hquiet.symm
    quiet := fun h => by
      rw [hquiet] at h
      cases h }⟩

theorem tame_transition (ha : Tame b m n assign) : Tame b m n (transition assign) := by
  intro s v value hs hvalue
  by_cases hv : v = b.subject
  · obtain ⟨new, rfl⟩ := hvalue hv
    subst hv
    obtain ⟨x, hx, -⟩ := hs.subject
    cases hc : x.locked with
    | true =>
        -- whoever sets a variable that may not be set gets stuck
        have hstuck : (transition assign s b.subject (.definitions new)).1
            = { s with stuck := true } := by
          simp only [transition, hx, hc, if_true]
        exact ⟨[], hstuck ▸ moves_stuck hs⟩
    | false =>
        cases hsame : (s.current b.subject).same new with
        | false =>
            obtain ⟨r, h⟩ := moves_transition_self ha hs hx hc new hsame
            exact ⟨_, h⟩
        | true =>
            rw [transition_of_same hx hc (by rw [hs.value_eq hx]; exact hsame)]
            exact ⟨[], .refl hs⟩
  · exact moves_transition_of_ne ha hs hv value

/-- Setting a variable keeps a manager bound, however deep changes bring about others. -/
theorem tame_assignWithin (depth : Nat) : Tame b m n (assignWithin depth) := by
  induction depth with
  | zero => exact fun s v value hs _ => ⟨[], moves_stuck hs⟩
  | succ depth ih => exact tame_transition ih

theorem tame_assign : Tame b m n State.assign :=
  fun s v value hs hvalue => tame_assignWithin (s.vars.size + 1) s v value hs hvalue

end State

end ConfigLog.Config
