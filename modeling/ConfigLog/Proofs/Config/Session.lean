import ConfigLog.Proofs.Config.Depth
import ConfigLog.Proofs.Logging.Setup

set_option autoImplicit false

/-! # Sessions

A session is what is done to variables from outside, one operation after the other. All its moments
together are one path (`path_session`), and between two operations every variable may be set
(`idle_session`).
-/

namespace ConfigLog.Config

/-- What is done to variables from outside. -/
inductive Operation where
  /-- Obtains the registered variable with a name, or registers one. -/
  | obtain (name : String) (kind : Kind) (value : Value) (description : String)
  /-- Makes a variable that is not registered. -/
  | create (name : String) (kind : Kind) (value : Value) (description : String)
  /-- Forgets all registered variables. -/
  | clear
  | set (v : VariableId) (value : Value)
  | setText (v : VariableId) (text : String)
  | setNode (v : VariableId) (n : Node)
  | load (document : Node)
  | listen (v : VariableId) (l : Listener)
  | listenWith (v : VariableId) (init : Value → Program) (l : Listener)
  | unlisten (v : VariableId) (i : ListenerId)
  | unlistenAll (v : VariableId)

namespace State

/-! ## Operations and their moments -/

/-- Does one operation. -/
def operate (s : State) : Operation → State
  | .obtain name kind value description => (s.obtain name kind value description).1
  | .create name kind value description => (s.add (.new name kind value description)).1
  | .clear => s.clear
  | .set v value => (s.assign v value).1
  | .setText v text => (s.setText v text).1
  | .setNode v n => (s.setNode v n).1
  | .load document => (s.load document).1
  | .listen v l => (s.listen v l).1
  | .listenWith v init l => (s.listenWith v init l).1
  | .unlisten v i => (s.unlisten v i).1
  | .unlistenAll v => s.unlistenAll v

/-- The moments of one operation. -/
def operationMoments (s : State) : Operation → List State
  | .set v value => s.assignMoments v value
  | .setText v text => textMoments assignMoments s v text
  | .setNode v n => nodeMoments assignMoments s v n
  | .load document => loadMoments assign assignMoments s document
  | .listenWith v init l => s.listenWithMoments v init l
  | operation => [s.operate operation]

/-- Does all operations of a session. -/
def session (s : State) (operations : List Operation) : State := operations.foldl operate s

/-- The moments of a session. -/
def sessionMoments (s : State) (operations : List Operation) : List State :=
  foldMoments operate operationMoments s operations

variable {s t : State}

/-- What holds of programs holds of adding a listener after a look. -/
theorem Account.listenWith {R : Account} (hR : R.Closed) (hl : R.Looks)
    (ha : R.Covers assign assignMoments) (s : State) (v : VariableId) (init : Value → Program)
    (l : Listener) : R s (s.listenWithMoments v init l) (s.listenWith v init l).1 :=
  listenAfter hR hl (fun value => run hR hl ha (init value)) s v l

/-! ## The path of a session -/

/-- A path that may touch all variables. -/
abbrev FreePath : State → List State → State → Prop := Path fun _ => True

theorem Numbered.fit (h : s.Numbered) : s.Fit (fun _ => True) 0 :=
  ⟨fun _ hv => absurd trivial hv, h, Nat.zero_le _⟩

theorem expectKind_fst (s : State) (name : String) (v : VariableId) (kind : Kind) :
    ∃ l, l.setup = s.logging.setup ∧ (s.expectKind name v kind).1 = { s with logging := l } := by
  unfold expectKind
  cases s.vars[v]? with
  | none => exact ⟨s.logging, rfl, rfl⟩
  | some x =>
      show ∃ l, _ ∧ (if x.kind == kind then _ else _ : State × Except ConfigError VariableId).1 = _
      split
      · exact ⟨s.logging, rfl, rfl⟩
      · exact ⟨_, Logging.State.setup_emit _ _, rfl⟩

theorem normalName_normalName (name : String) : normalName (normalName name) = normalName name := by
  have hchar : Char.toLower ∘ Char.toLower = Char.toLower := by
    funext c
    simp only [Function.comp_apply]
    unfold Char.toLower
    grind
  simp [normalName, Text.lower, hchar]

/-- Obtaining a variable either leaves the variables alone and brings about records only, or
registers a new one. -/
theorem obtain_cases (s : State) (name : String) (kind : Kind) (value : Value)
    (description : String) :
    (∃ l, l.setup = s.logging.setup ∧
      (s.obtain name kind value description).1 = { s with logging := l }) ∨
    (s.names.lookup (normalName name) = none ∧
      (s.obtain name kind value description).1
        = s.register (.new name kind value description)) := by
  cases hlookup : s.names.lookup (normalName name) with
  | some v =>
      obtain ⟨l, hset, hl⟩ := expectKind_fst (s.emit (registeredRecord (normalName name)))
        (normalName name) v kind
      refine .inl ⟨l, hset.trans (Logging.State.setup_emit _ _), ?_⟩
      simp only [obtain, hlookup]
      exact hl
  | none =>
      by_cases hvalid : isValidName (normalName name) = true
      · refine .inr ⟨rfl, ?_⟩
        simp only [obtain, hlookup, hvalid, if_true, Variable.new, normalName_normalName]
        rfl
      · refine .inl ⟨s.logging.emit (refusedRecord (normalName name)),
          Logging.State.setup_emit _ _, ?_⟩
        simp only [obtain, hlookup, hvalid, Bool.false_eq_true, if_false]
        rfl

theorem path_obtain (s : State) (name : String) (kind : Kind) (value : Value)
    (description : String) :
    FreePath s [(s.obtain name kind value description).1]
      (s.obtain name kind value description).1 := by
  rcases s.obtain_cases name kind value description with ⟨l, -, hobtain⟩ | ⟨hlookup, hobtain⟩
  · rw [hobtain]
    exact .one (.logging s l)
  · rw [hobtain]
    exact .one (.register s trivial rfl hlookup)

theorem path_operate (hs : s.Numbered) (operation : Operation) :
    FreePath s (s.operationMoments operation) (s.operate operation) := by
  cases operation with
  | obtain name kind value description => exact path_obtain s name kind value description
  | create name kind value description => exact .one (.add s trivial rfl)
  | clear => exact .one (.clear s)
  | set v value => exact path_assign hs.fit v value
  | setText v text => exact Account.text closed_paths paths_assign s v text hs.fit
  | setNode v n => exact Account.node closed_paths paths_assign s v n hs.fit
  | load document => exact Account.load closed_paths paths_assign s document hs.fit
  | listen v l => exact .one (.listen s v l)
  | listenWith v init l =>
      exact Account.listenWith closed_paths looks_paths paths_assign s v init l hs.fit
  | unlisten v i => exact .one (.unlisten s v i)
  | unlistenAll v => exact .one (.unlistenAll s v)

/-- All moments of a session are one path. -/
theorem path_session (hs : s.Numbered) (operations : List Operation) :
    FreePath s (s.sessionMoments operations) (s.session operations) :=
  Account.foldl closed_paths operations
    (fun _ operation _ hs => path_operate hs.numbered operation) s hs.fit

/-! ## Between two operations -/

/-- Every variable may be set: no change is on its way, and nobody is looking. -/
def Idle (s : State) : Prop := ∀ v, s.isLocked v = false

theorem Idle.not_locked (hs : s.Idle) {v : VariableId} {x : Variable} (hx : s.vars[v]? = some x) :
    x.locked = false := (isLocked_of_getElem? hx).symm.trans (hs v)

theorem SameFlags.idle (h : s.SameFlags t) (hs : s.Idle) : t.Idle :=
  fun v => (h.isLocked v).trans (hs v)

theorem idle_add (hs : s.Idle) (name : String) (kind : Kind) (value : Value)
    (description : String) : (s.add (.new name kind value description)).1.Idle := by
  intro v
  rw [isLocked, getElem?_add]
  split
  · rfl
  · exact hs v

theorem idle_obtain (hs : s.Idle) (name : String) (kind : Kind) (value : Value)
    (description : String) : (s.obtain name kind value description).1.Idle := by
  rcases s.obtain_cases name kind value description with ⟨l, -, hobtain⟩ | ⟨-, hobtain⟩
  · rw [hobtain]
    exact hs
  · rw [hobtain]
    exact idle_add hs name kind value description

theorem sameFlags_listenWith (s : State) (v : VariableId) (init : Value → Program) (l : Listener) :
    s.SameFlags (s.listenWith v init l).1 :=
  Account.listenWith closed_sameFlags rounds_sameFlags.toLooks sameFlags_covers s v init l

theorem idle_operate (hs : s.Idle) (operation : Operation) : (s.operate operation).Idle := by
  cases operation with
  | obtain name kind value description => exact idle_obtain hs name kind value description
  | create name kind value description => exact idle_add hs name kind value description
  | clear => exact hs
  | set v value => exact (sameFlags_covers s v value).idle hs
  | setText v text => exact (Account.text closed_sameFlags sameFlags_covers s v text).idle hs
  | setNode v n => exact (Account.node closed_sameFlags sameFlags_covers s v n).idle hs
  | load document => exact (Account.load closed_sameFlags sameFlags_covers s document).idle hs
  | listen v l => exact (sameFlags_listen s v l).idle hs
  | listenWith v init l => exact (sameFlags_listenWith s v init l).idle hs
  | unlisten v i => exact (closed_sameFlags.unlisten s v i).idle hs
  | unlistenAll v => exact (closed_sameFlags.unlistenAll s v).idle hs

/-- Between two operations of a session every variable may be set. -/
theorem idle_session (hs : s.Idle) (operations : List Operation) :
    (s.session operations).Idle := by
  induction operations generalizing s with
  | nil => exact hs
  | cons operation operations ih => exact ih (idle_operate hs operation)

/-! ## Registered variables -/

/-- Every registered name leads to a variable with that name. -/
def Registered (s : State) : Prop :=
  ∀ name v, s.names.lookup name = some v → ∃ x, s.vars[v]? = some x ∧ x.name = name

theorem Registered.of_vars (hs : s.Registered) (hnames : t.names = s.names)
    (hvars : ∀ (v : VariableId) (x : Variable), s.vars[v]? = some x →
      ∃ y, t.vars[v]? = some y ∧ y.name = x.name) : t.Registered := by
  intro name v hlookup
  rw [hnames] at hlookup
  obtain ⟨x, hx, rfl⟩ := hs name v hlookup
  exact hvars v x hx

theorem Registered.modify (hs : s.Registered) (v : VariableId) {f : Variable → Variable}
    (hf : ∀ x, (f x).name = x.name) : (s.modify v f).Registered := by
  refine hs.of_vars rfl fun w x hx => ?_
  have hname := map_getElem?_modify (v := v) (w := w) (g := (·.name)) (fun _ => hf) s
  rw [hx] at hname
  exact Option.map_eq_some_iff.1 hname

theorem getElem?_add_of_some {v : VariableId} {x y : Variable} (hx : s.vars[v]? = some x) :
    (s.add y).1.vars[v]? = some x := by
  have hv : v ≠ s.vars.size := Nat.ne_of_lt (Array.getElem?_eq_some_iff.1 hx).1
  rw [getElem?_add, if_neg hv, hx]

theorem Move.registered {P : VariableId → Prop} (h : Move P s t) (hs : s.Registered) :
    t.Registered := by
  cases h with
  | logging | remember | stuck | note => exact hs
  | clear => exact fun name v hlookup => by cases hlookup
  | add hv hx => exact hs.of_vars rfl fun v x hx => ⟨x, getElem?_add_of_some hx, rfl⟩
  | @register x hv hx hname =>
      intro name v hlookup
      -- the name of the new variable leads to it, and all others to where they have led before
      by_cases hn : name = x.name
      · subst hn
        have hnew : (Keyed.insert x.name s.vars.size s.names).lookup x.name = some v := hlookup
        rw [Keyed.lookup_insert_self] at hnew
        obtain rfl := Option.some.inj hnew
        exact ⟨x, (getElem?_add s _ x).trans (if_pos rfl), rfl⟩
      · have hold : (Keyed.insert x.name s.vars.size s.names).lookup name = some v := hlookup
        rw [Keyed.lookup_insert_of_ne hn] at hold
        obtain ⟨y, hy, hname⟩ := hs name v hold
        exact ⟨y, getElem?_add_of_some hy, hname⟩
  | listen v l =>
      have hnext : ({ s with nextListener := s.nextListener + 1 } : State).Registered := hs
      exact hnext.modify v fun _ => rfl
  | unlisten v i | unlistenAll v => exact hs.modify v fun _ => rfl
  | @modify v hv f hf => exact hs.modify v fun x => congrArg Prod.fst (hf.label x)

/-- The state before anything has been done. -/
def fresh (l : Logging.State) : State := { logging := l }

theorem numbered_fresh (l : Logging.State) : (fresh l).Numbered := by
  have hnone : ∀ v : VariableId, (fresh l).vars[v]? = none := fun v => rfl
  constructor
  case ascending => exact fun {v x} hx => by rw [hnone] at hx; cases hx
  case listeners => exact fun {v x} hx => by rw [hnone] at hx; cases hx
  case calls => exact fun c hc => by cases hc

theorem registered_session (l : Logging.State) (operations : List Operation) :
    ((fresh l).session operations).Registered := by
  have hpath := path_session (numbered_fresh l) operations
  exact hpath.end_of Move.registered fun name v hlookup => by cases hlookup

theorem idle_fresh (l : Logging.State) : (fresh l).Idle := fun _ => rfl

end State

end ConfigLog.Config
