import ConfigLog.Proofs.Logging.Reach

set_option autoImplicit false

/-! # Operations

The operations on managers, loggers and appenders as data, and what a list of them comes to. A list
is `Orderly` when each operation is about what is there and no appender is ever attached to two
loggers at once. What each of its operations keeps, the list keeps (`operateAll_keeps`).
-/

namespace ConfigLog.Logging

/-- What is done to managers, loggers and appenders from outside. -/
inductive Operation where
  /-- The files change by themselves, and time passes. -/
  | meanwhile (files : Files.Store) (stamp : Stamp)
  /-- The records of the program itself go to another manager. -/
  | facade (facade : Option ManagerId)
  | addManager
  | addLogger (name : String)
  | obtain (m : ManagerId) (name : String)
  | newAppender (d : Destination)
  /-- An appender for a sink of the program around is made. -/
  | addCustom (broken : Option String)
  /-- The appender of a definition is made. -/
  | build (d : AppenderDefinition)
  | setBroken (a : AppenderId) (broken : Option String)
  | reopen (a : AppenderId)
  /-- A pattern that has to be well formed is compiled. -/
  | parse (source : String)
  | setLevel (i : LoggerId) (level : Level)
  | setPattern (i : LoggerId) (p : Pattern)
  | setAppenderLevel (a : AppenderId) (level : Level)
  | setAppenderPattern (a : AppenderId) (p : Pattern)
  | attach (i : LoggerId) (a : AppenderId)
  | detach (i : LoggerId) (a : AppenderId)
  | clearAppenders (i : LoggerId)
  | reconcile (m : ManagerId) (old new : Definitions)
  | log (i : LoggerId) (level : Level) (e : Event)
  | emit (r : Record)

namespace State

variable {s t : State}

/-! ## Carrying out operations -/

/-- Carries out one operation and tells whether it has been turned down. -/
def operate (s : State) : Operation → State × Except LogError Unit
  | .meanwhile files stamp => ({ s with files, stamp }, .ok ())
  | .facade facade => ({ s with facade }, .ok ())
  | .addManager => (s.addManager.1, .ok ())
  | .addLogger name => ((s.addLogger { name }).1, .ok ())
  | .obtain m name => ((s.obtain m name).1, .ok ())
  | .newAppender d => andThen (s.newAppender d) fun t _ => (t, .ok ())
  | .addCustom broken => ((s.addAppender { sink := .custom, broken }).1, .ok ())
  | .build d => andThen (s.build d) fun t x => ((t.addAppender x).1, .ok ())
  | .setBroken a broken => (s.setBroken a broken, .ok ())
  | .reopen a => s.reopen a
  | .parse source => andThen (s.parse source) fun t _ => (t, .ok ())
  | .setLevel i level => (s.setLevel i level, .ok ())
  | .setPattern i p => s.setPattern i p
  | .setAppenderLevel a level => (s.setAppenderLevel a level, .ok ())
  | .setAppenderPattern a p => s.setAppenderPattern a p
  | .attach i a => (s.attach i a, .ok ())
  | .detach i a => ((s.detach i a).1, .ok ())
  | .clearAppenders i => (s.clearAppenders i, .ok ())
  | .reconcile m old new => ((s.reconcile m old new).1, .ok ())
  | .log i level e => (s.log i level e, .ok ())
  | .emit r => (s.emit r, .ok ())

/-- Carries out operations one after the other. -/
def operateAll (s : State) (operations : List Operation) : State :=
  operations.foldl (fun s o => (s.operate o).1) s

theorem operateAll_cons (s : State) (o : Operation) (operations : List Operation) :
    s.operateAll (o :: operations) = (s.operate o).1.operateAll operations := rfl

theorem operateAll_append (s : State) (before after : List Operation) :
    s.operateAll (before ++ after) = (s.operateAll before).operateAll after :=
  List.foldl_append

/-! ## Orderly operations -/

/-- Every appender is attached to one logger at most. -/
def Exclusive (s : State) : Prop :=
  ∀ (i j : LoggerId) (a : AppenderId), a ∈ (s.logger i).appenders → a ∈ (s.logger j).appenders →
    i = j

/-- Numbers that lead to no logger need not be looked at. -/
theorem exclusive_iff : s.Exclusive ↔ ∀ i < s.loggers.size, ∀ j < s.loggers.size,
    ∀ a ∈ (s.logger i).appenders, a ∈ (s.logger j).appenders → i = j := by
  have hlt : ∀ (i : LoggerId) (a : AppenderId), a ∈ (s.logger i).appenders →
      i < s.loggers.size := by
    intro i a ha
    refine Nat.lt_of_not_le fun hle => ?_
    rw [appenders_logger_of_le hle] at ha
    cases ha
  constructor
  · intro h i _ j _ a hi hj
    exact h i j a hi hj
  · intro h i j a hi hj
    exact h i (hlt i a hi) j (hlt j a hj) a hi hj

instance (s : State) : Decidable s.Exclusive := decidable_of_iff _ exclusive_iff.symm

/-- An operation is about managers, loggers and appenders that are there. -/
def Fits (s : State) : Operation → Prop
  | .obtain m _ | .reconcile m _ _ => m < s.managers.size
  | .setLevel i _ | .setPattern i _ | .clearAppenders i | .log i _ _ => i < s.loggers.size
  | .setBroken a _ | .reopen a | .setAppenderLevel a _ | .setAppenderPattern a _ =>
    a < s.appenders.size
  | .attach i a | .detach i a => i < s.loggers.size ∧ a < s.appenders.size
  | .meanwhile .. | .facade _ | .addManager | .addLogger _ | .newAppender _ | .addCustom _ | .build _
  | .parse _ | .emit _ => True

instance (s : State) : (o : Operation) → Decidable (s.Fits o)
  | .obtain m _ | .reconcile m _ _ => inferInstanceAs (Decidable (m < s.managers.size))
  | .setLevel i _ | .setPattern i _ | .clearAppenders i | .log i _ _ =>
    inferInstanceAs (Decidable (i < s.loggers.size))
  | .setBroken a _ | .reopen a | .setAppenderLevel a _ | .setAppenderPattern a _ =>
    inferInstanceAs (Decidable (a < s.appenders.size))
  | .attach i a | .detach i a =>
    inferInstanceAs (Decidable (i < s.loggers.size ∧ a < s.appenders.size))
  | .meanwhile .. | .facade _ | .addManager | .addLogger _ | .newAppender _ | .addCustom _ | .build _
  | .parse _ | .emit _ => inferInstanceAs (Decidable True)

/-- Operations about what is there, none of which attaches an appender to a second logger. -/
def Orderly (s : State) : List Operation → Prop
  | [] => True
  | o :: operations => s.Fits o ∧ (s.operate o).1.Exclusive ∧ (s.operate o).1.Orderly operations

instance decidableOrderly (s : State) : (operations : List Operation) →
    Decidable (s.Orderly operations)
  | [] => inferInstanceAs (Decidable True)
  | o :: operations =>
    have := decidableOrderly (s.operate o).1 operations
    inferInstanceAs (Decidable
      (s.Fits o ∧ (s.operate o).1.Exclusive ∧ (s.operate o).1.Orderly operations))

/-! ## What operations lead to -/

/-- Compiling a pattern that has to be well formed leaves the setup alone. -/
theorem setup_parse (s : State) (source : String) : (s.parse source).1.setup = s.setup := by
  rw [parse_eq]
  split
  · exact setup_emit s _
  · rfl

/-- No operation has to do with how times are written. -/
theorem times_operate (s : State) (o : Operation) : (s.operate o).1.times = s.times := by
  cases o with
  | meanwhile _ _ | facade _ | addManager | addLogger _ | addCustom _ => rfl
  | setLevel _ _ | setAppenderLevel _ _ | attach _ _ | detach _ _ | clearAppenders _ => rfl
  | obtain m name => exact times_obtain s m name
  | newAppender d =>
      have hnew : (s.newAppender d).1.times = s.times := by
        rcases newAppender_cases s d with h | ⟨u, sink, h, -, hnew⟩
        · exact times_congr h
        · have hu : u.times = s.times := times_congr h
          rw [hnew]
          exact hu
      exact andThen_fst (Q := fun t => t.times = s.times) hnew fun _ _ => hnew
  | build d =>
      have hbuilt : (s.build d).1.times = s.times := times_congr (prepares_build s d).setup
      exact andThen_fst (Q := fun t => t.times = s.times) hbuilt fun _ _ => hbuilt
  | setBroken a broken => exact times_congr (setup_setBroken s a broken)
  | reopen a => exact times_congr (setup_reopen s a)
  | parse source =>
      have hparsed : (s.parse source).1.times = s.times := times_congr (setup_parse s source)
      exact andThen_fst (Q := fun t => t.times = s.times) hparsed fun _ _ => hparsed
  | setPattern i p =>
      show (s.setPattern i p).1.times = s.times
      unfold State.setPattern
      split
      · exact times_congr (setup_emit _ _)
      · exact adoptPattern_keeps (Q := fun t => t.times = s.times) rfl fun _ _ hu => hu
  | setAppenderPattern a p =>
      show (s.setAppenderPattern a p).1.times = s.times
      unfold State.setAppenderPattern
      split
      · rfl
      · split <;> rfl
  | reconcile m old new => exact times_reconcile s m old new
  | log i level e => exact times_congr (setup_log s i level e)
  | emit r => exact times_congr (setup_emit s r)

theorem Sound.operate (hs : s.Sound) {o : Operation} (hfits : s.Fits o) :
    (s.operate o).1.Sound := by
  cases o with
  | meanwhile files stamp => exact hs.of_appenders rfl rfl (Nat.le_refl _)
  | facade facade => exact hs.of_appenders rfl rfl (Nat.le_refl _)
  | addManager => exact hs.addManager
  | addLogger name => exact hs.addLogger name
  | obtain m name => exact hs.obtain hfits name
  | newAppender d => exact andThen_fst (hs.newAppender d) fun _ _ => hs.newAppender d
  | addCustom broken => exact hs.addAppender _
  | build d =>
      have hbuilt := hs.congr (prepares_build s d).setup
      exact andThen_fst hbuilt fun x _ => hbuilt.addAppender x
  | setBroken a broken => exact hs.modifyAppender a _
  | reopen a => exact hs.congr (setup_reopen s a)
  | parse source =>
      have hparsed := hs.congr (setup_parse s source)
      exact andThen_fst hparsed fun _ _ => hparsed
  | setLevel i level => exact hs.setLevel i level
  | setPattern i p => exact hs.setPattern i p
  | setAppenderLevel a level => exact hs.modifyAppender a _
  | setAppenderPattern a p => exact hs.setAppenderPattern a p
  | attach i a => exact hs.attach i hfits.2
  | detach i a => exact hs.detach i a
  | clearAppenders i => exact hs.clearAppenders i
  | reconcile m old new => exact hs.reconcile hfits old new
  | log i level e => exact hs.congr (setup_log s i level e)
  | emit r => exact hs.congr (setup_emit s r)

/-- What every orderly operation keeps in sound states, a list of them keeps. -/
theorem operateAll_keeps {Q : State → Prop} {operations : List Operation} (hs : s.Sound) (hq : Q s)
    (h : s.Orderly operations)
    (hstep : ∀ (u : State) (o : Operation), u.Sound → Q u → u.Fits o →
      (u.operate o).1.Exclusive → Q (u.operate o).1) :
    (s.operateAll operations).Sound ∧ Q (s.operateAll operations) := by
  induction operations generalizing s with
  | nil => exact ⟨hs, hq⟩
  | cons o operations ih =>
      obtain ⟨hfits, hexclusive, hrest⟩ := h
      exact ih (hs.operate hfits) (hstep s o hs hq hfits hexclusive) hrest

end State

end ConfigLog.Logging
