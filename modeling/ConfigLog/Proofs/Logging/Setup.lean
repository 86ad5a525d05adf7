import ConfigLog.Logging.Reconcile
import ConfigLog.Proofs.Files.Opening

set_option autoImplicit false

/-! # What a logging state is set up to do

The `setup` of a state is all of it but the files and what has been written: the managers, the
loggers, what each appender is set to, and how times are written. Handing out events and records
changes none of it (`setup_emit`, `setup_log`), and touches the file system in no other way than by
appending to files and by opening again those of appenders that are there (`Writes`).
-/

namespace ConfigLog.Logging

/-! ## Settings of appenders -/

/-- What an appender is set to: all of it but the handle of its file. -/
structure Setting where
  destination : Destination
  level : Level
  pattern : Pattern
  /-- The pattern was given to the appender itself. -/
  own : Bool
  deriving DecidableEq, Repr

/-- What an appender is set to. -/
def Appender.setting (a : Appender) : Setting where
  destination := a.sink.destination
  level := a.level
  pattern := a.pattern
  own := a.own

/-- What a setting becomes under the pattern of a logger. -/
def Setting.inherit (x : Setting) (p : Pattern) : Setting :=
  if x.own then x else { x with pattern := p }

theorem Appender.setting_inherit (a : Appender) (p : Pattern) :
    (a.inherit p).setting = a.setting.inherit p := by
  unfold Appender.inherit Setting.inherit
  by_cases h : a.own <;> simp [h, Appender.setting]

/-- The setup of a state. -/
structure Setup where
  times : TimeFormat
  facade : Option ManagerId
  managers : Array Manager
  loggers : Array Logger
  settings : Array Setting

namespace State

/-- What an appender is set to, by its number; a number without an appender gives the setting of a
new one. -/
def setting (s : State) (a : AppenderId) : Setting :=
  (s.appenders[a]?.getD { sink := .stdout }).setting

/-- All of a state but the files and what has been written. -/
def setup (s : State) : Setup where
  times := s.times
  facade := s.facade
  managers := s.managers
  loggers := s.loggers
  settings := s.appenders.map (·.setting)

variable {s t : State}

/-! ## States with the same setup -/

theorem times_congr (h : t.setup = s.setup) : t.times = s.times :=
  congrArg Setup.times h

theorem facade_congr (h : t.setup = s.setup) : t.facade = s.facade :=
  congrArg Setup.facade h

theorem managers_congr (h : t.setup = s.setup) : t.managers = s.managers :=
  congrArg Setup.managers h

theorem loggers_congr (h : t.setup = s.setup) : t.loggers = s.loggers :=
  congrArg Setup.loggers h

theorem manager_congr (h : t.setup = s.setup) (k : ManagerId) : t.manager k = s.manager k := by
  rw [manager, manager, managers_congr h]

theorem logger_congr (h : t.setup = s.setup) (i : LoggerId) : t.logger i = s.logger i := by
  rw [logger, logger, loggers_congr h]

theorem settings_congr (h : t.setup = s.setup) :
    t.appenders.map (·.setting) = s.appenders.map (·.setting) :=
  congrArg Setup.settings h

theorem size_appenders_congr (h : t.setup = s.setup) : t.appenders.size = s.appenders.size := by
  have hs := congrArg Array.size (settings_congr h)
  rwa [Array.size_map, Array.size_map] at hs

theorem setting_eq_getD (s : State) (a : AppenderId) :
    s.setting a
      = ((s.appenders.map (·.setting))[a]?.getD (Appender.setting { sink := .stdout })) := by
  rw [setting, Array.getElem?_map]
  cases s.appenders[a]? <;> rfl

theorem setting_congr (h : t.setup = s.setup) (a : AppenderId) : t.setting a = s.setting a := by
  rw [setting_eq_getD, setting_eq_getD, settings_congr h]

theorem setting_of_getElem? {a : AppenderId} {x : Appender} (h : s.appenders[a]? = some x) :
    s.setting a = x.setting := by
  rw [setting, h]
  rfl

/-- An appender may change as long as it stays set to the same. -/
theorem setup_modifyAppender {a : AppenderId} {f : Appender → Appender}
    (h : ∀ x, s.appenders[a]? = some x → (f x).setting = x.setting) :
    (s.modifyAppender a f).setup = s.setup := by
  have hm : (s.appenders.modify a f).map (·.setting) = s.appenders.map (·.setting) := by
    apply Array.ext_getElem?
    intro b
    rw [Array.getElem?_map, Array.getElem?_map, Array.getElem?_modify]
    by_cases hb : a = b
    · subst hb
      cases hx : s.appenders[a]? with
      | none => simp
      | some x => simp [h x hx]
    · simp [hb]
  simp [setup, modifyAppender, hm]

/-- A sink that goes out of order leaves the setup as it is, and so does one that is mended. -/
theorem setup_setBroken (s : State) (a : AppenderId) (broken : Option String) :
    (s.setBroken a broken).setup = s.setup :=
  setup_modifyAppender fun _ _ => rfl

/-! ## Writing -/

/-- The files of all appenders have paths of one kind. -/
def Within (P : String → Prop) (s : State) : Prop :=
  ∀ a path, (s.setting a).destination = .file path → P path

theorem Within.congr {P : String → Prop} (h : t.setup = s.setup) (hs : s.Within P) :
    t.Within P := by
  intro a path ha
  exact hs a path (by rw [← setting_congr h a, ha])

/-- The second state comes out of the first one by writing: the setup is the same, and files have
been appended to and opened only. -/
structure Writes (s t : State) : Prop where
  setup : t.setup = s.setup
  files : ∀ {P : String → Prop}, s.Within P → s.files.Leads P t.files

theorem Writes.refl (s : State) : s.Writes s := ⟨rfl, fun _ => .refl _⟩

theorem Writes.trans {u : State} (h : s.Writes t) (h' : t.Writes u) : s.Writes u where
  setup := h'.setup.trans h.setup
  files hp := (h.files hp).trans (h'.files (hp.congr h.setup))

/-- A state that differs in nothing but what has been written. -/
theorem Writes.of_eq (hs : t.setup = s.setup) (hf : t.files = s.files) : s.Writes t :=
  ⟨hs, fun _ => hf ▸ .refl _⟩

/-- Reports that do nothing but write. -/
def WritesOnly (report : Report) : Prop := ∀ (r : Record) (s : State), s.Writes (report r s)

theorem writes_openAgain {a : AppenderId} {x : Appender} {path : String} {handle : Option Nat}
    (h : s.appenders[a]? = some x) (hx : x.sink = .file path handle) :
    s.Writes (s.openAgain a path).1 := by
  have hset : s.setting a = x.setting := setting_of_getElem? h
  have hdest : (s.setting a).destination = .file path := by
    rw [hset, Appender.setting, hx]
    rfl
  -- the handle is no part of what an appender is set to
  have hsame : ∀ (files : Files.Store) (handle : Option Nat),
      ({ s with files }.modifyAppender a ({ · with sink := .file path handle })).setup
        = s.setup := by
    intro files handle
    refine setup_modifyAppender (s := { s with files }) ?_
    intro y hy
    have hyx : x = y := Option.some.inj (h.symm.trans hy)
    subst hyx
    simp [Appender.setting, hx, Sink.destination]
  unfold openAgain
  split
  · rename_i files e he
    refine ⟨hsame files none, fun hp => ?_⟩
    have hl := Files.Store.Leads.openAppend (hp a path hdest) (.refl s.files)
    rwa [he] at hl
  · rename_i files handle he
    refine ⟨hsame files (some handle), fun hp => ?_⟩
    have hl := Files.Store.Leads.openAppend (hp a path hdest) (.refl s.files)
    rwa [he] at hl

theorem writes_append (s : State) (handle : Nat) (text : String) :
    s.Writes { s with files := s.files.append handle text } :=
  ⟨rfl, fun _ => .append handle text (.refl _)⟩

theorem writes_put (s : State) (broken : Option String) (handle : Option Nat) (text : String) :
    s.Writes (s.put broken handle text).1 := by
  unfold put
  split
  · exact .refl s
  · exact writes_append s _ text
  · exact .refl s

theorem writes_give {a : AppenderId} {x : Appender} (h : s.appenders[a]? = some x)
    (text : String) : s.Writes (s.give a x text).1 := by
  unfold give
  split
  · rename_i path hx
    have ho := writes_openAgain h hx
    split
    · rename_i t e he
      rwa [he] at ho
    · rename_i t handle he
      rw [he] at ho
      exact ho.trans (writes_put t x.broken (some handle) text)
  · exact writes_put s x.broken _ text

theorem writes_note (s : State) (a : Attempt) : s.Writes (s.note a) := .of_eq rfl rfl

theorem writes_hand {report : Report} (hr : WritesOnly report) (s : State) (a : AppenderId)
    (name : String) (level : Level) (e : Event) :
    s.Writes (s.hand report a name level e).1 := by
  unfold hand
  split
  · exact .refl s
  · rename_i x hx
    split
    · have hg := writes_give hx (x.pattern.render s.times name level e)
      simp only
      split
      · rename_i t reason he
        rw [he] at hg
        exact hg.trans (writes_note t _)
      · rename_i t he
        rw [he] at hg
        exact hg.trans (writes_note t _)
      · rename_i t path he
        rw [he] at hg
        exact (hg.trans (writes_note t _)).trans (hr _ _)
    · exact .refl s

theorem writes_handOne {report : Report} (hr : WritesOnly report) (name : String) (level : Level)
    (e : Event) (s : State) (a : AppenderId) : s.Writes (handOne report name level e s a) := by
  have hh := writes_hand hr s a name level e
  unfold handOne
  split
  · rename_i t he
    rwa [he] at hh
  · rename_i t error he
    rw [he] at hh
    exact hh.trans (hr _ _)

/-- What every step writes, a fold of steps writes. -/
theorem writes_foldl {α : Type} {step : State → α → State}
    (h : ∀ (s : State) (a : α), s.Writes (step s a))
    (as : List α) (s : State) : s.Writes (as.foldl step s) := by
  induction as generalizing s with
  | nil => exact .refl s
  | cons a as ih =>
      rw [List.foldl_cons]
      exact (h s a).trans (ih (step s a))

theorem writes_logWith {report : Report} (hr : WritesOnly report) (s : State) (i : LoggerId)
    (level : Level) (e : Event) : s.Writes (s.logWith report i level e) :=
  writes_foldl (writes_handOne hr _ level e) _ s

theorem writes_bridgeWithin (depth : Nat) (m : ManagerId) :
    WritesOnly (bridgeWithin depth m) := by
  induction depth generalizing m with
  | zero => exact fun _ s => .refl s
  | succ depth ih =>
      intro r s
      unfold bridgeWithin
      split
      · exact .refl s
      · split
        · exact .of_eq rfl rfl
        · -- the flag is set, the event handed out, and the flag cleared again
          have hset : s.Writes { s with bridging := true } := .of_eq rfl rfl
          refine (hset.trans (writes_logWith (fun r s => ?_) _ _ _ _)).trans (.of_eq rfl rfl)
          split
          · exact .refl s
          · exact ih _ r s

theorem writes_emit (s : State) (r : Record) : s.Writes (s.emit r) := by
  unfold emit
  split
  · exact .refl s
  · exact writes_bridgeWithin 2 _ r s

theorem writes_log (s : State) (i : LoggerId) (level : Level) (e : Event) :
    s.Writes (s.log i level e) :=
  writes_logWith (fun r s => writes_emit s r) s i level e

@[simp] theorem setup_emit (s : State) (r : Record) : (s.emit r).setup = s.setup :=
  (writes_emit s r).setup

/-- Opening a file again is no change of what an appender is set to. -/
theorem setup_reopen (s : State) (a : AppenderId) : (s.reopen a).1.setup = s.setup := by
  unfold reopen reopenWith
  split
  · rename_i path handle level p own broken h
    have hset : (s.openAgain a path).1.setup = s.setup := (writes_openAgain h rfl).setup
    split
    · rename_i u e he
      rwa [he] at hset
    · rename_i u node he
      rw [he] at hset
      rw [setup_emit, hset]
  · rfl

theorem setup_log (s : State) (i : LoggerId) (level : Level) (e : Event) :
    (s.log i level e).setup = s.setup :=
  (writes_log s i level e).setup

end State

end ConfigLog.Logging
