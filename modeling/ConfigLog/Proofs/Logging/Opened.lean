import ConfigLog.Proofs.Logging.Course

set_option autoImplicit false

/-! # Appenders that are ready to write

While there is no facade, records about the program itself come to nothing (`Quiet`), and an
appender that a definition asks for has an open sink once it is built (`isOpen_buildAll`). So a pass
of reconciliation opens the sinks of all appenders that it adds (`Opened.carryOut`), and those of a
manager that it was the first to configure are all new (`Carried.anew`).
-/

namespace ConfigLog.Logging

/-- The sink is there, and need not be opened first. -/
def Sink.isOpen : Sink → Bool
  | file _ handle => handle.isSome
  | _ => true

/-- The appender takes texts as it is. -/
def Appender.isOpen (a : Appender) : Bool := a.broken.isNone && a.sink.isOpen

namespace State

variable {s t : State} {m k : Nat}

/-! ## Building without a facade -/

/-- The second state has the same appenders, and a facade if the first one has. -/
structure Quiet (s t : State) : Prop where
  facade : t.facade = s.facade
  appenders : t.appenders = s.appenders

theorem Quiet.refl (s : State) : Quiet s s := ⟨rfl, rfl⟩

theorem Quiet.trans {u : State} (h : Quiet s t) (h' : Quiet t u) : Quiet s u :=
  ⟨h'.facade.trans h.facade, h'.appenders.trans h.appenders⟩

theorem Quiet.emit (hs : s.facade = none) (h : Quiet s t) (r : Record) : Quiet s (t.emit r) := by
  rwa [emit_of_facade_eq_none (h.facade.trans hs)]

theorem quiet_definedPattern (hs : s.facade = none) (source : Option String) :
    Quiet s (s.definedPattern source).1 :=
  definedPattern_keeps (.refl s) (fun _ r hu => hu.emit hs r) source

theorem quiet_openSink (s : State) (d : Destination) : Quiet s (s.openSink d).1 := by
  unfold openSink
  split
  · exact .refl s
  · split <;> exact ⟨rfl, rfl⟩

theorem isOpen_openSink {d : Destination} {sink : Sink} (h : (s.openSink d).2 = .ok sink) :
    sink.isOpen := by
  unfold openSink at h
  split at h
  · rw [← Except.ok.inj h]
    rfl
  · split at h
    · cases h
    · rw [← Except.ok.inj h]
      rfl

theorem isOpen_build {d : AppenderDefinition} {x : Appender} (h : (s.build d).2 = .ok x) :
    x.isOpen := by
  rw [build_eq] at h
  obtain ⟨p, -, h⟩ := andThen_eq_ok h
  obtain ⟨sink, hsink, h⟩ := andThen_eq_ok h
  rw [← Except.ok.inj h]
  exact isOpen_openSink hsink

theorem quiet_buildAll (hs : s.facade = none) (ds : List AppenderDefinition) :
    Quiet s (s.buildAll ds).1 :=
  buildAll_keeps (.refl s) (fun _ r hu => hu.emit hs r)
    (fun u d hu => hu.trans (quiet_openSink u d)) ds

theorem isOpen_buildAll {ds : List AppenderDefinition} {xs : List Appender}
    (h : (s.buildAll ds).2 = .ok xs) : ∀ x ∈ xs, x.isOpen :=
  forall_of_buildAll (fun _ _ _ _ hx => isOpen_build hx) h

theorem quiet_obtain (hs : s.facade = none) (m : ManagerId) (name : String) :
    Quiet s (s.obtain m name).1 := by
  cases hf : (s.manager m).find? name with
  | some i =>
      rw [obtain_of_find hf]
      exact .refl s
  | none =>
      rw [obtain_of_find_none hf, emit_of_facade_eq_none (s := s.enrol m name) hs]
      exact ⟨rfl, rfl⟩

/-! ## Open appenders -/

/-- There is no facade, and all appenders from a number on have open sinks. -/
structure Opened (k : Nat) (s : State) : Prop where
  facade : s.facade = none
  isOpen : ∀ (a : Nat) x, k ≤ a → s.appenders[a]? = some x → x.isOpen

theorem Opened.of_quiet (hs : s.Opened k) (h : Quiet s t) : t.Opened k where
  facade := h.facade.trans hs.facade
  isOpen a x ha hx := hs.isOpen a x ha (by rw [← h.appenders, hx])

theorem Opened.emit (hs : s.Opened k) (r : Record) : (s.emit r).Opened k := by
  rwa [emit_of_facade_eq_none hs.facade]

theorem Opened.modifyLogger (hs : s.Opened k) (i : LoggerId) (f : Logger → Logger) :
    (s.modifyLogger i f).Opened k :=
  hs.of_quiet ⟨rfl, rfl⟩

/-- Taking the pattern of a logger leaves a sink as it is. -/
theorem Opened.inherit (hs : s.Opened k) (b : AppenderId) (p : Pattern) :
    (s.modifyAppender b (·.inherit p)).Opened k := by
  refine ⟨hs.facade, fun a x ha hx => ?_⟩
  rw [modifyAppender, Array.getElem?_modify] at hx
  split at hx
  · obtain ⟨y, hy, rfl⟩ := Option.map_eq_some_iff.1 hx
    have hsame : (y.inherit p).isOpen = y.isOpen := by
      unfold Appender.inherit
      split <;> rfl
    rw [hsame]
    exact hs.isOpen a y ha hy
  · exact hs.isOpen a x ha hx

theorem Opened.addAppender (hs : s.Opened k) {x : Appender} (hx : x.isOpen) :
    (s.addAppender x).1.Opened k := by
  refine ⟨hs.facade, fun a y ha hy => ?_⟩
  rw [State.addAppender, Array.getElem?_push] at hy
  split at hy
  · rwa [← Option.some.inj hy]
  · exact hs.isOpen a y ha hy

theorem Opened.install (hs : s.Opened k) (i : LoggerId) (p : Option Pattern) (level : Level)
    {xs : List Appender} (hxs : ∀ x ∈ xs, x.isOpen) : (s.install i p level xs).Opened k :=
  install_keeps hs (fun _ f hu => hu.modifyLogger i f) (fun _ a q hu => hu.inherit a q)
    (fun _ x hmem hu => hu.addAppender (hxs x hmem)) p level

/-! ## Reconciliation -/

theorem Opened.apply (hs : s.Opened k) (m : ManagerId) (d : Definition) :
    (s.apply m d).1.Opened k := by
  have hp := hs.of_quiet (quiet_definedPattern hs.facade d.pattern)
  rw [apply_eq]
  refine andThen_fst hp fun p _ => ?_
  have hb := hp.of_quiet (quiet_buildAll hp.facade d.appenders)
  refine andThen_fst hb fun xs hxs => ?_
  exact (hb.of_quiet (quiet_obtain hb.facade m d.name)).install _ _ _ (isOpen_buildAll hxs)

theorem Opened.disable (hs : s.Opened k) (m : ManagerId) (name : String) :
    (s.disable m name).Opened k :=
  ((hs.of_quiet (quiet_obtain hs.facade m name)).modifyLogger _ _).modifyLogger _ _

theorem Opened.perform (hs : s.Opened k) (m : ManagerId) (a : Action) :
    (perform m (s, {}) a).1.Opened k := by
  cases a with
  | apply d =>
      obtain ⟨record, hstate, -⟩ := perform_apply s m d
      rw [hstate]
      exact (hs.apply m d).emit record
  | disable name => exact (hs.disable m name).emit _

/-- A pass keeps the open appenders open, and opens those that it adds. -/
theorem Opened.carryOut (hs : s.Opened k) (m : ManagerId) (as : List Action) :
    (s.carryOut m as).1.Opened k := by
  induction as generalizing s with
  | nil => exact hs
  | cons a as ih =>
      rw [carryOut_cons]
      exact ih (hs.perform m a)

/-! ## New appenders -/

/-- What is attached to the loggers of a manager has a number from a certain one on, as appenders
have that are yet to come. -/
structure Anew (k : Nat) (m : ManagerId) (s : State) : Prop where
  le : k ≤ s.appenders.size
  attached : ∀ name i, (s.manager m).find? name = some i → ∀ a : Nat,
    a ∈ (s.logger i).appenders → k ≤ a

theorem Anew.congr (h : t.setup = s.setup) (hs : s.Anew k m) : t.Anew k m where
  le := by rw [size_appenders_congr h]; exact hs.le
  attached name i hf a ha := by
    rw [manager_congr h] at hf
    rw [logger_congr h] at ha
    exact hs.attached name i hf a ha

theorem Anew.enrol (hn : s.Anew k m) (hs : s.Sound) (hm : m < s.managers.size) (name : String) :
    (s.enrol m name).Anew k m where
  le := hn.le
  attached other i hf a ha := by
    rcases logger_enrol_cases hs hm hf with hnil | ⟨hf, hlog⟩
    · rw [hnil] at ha
      cases ha
    · rw [hlog] at ha
      exact hn.attached other i hf a ha

theorem Achieved.anew {a : Action} (h : Achieved m a s t) (hs : s.Sound) (hn : s.Anew k m) :
    t.Anew k m where
  le := Nat.le_trans hn.le h.beside.size_appenders
  attached name i hf b hb := by
    by_cases hname : name = a.name
    · subst hname
      exact Nat.le_trans hn.le (h.fresh i hf b hb)
    · rw [h.beside.find m name (.inr hname)] at hf
      rw [h.beside.logger i (hs.logger_lt hf) fun hc => hname (hs.name_inj hf hc)] at hb
      exact hn.attached name i hf b hb

theorem Carried.anew {as done : List Action} {r : Reconciliation} (h : Carried m s as done t r)
    (hs : s.Sound) (hn : s.Anew k m) : t.Anew k m := by
  induction h with
  | nil => exact hn
  | failed hset _ ih => exact ih (hs.congr hset) (hn.congr hset)
  | achieved ha _ ih => exact ih ha.sound (ha.anew hs hn)

end State

end ConfigLog.Logging
