import ConfigLog.Proofs.Logging.Setup

set_option autoImplicit false

/-! # Changes of one logger

`Local i s t` says that `t` comes out of `s` by changing the logger `i`, the appenders that are
attached to it, and appenders that are new. All else stays: the managers, the other loggers, and the
settings of the appenders that are attached to none but other loggers. The operations on one logger
are local, and installing a definition (`State.install`) is made of them (`renewed_install`,
`install_keeps`).
-/

namespace ConfigLog.Logging.State

variable {s t : State} {i : LoggerId}

/-! ## The relation -/

/-- At most one logger and its appenders have changed, and appenders have been added. -/
structure Local (i : LoggerId) (s t : State) : Prop where
  times : t.times = s.times
  facade : t.facade = s.facade
  managers : t.managers = s.managers
  size_loggers : t.loggers.size = s.loggers.size
  logger : ∀ j, j ≠ i → t.logger j = s.logger j
  name : (t.logger i).name = (s.logger i).name
  fallback : (t.logger i).fallback = (s.logger i).fallback
  size_appenders : s.appenders.size ≤ t.appenders.size
  /-- What is attached was attached before or is new. -/
  attached : ∀ a : Nat, a ∈ (t.logger i).appenders →
    a ∈ (s.logger i).appenders ∨ (s.appenders.size ≤ a ∧ a < t.appenders.size)
  setting : ∀ a : Nat, a < s.appenders.size → a ∉ (s.logger i).appenders → t.setting a = s.setting a

theorem Local.refl (i : LoggerId) (s : State) : Local i s s where
  times := rfl
  facade := rfl
  managers := rfl
  size_loggers := rfl
  logger _ _ := rfl
  name := rfl
  fallback := rfl
  size_appenders := Nat.le_refl _
  attached _ ha := .inl ha
  setting _ _ _ := rfl

theorem Local.trans {u : State} (h : Local i s t) (h' : Local i t u) : Local i s u where
  times := h'.times.trans h.times
  facade := h'.facade.trans h.facade
  managers := h'.managers.trans h.managers
  size_loggers := h'.size_loggers.trans h.size_loggers
  logger j hj := (h'.logger j hj).trans (h.logger j hj)
  name := h'.name.trans h.name
  fallback := h'.fallback.trans h.fallback
  size_appenders := Nat.le_trans h.size_appenders h'.size_appenders
  attached a ha := by
    have hle := h'.size_appenders
    have hle' := h.size_appenders
    rcases h'.attached a ha with ha | ha
    · rcases h.attached a ha with ha | ha
      · exact .inl ha
      · exact .inr ⟨ha.1, by omega⟩
    · exact .inr ⟨by omega, ha.2⟩
  setting a ha hn := by
    have hlt : a < t.appenders.size := Nat.lt_of_lt_of_le ha h.size_appenders
    -- an old appender does not become one of the logger's
    have hnt : a ∉ (t.logger i).appenders := by
      intro hat
      rcases h.attached a hat with hs | hs
      · exact hn hs
      · omega
    rw [h'.setting a hlt hnt, h.setting a ha hn]

theorem Local.manager (h : Local i s t) (k : ManagerId) : t.manager k = s.manager k := by
  rw [State.manager, State.manager, h.managers]

/-! ## The operations on one logger -/

theorem setting_modifyAppender_of_ne {a b : AppenderId} (h : a ≠ b) (f : Appender → Appender) :
    (s.modifyAppender a f).setting b = s.setting b := by
  simp [modifyAppender, State.setting, Array.getElem?_modify, h]

theorem setting_modifyAppender_self {a : AppenderId} {x : Appender}
    (hx : s.appenders[a]? = some x) (f : Appender → Appender) :
    (s.modifyAppender a f).setting a = (f x).setting := by
  simp [modifyAppender, State.setting, Array.getElem?_modify, hx]

/-- What an appender is set to after a change: what it was, or what the change makes of it. -/
theorem setting_modifyAppender_cases (s : State) (a : AppenderId) (f : Appender → Appender)
    (b : AppenderId) : (s.modifyAppender a f).setting b = s.setting b ∨
      ∃ x, b = a ∧ s.appenders[a]? = some x ∧ (s.modifyAppender a f).setting b = (f x).setting := by
  by_cases hab : a = b
  · subst hab
    cases hx : s.appenders[a]? with
    | none => exact .inl (by simp [modifyAppender, State.setting, Array.getElem?_modify, hx])
    | some x => exact .inr ⟨x, rfl, rfl, setting_modifyAppender_self hx f⟩
  · exact .inl (setting_modifyAppender_of_ne hab f)

theorem setting_addAppender (s : State) (x : Appender) (a : AppenderId) :
    (s.addAppender x).1.setting a = if a = s.appenders.size then x.setting else s.setting a := by
  by_cases ha : a = s.appenders.size
  · simp [addAppender, State.setting, ha]
  · simp [addAppender, State.setting, Array.getElem?_push, ha]

/-- A change that leaves the name, the fallback and the attachments alone is local, and so is one
that takes attachments away. -/
theorem local_modifyLogger (hi : i < s.loggers.size) {f : Logger → Logger}
    (hname : (f (s.logger i)).name = (s.logger i).name)
    (hfallback : (f (s.logger i)).fallback = (s.logger i).fallback)
    (hattached : (f (s.logger i)).appenders ⊆ (s.logger i).appenders) :
    Local i s (s.modifyLogger i f) where
  times := rfl
  facade := rfl
  managers := rfl
  size_loggers := by simp [modifyLogger]
  logger _ hj := logger_modifyLogger_of_ne s hj.symm f
  name := by rw [logger_modifyLogger_self s hi, hname]
  fallback := by rw [logger_modifyLogger_self s hi, hfallback]
  size_appenders := Nat.le_refl _
  attached a ha := by
    rw [logger_modifyLogger_self s hi] at ha
    exact .inl (hattached ha)
  setting _ _ _ := rfl

theorem local_setLevel (hi : i < s.loggers.size) (level : Level) : Local i s (s.setLevel i level) :=
  local_modifyLogger hi rfl rfl (List.Subset.refl _)

theorem local_clearAppenders (hi : i < s.loggers.size) : Local i s (s.clearAppenders i) :=
  local_modifyLogger hi rfl rfl (List.nil_subset _)

/-- A change of an appender of the logger is local. -/
theorem local_modifyAppender {a : AppenderId} (ha : a ∈ (s.logger i).appenders)
    (f : Appender → Appender) : Local i s (s.modifyAppender a f) where
  times := rfl
  facade := rfl
  managers := rfl
  size_loggers := rfl
  logger _ _ := rfl
  name := rfl
  fallback := rfl
  size_appenders := Nat.le_of_eq (Array.size_modify).symm
  attached _ hb := .inl hb
  setting b _ hb := setting_modifyAppender_of_ne (fun h : a = b => hb (h ▸ ha)) f

theorem loggers_foldl_modifyAppender (f : Appender → Appender) (as : List AppenderId) (s : State) :
    (as.foldl (fun s a => s.modifyAppender a f) s).loggers = s.loggers := by
  induction as generalizing s with
  | nil => rfl
  | cons a as ih =>
      rw [List.foldl_cons, ih]
      rfl

theorem local_foldl_modifyAppender {as : List AppenderId} (h : as ⊆ (s.logger i).appenders)
    (f : Appender → Appender) : Local i s (as.foldl (fun s a => s.modifyAppender a f) s) := by
  induction as generalizing s with
  | nil => exact .refl i s
  | cons a as ih =>
      obtain ⟨ha, has⟩ := List.cons_subset.1 h
      rw [List.foldl_cons]
      exact (local_modifyAppender ha f).trans (ih has)

/-- The appenders of a logger may take over its pattern, but no logger changes by that. -/
theorem logger_adoptPattern_eq (s : State) (i : LoggerId) (p : Pattern) (j : LoggerId) :
    (s.adoptPattern i p).logger j = (s.modifyLogger i ({ · with pattern := p })).logger j := by
  rw [adoptPattern, State.logger, loggers_foldl_modifyAppender]
  rfl

theorem logger_adoptPattern (hi : i < s.loggers.size) (p : Pattern) :
    (s.adoptPattern i p).logger i = { s.logger i with pattern := p } := by
  rw [logger_adoptPattern_eq]
  exact logger_modifyLogger_self s hi _

theorem local_adoptPattern (hi : i < s.loggers.size) (p : Pattern) :
    Local i s (s.adoptPattern i p) := by
  have hm : Local i s (s.modifyLogger i ({ · with pattern := p })) :=
    local_modifyLogger hi rfl rfl (List.Subset.refl _)
  refine hm.trans (local_foldl_modifyAppender ?_ _)
  rw [logger_modifyLogger_self s hi]
  exact List.Subset.refl _

/-! ## Attaching new appenders -/

/-- A new appender goes to the end of all appenders and of those of the logger. -/
theorem attachNew_eq (s : State) (i : LoggerId) (x : Appender) :
    attachNew i s x =
      ({ s with
        appenders := s.appenders.push (x.inherit (s.logger i).pattern) } : State).modifyLogger i
        fun l => { l with appenders := l.appenders ++ [s.appenders.size] } := by
  have hpush : ∀ f : Appender → Appender,
      (s.appenders.push x).modify s.appenders.size f = s.appenders.push (f x) := by
    intro f
    apply Array.ext_getElem?
    intro b
    rw [Array.getElem?_modify, Array.getElem?_push, Array.getElem?_push]
    by_cases hb : b = s.appenders.size
    · simp [hb]
    · rw [if_neg hb, if_neg hb, if_neg (Ne.symm hb)]
  simp only [attachNew, addAppender, attach, modifyAppender, hpush]
  rfl

theorem size_loggers_attachNew (s : State) (i : LoggerId) (x : Appender) :
    (attachNew i s x).loggers.size = s.loggers.size := by
  simp [attachNew_eq, modifyLogger]

theorem size_appenders_attachNew (s : State) (i : LoggerId) (x : Appender) :
    (attachNew i s x).appenders.size = s.appenders.size + 1 := by
  simp [attachNew_eq, modifyLogger]

theorem logger_attachNew (hi : i < s.loggers.size) (x : Appender) :
    (attachNew i s x).logger i =
      { s.logger i with appenders := (s.logger i).appenders ++ [s.appenders.size] } := by
  rw [attachNew_eq]
  exact logger_modifyLogger_self _ hi _

theorem setting_attachNew_of_lt {a : AppenderId} (h : a < s.appenders.size) (x : Appender) :
    (attachNew i s x).setting a = s.setting a := by
  rw [attachNew_eq]
  simp [modifyLogger, State.setting, Array.getElem?_push, Nat.ne_of_lt h]

theorem setting_attachNew_self (s : State) (i : LoggerId) (x : Appender) :
    (attachNew i s x).setting s.appenders.size = x.setting.inherit (s.logger i).pattern := by
  rw [attachNew_eq]
  simp [modifyLogger, State.setting, Appender.setting_inherit]

theorem local_attachNew (hi : i < s.loggers.size) (x : Appender) :
    Local i s (attachNew i s x) where
  times := by rw [attachNew_eq]; rfl
  facade := by rw [attachNew_eq]; rfl
  managers := by rw [attachNew_eq]; rfl
  size_loggers := size_loggers_attachNew s i x
  logger j hj := by
    rw [attachNew_eq]
    exact logger_modifyLogger_of_ne _ hj.symm _
  name := by rw [logger_attachNew hi]
  fallback := by rw [logger_attachNew hi]
  size_appenders := by rw [size_appenders_attachNew]; omega
  attached a ha := by
    rw [logger_attachNew hi] at ha
    rw [size_appenders_attachNew]
    rcases List.mem_append.1 ha with ha | ha
    · exact .inl ha
    · have hnew : a = s.appenders.size := List.mem_singleton.1 ha
      exact .inr ⟨by omega, by omega⟩
  setting _ ha _ := setting_attachNew_of_lt ha x

/-- What attaching a list of new appenders to a logger comes to. The appenders of the logger have to
be there, so that new ones get other numbers. -/
structure AttachedAll (i : LoggerId) (s : State) (xs : List Appender) (t : State) : Prop where
  spared : Local i s t
  level : (t.logger i).level = (s.logger i).level
  pattern : (t.logger i).pattern = (s.logger i).pattern
  settings : (t.logger i).appenders.map t.setting = (s.logger i).appenders.map s.setting
    ++ xs.map fun x => x.setting.inherit (s.logger i).pattern
  nodup : (s.logger i).appenders.Nodup → (t.logger i).appenders.Nodup

theorem attachedAll_nil (i : LoggerId) (s : State) : AttachedAll i s [] s where
  spared := .refl i s
  level := rfl
  pattern := rfl
  settings := (List.append_nil _).symm
  nodup h := h

theorem attachedAll_cons {x : Appender} {xs : List Appender} (hi : i < s.loggers.size)
    (hs : ∀ a : Nat, a ∈ (s.logger i).appenders → a < s.appenders.size)
    (h : AttachedAll i (attachNew i s x) xs t) : AttachedAll i s (x :: xs) t where
  spared := (local_attachNew hi x).trans h.spared
  level := by rw [h.level, logger_attachNew hi]
  pattern := by rw [h.pattern, logger_attachNew hi]
  settings := by
    -- those that were attached before have other numbers than the new one
    have hold : (s.logger i).appenders.map (attachNew i s x).setting
        = (s.logger i).appenders.map s.setting :=
      List.map_congr_left fun a ha => setting_attachNew_of_lt (hs a ha) x
    rw [h.settings, logger_attachNew hi, List.map_append, hold, List.map_singleton,
      setting_attachNew_self, List.append_assoc, List.map_cons]
    rfl
  nodup hn := by
    refine h.nodup ?_
    rw [logger_attachNew hi]
    refine List.nodup_append.2 ⟨hn, by simp, ?_⟩
    intro a ha b hb
    have hlt := hs a ha
    rw [List.mem_singleton.1 hb]
    exact Nat.ne_of_lt hlt

theorem attachedAll_foldl {xs : List Appender} (hi : i < s.loggers.size)
    (hs : ∀ a : Nat, a ∈ (s.logger i).appenders → a < s.appenders.size) :
    AttachedAll i s xs (xs.foldl (attachNew i) s) := by
  induction xs generalizing s with
  | nil => exact attachedAll_nil i s
  | cons x xs ih =>
      rw [List.foldl_cons]
      refine attachedAll_cons hi hs (ih ?_ ?_)
      · rwa [size_loggers_attachNew]
      · intro a ha
        rw [logger_attachNew hi] at ha
        rw [size_appenders_attachNew]
        rcases List.mem_append.1 ha with ha | ha
        · have := hs a ha
          omega
        · have hnew : a = s.appenders.size := List.mem_singleton.1 ha
          omega

/-! ## Installing -/

/-- What a logger is like after a change that has given it new appenders only. -/
structure Renewed (i : LoggerId) (s : State) (level : Level) (p : Pattern) (xs : List Setting)
    (t : State) : Prop where
  spared : Local i s t
  level : (t.logger i).level = level
  pattern : (t.logger i).pattern = p
  settings : (t.logger i).appenders.map t.setting = xs
  nodup : (t.logger i).appenders.Nodup
  fresh : ∀ a : Nat, a ∈ (t.logger i).appenders → s.appenders.size ≤ a

theorem renewed_clear (hi : i < s.loggers.size) (level : Level) :
    Renewed i s level (s.logger i).pattern [] ((s.setLevel i level).clearAppenders i) := by
  have hi' : i < (s.setLevel i level).loggers.size := by simpa [setLevel, modifyLogger] using hi
  have hlog : ((s.setLevel i level).clearAppenders i).logger i
      = { s.logger i with level := level, appenders := [] } := by
    rw [clearAppenders, logger_modifyLogger_self _ hi', setLevel, logger_modifyLogger_self _ hi]
  refine ⟨(local_setLevel hi level).trans (local_clearAppenders hi'), ?_, ?_, ?_, ?_, ?_⟩
  all_goals simp [hlog]

/-- The pattern is put up first, so the new appenders without one of their own get it. -/
theorem renewed_install (hi : i < s.loggers.size) (p : Option Pattern) (level : Level)
    (xs : List Appender) :
    Renewed i s level (p.getD (s.logger i).pattern)
      (xs.map fun x => x.setting.inherit (p.getD (s.logger i).pattern))
      (s.install i p level xs) := by
  -- the state with the pattern put up, with the logger still as it was otherwise
  obtain ⟨u, hu, hlu, hlog⟩ : ∃ u : State,
      s.install i p level xs = xs.foldl (attachNew i) ((u.setLevel i level).clearAppenders i)
      ∧ Local i s u ∧ (u.logger i).pattern = p.getD (s.logger i).pattern := by
    cases p with
    | none => exact ⟨s, rfl, .refl i s, rfl⟩
    | some p => exact ⟨s.adoptPattern i p, rfl, local_adoptPattern hi p,
        by rw [logger_adoptPattern hi]; rfl⟩
  have hiu : i < u.loggers.size := by rw [hlu.size_loggers]; exact hi
  have hc := renewed_clear hiu level
  have hnil : (((u.setLevel i level).clearAppenders i).logger i).appenders = [] :=
    List.map_eq_nil_iff.1 hc.settings
  have hic : i < ((u.setLevel i level).clearAppenders i).loggers.size := by
    rw [hc.spared.size_loggers]; exact hiu
  have ha : AttachedAll i ((u.setLevel i level).clearAppenders i) xs _ :=
    attachedAll_foldl hic (by rw [hnil]; intro a ha; cases ha)
  rw [hu]
  exact {
    spared := (hlu.trans hc.spared).trans ha.spared
    level := ha.level.trans hc.level
    pattern := (ha.pattern.trans hc.pattern).trans hlog
    settings := by
      rw [ha.settings, hnil, List.map_nil, List.nil_append, hc.pattern, hlog]
    nodup := ha.nodup hc.nodup
    fresh := by
      intro a hat
      rcases ha.spared.attached a hat with h | h
      · rw [hnil] at h
        cases h
      · have hle := (hlu.trans hc.spared).size_appenders
        omega }

/-! ## What installing keeps -/

/-- What changing the logger keeps, and handing the pattern on to an appender, giving the logger a
pattern keeps. -/
theorem adoptPattern_keeps {Q : State → Prop} {p : Pattern}
    (hlogger : Q (s.modifyLogger i ({ · with pattern := p })))
    (hinherit : ∀ (u : State) (a : AppenderId), Q u → Q (u.modifyAppender a (·.inherit p))) :
    Q (s.adoptPattern i p) :=
  List.foldlRecOn _ _ hlogger fun u hu a _ => hinherit u a hu

/-- What putting up the pattern keeps, and setting the level and clearing the appenders, and attaching
each of the new ones, installing keeps. -/
theorem install_keeps_of_steps {Q : State → Prop} {p : Option Pattern} {level : Level}
    {xs : List Appender} (hs : Q s) (hadopt : ∀ q, p = some q → Q (s.adoptPattern i q))
    (hclear : ∀ u : State, Q u → Q ((u.setLevel i level).clearAppenders i))
    (hattach : ∀ (u : State) (x : Appender), x ∈ xs → Q u → Q (attachNew i u x)) :
    Q (s.install i p level xs) := by
  have hnew : ∀ u : State, Q u →
      Q (xs.foldl (attachNew i) ((u.setLevel i level).clearAppenders i)) := fun u hu =>
    List.foldlRecOn _ _ (hclear u hu) fun v hv x hx => hattach v x hx hv
  cases p with
  | none => exact hnew s hs
  | some q => exact hnew _ (hadopt q rfl)

/-- What changing the logger keeps, and handing a pattern on to an appender, and adding one of the
new appenders, installing keeps. -/
theorem install_keeps {Q : State → Prop} {xs : List Appender} (hs : Q s)
    (hlogger : ∀ (u : State) (f : Logger → Logger), Q u → Q (u.modifyLogger i f))
    (hinherit : ∀ (u : State) (a : AppenderId) (q : Pattern), Q u →
      Q (u.modifyAppender a (·.inherit q)))
    (hadd : ∀ (u : State) (x : Appender), x ∈ xs → Q u → Q (u.addAppender x).1)
    (p : Option Pattern) (level : Level) : Q (s.install i p level xs) := by
  refine install_keeps_of_steps hs (fun q _ => ?_) (fun u hu => ?_) fun u x hx hu => ?_
  · exact adoptPattern_keeps (hlogger s _ hs) fun u a hu => hinherit u a q hu
  · exact hlogger _ _ (hlogger u _ hu)
  · exact hlogger _ _ (hinherit _ _ _ (hadd u x hx hu))

end ConfigLog.Logging.State
