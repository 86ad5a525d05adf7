import ConfigLog.Proofs.Logging.Attained
import ConfigLog.Proofs.Logging.Operation

set_option autoImplicit false

/-! # How patterns are handed on

Loggers and appenders go by well-formed patterns, and an attached appender has the pattern of its
logger unless it was given one itself. The states in which this is so are the `Regular` ones, and
every operation on managers, loggers and appenders keeps a state regular as long as no appender is
attached to two loggers (`Regular.operate`).
-/

namespace ConfigLog.Logging

/-! ## Patterns and settings -/

theorem Pattern.malformed_default : Pattern.default.malformed = false := rfl

theorem Pattern.malformed_of_given {times : TimeFormat} {source : Option String} {p : Pattern}
    (h : acceptable times source) (hp : given? times source = some p) : p.malformed = false := by
  rw [acceptable, hp] at h
  simpa using h

namespace Setting

/-- The pattern that was given to the appender itself, if any. -/
def given (x : Setting) : Option Pattern := if x.own then some x.pattern else none

/-- The appender has a pattern of its own, or the one that its logger goes by. -/
def Follows (x : Setting) (p : Pattern) : Prop := x.own = false → x.pattern = p

theorem given_inherit (x : Setting) (p : Pattern) : (x.inherit p).given = x.given := by
  unfold inherit
  by_cases hown : x.own
  · rw [if_pos hown]
  · rw [if_neg hown, given, given, if_neg hown, if_neg hown]

theorem follows_inherit (x : Setting) (p : Pattern) : (x.inherit p).Follows p := by
  unfold inherit
  by_cases hown : x.own
  · rw [if_pos hown]
    intro h
    rw [hown] at h
    cases h
  · rw [if_neg hown]
    exact fun _ => rfl

theorem inherit_inherit (x : Setting) (p : Pattern) : (x.inherit p).inherit p = x.inherit p := by
  unfold inherit
  by_cases hown : x.own <;> simp [hown]

theorem malformed_inherit {x : Setting} {p : Pattern} (hx : x.pattern.malformed = false)
    (hp : p.malformed = false) : (x.inherit p).pattern.malformed = false := by
  unfold inherit
  split
  · exact hx
  · exact hp

end Setting

theorem AppenderDefinition.given_setting (d : AppenderDefinition) (times : TimeFormat)
    (p : Pattern) : (d.setting times p).given = Pattern.given? times d.pattern := by
  unfold AppenderDefinition.setting Setting.given
  cases Pattern.given? times d.pattern <;> rfl

/-- What was built has a well-formed pattern. -/
theorem Appender.Built.malformed {times : TimeFormat} {x : Appender} (hx : x.Built times) :
    x.setting.pattern.malformed = false := by
  obtain ⟨s, d, rfl, h⟩ := hx
  rw [State.build_setting h]
  rw [State.build_eq] at h
  obtain ⟨p, hp, -⟩ := State.andThen_eq_ok h
  have hacceptable : Pattern.acceptable s.times d.pattern := by
    rw [← (State.definedPattern_snd s d.pattern).1, hp]
    rfl
  cases hgiven : Pattern.given? s.times d.pattern with
  | none =>
      rw [AppenderDefinition.setting, hgiven]
      exact Pattern.malformed_default
  | some q =>
      rw [AppenderDefinition.setting, hgiven]
      exact Pattern.malformed_of_given hacceptable hgiven

namespace State

variable {s t : State} {a : AppenderId}

/-! ## Handing on a pattern -/

theorem setting_inherit (ha : a < s.appenders.size) (p : Pattern) (b : AppenderId) :
    (s.modifyAppender a (·.inherit p)).setting b
      = if b = a then (s.setting b).inherit p else s.setting b := by
  by_cases hb : b = a
  · have hx := Array.getElem?_eq_getElem ha
    rw [if_pos hb, hb, setting_modifyAppender_self hx, Appender.setting_inherit,
      setting_of_getElem? hx]
  · rw [if_neg hb, setting_modifyAppender_of_ne (Ne.symm hb)]

/-- An appender that is attached more than once takes over the pattern as if it were once. -/
theorem setting_foldl_inherit {as : List AppenderId} (has : ∀ a ∈ as, a < s.appenders.size)
    (p : Pattern) (b : AppenderId) :
    (as.foldl (fun s a => s.modifyAppender a (·.inherit p)) s).setting b
      = if b ∈ as then (s.setting b).inherit p else s.setting b := by
  induction as generalizing s with
  | nil => rw [if_neg List.not_mem_nil, List.foldl_nil]
  | cons a as ih =>
      have ha := has a List.mem_cons_self
      have hrest : ∀ c ∈ as, c < (s.modifyAppender a (·.inherit p)).appenders.size := by
        intro c hc
        simpa [modifyAppender] using has c (List.mem_cons_of_mem a hc)
      rw [List.foldl_cons, ih hrest, setting_inherit ha]
      by_cases hb : b = a
      · by_cases hmem : b ∈ as
        · rw [if_pos hmem, if_pos hb, if_pos (List.mem_cons_of_mem a hmem),
            Setting.inherit_inherit]
        · rw [if_neg hmem, if_pos hb, if_pos (hb ▸ List.mem_cons_self)]
      · rw [if_neg hb]
        simp only [List.mem_cons, hb, false_or]

theorem setting_adoptPattern {i : LoggerId}
    (has : ∀ a ∈ (s.logger i).appenders, a < s.appenders.size) (p : Pattern) (b : AppenderId) :
    (s.adoptPattern i p).setting b
      = if b ∈ (s.logger i).appenders then (s.setting b).inherit p else s.setting b :=
  setting_foldl_inherit (s := s.modifyLogger i ({ · with pattern := p })) has p b

theorem logger_attach (s : State) (i : LoggerId) (a : AppenderId) (j : LoggerId) :
    (s.attach i a).logger j = s.logger j ∨
      j = i ∧ (s.attach i a).logger j
        = { s.logger j with appenders := (s.logger j).appenders ++ [a] } := by
  by_cases hj : j = i
  · subst hj
    rcases logger_modifyLogger (s.modifyAppender a (·.inherit (s.logger j).pattern)) j j
      (fun l => { l with appenders := l.appenders ++ [a] }) with h | h
    · exact .inl h
    · exact .inr ⟨rfl, h⟩
  · exact .inl (logger_modifyLogger_of_ne (s.modifyAppender a _) (Ne.symm hj) _)

/-! ## Regular states -/

/-- All patterns are well formed, and each appender is attached to one logger at most and has the
pattern of that logger or one of its own. -/
structure Regular (s : State) : Prop where
  logger : ∀ i, (s.logger i).pattern.malformed = false
  setting : ∀ a, (s.setting a).pattern.malformed = false
  attached : ∀ (i : LoggerId) (a : AppenderId), a ∈ (s.logger i).appenders →
    a < s.appenders.size
  exclusive : s.Exclusive
  follows : ∀ (i : LoggerId) (a : AppenderId), a ∈ (s.logger i).appenders →
    (s.setting a).Follows (s.logger i).pattern

namespace Regular

/-- A state stays regular as long as the patterns stay and nothing is attached. -/
theorem of_shrunk (hs : s.Regular)
    (hpattern : ∀ i, (t.logger i).pattern = (s.logger i).pattern)
    (hattached : ∀ i, (t.logger i).appenders ⊆ (s.logger i).appenders)
    (hsetting : ∀ a, t.setting a = s.setting a)
    (hsize : s.appenders.size ≤ t.appenders.size) : t.Regular := by
  constructor
  case logger => exact fun i => by rw [hpattern]; exact hs.logger i
  case setting => exact fun a => by rw [hsetting]; exact hs.setting a
  case attached =>
    intro i a ha
    exact Nat.lt_of_lt_of_le (hs.attached i a (hattached i ha)) hsize
  case exclusive =>
    intro i j a hi hj
    exact hs.exclusive i j a (hattached i hi) (hattached j hj)
  case follows =>
    intro i a ha
    rw [hsetting, hpattern]
    exact hs.follows i a (hattached i ha)

theorem congr (hs : s.Regular) (h : t.setup = s.setup) : t.Regular :=
  hs.of_shrunk (fun i => by rw [logger_congr h]) (fun i => by rw [logger_congr h]; exact fun _ => id)
    (setting_congr h) (Nat.le_of_eq (size_appenders_congr h).symm)

/-- Who has which logger is of no account, nor are the files and where records go. -/
theorem of_eq (hs : s.Regular) (hl : t.loggers = s.loggers) (ha : t.appenders = s.appenders) :
    t.Regular := by
  have hlogger : ∀ i, t.logger i = s.logger i := fun i => by rw [State.logger, State.logger, hl]
  have hsetting : ∀ a, t.setting a = s.setting a := fun a => by
    rw [State.setting, State.setting, ha]
  exact hs.of_shrunk (fun i => by rw [hlogger]) (fun i => by rw [hlogger]; exact fun _ => id)
    hsetting (Nat.le_of_eq (by rw [ha]))

/-! ## Loggers -/

/-- A logger may change as long as the pattern stays and nothing is attached. -/
theorem modifyLogger (hs : s.Regular) (i : LoggerId) {f : Logger → Logger}
    (hpattern : ∀ l, (f l).pattern = l.pattern) (hattached : ∀ l, (f l).appenders ⊆ l.appenders) :
    (s.modifyLogger i f).Regular := by
  refine hs.of_shrunk (fun j => ?_) (fun j => ?_) (fun _ => rfl) (Nat.le_refl _)
  · rcases logger_modifyLogger s i j f with h | h <;> rw [h]
    exact hpattern _
  · rcases logger_modifyLogger s i j f with h | h <;> rw [h]
    · exact fun _ => id
    · exact hattached _

theorem setLevel (hs : s.Regular) (i : LoggerId) (level : Level) : (s.setLevel i level).Regular :=
  hs.modifyLogger i (fun _ => rfl) fun _ _ h => h

theorem clearAppenders (hs : s.Regular) (i : LoggerId) : (s.clearAppenders i).Regular :=
  hs.modifyLogger i (fun _ => rfl) fun _ => List.nil_subset _

theorem detach (hs : s.Regular) (i : LoggerId) (a : AppenderId) : (s.detach i a).1.Regular :=
  hs.modifyLogger i (fun _ => rfl) fun _ _ h => (List.mem_filter.1 h).1

/-- A new logger may come with appenders that are attached to no other one. -/
theorem addLogger (hs : s.Regular) {l : Logger} (hl : l.pattern.malformed = false)
    (happ : ∀ a ∈ l.appenders, a < s.appenders.size ∧ (s.setting a).Follows l.pattern ∧
      ∀ j, a ∉ (s.logger j).appenders) : (s.addLogger l).1.Regular := by
  have hlogger := logger_addLogger s l
  constructor
  case logger =>
    intro i
    rw [hlogger]
    split
    · exact hl
    · exact hs.logger i
  case setting => exact hs.setting
  case attached =>
    intro i a ha
    rw [hlogger] at ha
    split at ha
    · exact (happ a ha).1
    · exact hs.attached i a ha
  case exclusive =>
    -- by assumption no logger has an appender of the new one
    intro i j a hi hj
    rw [hlogger] at hi hj
    split at hi
    · rename_i hinew
      split at hj
      · rename_i hjnew
        exact hinew.trans hjnew.symm
      · exact absurd hj ((happ a hi).2.2 j)
    · split at hj
      · exact absurd hi ((happ a hj).2.2 i)
      · exact hs.exclusive i j a hi hj
  case follows =>
    intro i a ha
    rw [hlogger] at ha ⊢
    split at ha
    · rename_i hi
      rw [if_pos hi]
      exact (happ a ha).2.1
    · rename_i hi
      rw [if_neg hi]
      exact hs.follows i a ha

theorem obtain (hs : s.Regular) (m : ManagerId) (name : String) : (s.obtain m name).1.Regular := by
  cases hf : (s.manager m).find? name with
  | some i => rwa [obtain_of_find hf]
  | none =>
      have hnew : (s.addLogger { name, fallback := some (s.manager m).root }).1.Regular :=
        hs.addLogger Pattern.malformed_default fun a ha => absurd ha List.not_mem_nil
      have henrolled : (s.enrol m name).Regular := hnew.of_eq rfl rfl
      rw [obtain_of_find_none hf]
      exact henrolled.congr (setup_emit _ _)

/-! ## Appenders -/

/-- An appender may change as long as it goes by a pattern that it may go by. -/
theorem modifyAppender (hs : s.Regular) {f : Appender → Appender} (a : AppenderId)
    (hf : ∀ x, s.appenders[a]? = some x → (f x).setting.pattern.malformed = false ∧
      ∀ p, x.setting.Follows p → (f x).setting.Follows p) : (s.modifyAppender a f).Regular := by
  have hsetting := setting_modifyAppender_cases s a f
  constructor
  case logger => exact hs.logger
  case setting =>
    intro b
    rcases hsetting b with h | ⟨x, -, hx, h⟩ <;> rw [h]
    · exact hs.setting b
    · exact (hf x hx).1
  case attached => exact fun i b hb => by simpa [State.modifyAppender] using hs.attached i b hb
  case exclusive => exact hs.exclusive
  case follows =>
    intro i b hb
    have hfollows := hs.follows i b hb
    rcases hsetting b with h | ⟨x, rfl, hx, h⟩ <;> rw [h]
    · exact hfollows
    · rw [setting_of_getElem? hx] at hfollows
      exact (hf x hx).2 _ hfollows

theorem setAppenderLevel (hs : s.Regular) (a : AppenderId) (level : Level) :
    (s.setAppenderLevel a level).Regular := by
  refine hs.modifyAppender a fun x hx => ⟨?_, fun _ hfollows => hfollows⟩
  have hwell := hs.setting a
  rwa [setting_of_getElem? hx] at hwell

/-- A pattern that an appender takes is well formed, and from then on its own. -/
theorem setAppenderPattern (hs : s.Regular) (a : AppenderId) (p : Pattern) :
    (s.setAppenderPattern a p).1.Regular := by
  unfold State.setAppenderPattern Appender.setPattern
  split
  · exact hs
  · by_cases hm : p.malformed
    · rw [if_pos hm]
      exact hs
    · rw [if_neg hm]
      exact hs.modifyAppender a fun _ _ => ⟨Bool.eq_false_iff.2 hm, fun _ _ hown => by cases hown⟩

/-- A new appender is attached to no logger yet. -/
theorem addAppender (hs : s.Regular) {x : Appender} (hx : x.setting.pattern.malformed = false) :
    (s.addAppender x).1.Regular := by
  constructor
  case logger => exact hs.logger
  case setting =>
    intro a
    rw [setting_addAppender]
    split
    · exact hx
    · exact hs.setting a
  case attached =>
    intro i a ha
    have hlt := hs.attached i a ha
    rw [State.addAppender, Array.size_push]
    exact Nat.lt_succ_of_lt hlt
  case exclusive => exact hs.exclusive
  case follows =>
    intro i a ha
    have hlt := hs.attached i a ha
    rw [setting_addAppender, if_neg (Nat.ne_of_lt hlt)]
    exact hs.follows i a ha

/-- An appender may be attached to a logger as long as it is attached to no other one. -/
theorem attach (hs : s.Regular) (i : LoggerId) (ha : a < s.appenders.size)
    (hfree : ∀ j, a ∈ (s.logger j).appenders → j = i) : (s.attach i a).Regular := by
  have hsetting : ∀ b, (s.attach i a).setting b
      = if b = a then (s.setting b).inherit (s.logger i).pattern else s.setting b :=
    setting_inherit ha _
  have hlogger : ∀ j, ((s.attach i a).logger j).pattern = (s.logger j).pattern ∧
      ∀ b ∈ ((s.attach i a).logger j).appenders,
        b ∈ (s.logger j).appenders ∨ (j = i ∧ b = a) := by
    intro j
    rcases logger_attach s i a j with h | ⟨rfl, h⟩ <;> rw [h]
    · exact ⟨rfl, fun b hb => .inl hb⟩
    · refine ⟨rfl, fun b hb => ?_⟩
      exact (List.mem_append.1 hb).imp id fun hnew => ⟨rfl, List.mem_singleton.1 hnew⟩
  constructor
  case logger => exact fun j => by rw [(hlogger j).1]; exact hs.logger j
  case setting =>
    intro b
    rw [hsetting]
    split
    · exact Setting.malformed_inherit (hs.setting b) (hs.logger i)
    · exact hs.setting b
  case attached =>
    intro j b hb
    have hsize : (s.attach i a).appenders.size = s.appenders.size := by
      simp [State.attach, State.modifyLogger, State.modifyAppender]
    rw [hsize]
    rcases (hlogger j).2 b hb with hb | ⟨-, rfl⟩
    · exact hs.attached j b hb
    · exact ha
  case exclusive =>
    intro j k b hj hk
    rcases (hlogger j).2 b hj with hold | ⟨rfl, rfl⟩
    · rcases (hlogger k).2 b hk with hold' | ⟨rfl, rfl⟩
      · exact hs.exclusive j k b hold hold'
      · exact hfree j hold
    · rcases (hlogger k).2 b hk with hold' | ⟨rfl, -⟩
      · exact (hfree k hold').symm
      · rfl
  case follows =>
    intro j b hb
    rw [hsetting, (hlogger j).1]
    rcases (hlogger j).2 b hb with hb | ⟨rfl, rfl⟩
    · split
      · -- the appender was there already, and only this logger can have it
        rename_i hba
        rw [hba] at hb
        rw [hfree j hb]
        exact Setting.follows_inherit _ _
      · exact hs.follows j b hb
    · rw [if_pos rfl]
      exact Setting.follows_inherit _ _

/-- The appenders of a logger take over its new pattern, and those of others have nothing to do with
it. -/
theorem adoptPattern (hs : s.Regular) (i : LoggerId) {p : Pattern} (hp : p.malformed = false) :
    (s.adoptPattern i p).Regular := by
  have hsetting := setting_adoptPattern (hs.attached i) p
  have hloggers : ∀ j, ((s.adoptPattern i p).logger j).appenders = (s.logger j).appenders ∧
      ((s.adoptPattern i p).logger j).pattern.malformed = false := by
    intro j
    rw [logger_adoptPattern_eq]
    rcases logger_modifyLogger s i j ({ · with pattern := p }) with h | h <;> rw [h]
    · exact ⟨rfl, hs.logger j⟩
    · exact ⟨rfl, hp⟩
  have hsize : (s.adoptPattern i p).appenders.size = s.appenders.size :=
    adoptPattern_keeps (Q := fun t => t.appenders.size = s.appenders.size) rfl fun u a hu => by
      simpa [State.modifyAppender] using hu
  constructor
  case logger => exact fun j => (hloggers j).2
  case setting =>
    intro a
    rw [hsetting]
    split
    · exact Setting.malformed_inherit (hs.setting a) hp
    · exact hs.setting a
  case attached =>
    intro j a ha
    rw [(hloggers j).1] at ha
    rw [hsize]
    exact hs.attached j a ha
  case exclusive =>
    intro j k a hj hk
    rw [(hloggers j).1] at hj
    rw [(hloggers k).1] at hk
    exact hs.exclusive j k a hj hk
  case follows =>
    intro j a ha
    rw [(hloggers j).1] at ha
    rw [hsetting]
    -- an appender that takes over the new pattern is attached to no other logger
    split
    · rename_i hi
      obtain rfl := hs.exclusive j i a ha hi
      have hj : j < s.loggers.size := by
        refine Nat.lt_of_not_le fun hle => ?_
        rw [appenders_logger_of_le hle] at ha
        cases ha
      rw [logger_adoptPattern hj]
      exact Setting.follows_inherit _ _
    · rename_i hi
      have hne : j ≠ i := fun h => hi (h ▸ ha)
      rw [logger_adoptPattern_eq, logger_modifyLogger_of_ne s hne.symm]
      exact hs.follows j a ha

/-- A logger takes no pattern that is malformed. -/
theorem setPattern (hs : s.Regular) (i : LoggerId) (p : Pattern) :
    (s.setPattern i p).1.Regular := by
  unfold State.setPattern
  split
  · exact hs.congr (setup_emit _ _)
  · rename_i hm
    exact hs.adoptPattern i (Bool.eq_false_iff.2 hm)

/-! ## Reconciliation -/

theorem attachNew (hs : s.Regular) (i : LoggerId) {x : Appender}
    (hx : x.setting.pattern.malformed = false) : (attachNew i s x).Regular := by
  refine (hs.addAppender hx).attach i (by simp [State.addAppender]) fun j hj => ?_
  exact absurd (hs.attached j _ hj) (Nat.lt_irrefl _)

theorem install (hs : s.Regular) (i : LoggerId) {p : Option Pattern}
    (hp : ∀ q, p = some q → q.malformed = false) (level : Level) {xs : List Appender}
    {times : TimeFormat} (hxs : ∀ x ∈ xs, x.Built times) : (s.install i p level xs).Regular := by
  refine install_keeps_of_steps hs (fun q hq => ?_) (fun u hu => ?_) fun u x hx hu => ?_
  · exact hs.adoptPattern i (hp q hq)
  · exact (hu.setLevel i level).clearAppenders i
  · exact hu.attachNew i (hxs x hx).malformed

theorem reconcile (hs : s.Regular) (m : ManagerId) (old new : Definitions) :
    (s.reconcile m old new).1.Regular := by
  refine reconcile_keeps hs (fun _ _ h hu => hu.congr h) (fun _ name hu => hu.obtain m name)
    (fun _ i hu => (hu.setLevel i .off).clearAppenders i) (fun _ i source level xs hp hxs hu => ?_)
    old new
  exact hu.install i (fun _ hq => Pattern.malformed_of_given hp hq) level hxs

/-! ## New managers and sinks -/

theorem addManager (hs : s.Regular) : s.addManager.1.Regular := by
  have happender : (s.addAppender { sink := .stdout }).1.Regular :=
    hs.addAppender Pattern.malformed_default
  have hroot := happender.addLogger (l := { name := rootName, appenders := [s.appenders.size] })
    Pattern.malformed_default fun a ha => by
      obtain rfl := List.mem_singleton.1 ha
      refine ⟨by simp [State.addAppender], ?_, fun j hj => ?_⟩
      · rw [setting_addAppender, if_pos rfl]
        exact fun _ => rfl
      · exact absurd (hs.attached j _ hj) (Nat.lt_irrefl _)
  exact hroot.of_eq rfl rfl

theorem newAppender (hs : s.Regular) (d : Destination) : (s.newAppender d).1.Regular := by
  rcases newAppender_cases s d with h | ⟨u, sink, h, -, hnew⟩
  · exact hs.congr h
  · rw [hnew]
    exact (hs.congr h).addAppender Pattern.malformed_default

/-! ## All operations -/

theorem operate (hs : s.Regular) {o : Operation} (hfits : s.Fits o)
    (hexclusive : (s.operate o).1.Exclusive) : (s.operate o).1.Regular := by
  cases o with
  | meanwhile files stamp => exact hs.of_eq rfl rfl
  | facade facade => exact hs.of_eq rfl rfl
  | addManager => exact hs.addManager
  | addLogger name =>
      exact hs.addLogger Pattern.malformed_default fun a ha => absurd ha List.not_mem_nil
  | obtain m name => exact hs.obtain m name
  | newAppender d => exact andThen_fst (hs.newAppender d) fun _ _ => hs.newAppender d
  | addCustom broken => exact hs.addAppender Pattern.malformed_default
  | build d =>
      have hbuilt := hs.congr (prepares_build s d).setup
      exact andThen_fst hbuilt fun x hx =>
        hbuilt.addAppender (Appender.Built.malformed ⟨s, d, rfl, hx⟩)
  | setBroken a broken => exact hs.congr (setup_setBroken s a broken)
  | reopen a => exact hs.congr (setup_reopen s a)
  | parse source =>
      have hparsed := hs.congr (setup_parse s source)
      exact andThen_fst hparsed fun _ _ => hparsed
  | setLevel i level => exact hs.setLevel i level
  | setPattern i p => exact hs.setPattern i p
  | setAppenderLevel a level => exact hs.setAppenderLevel a level
  | setAppenderPattern a p => exact hs.setAppenderPattern a p
  | attach i a =>
      obtain ⟨hi, ha⟩ := hfits
      -- what has been attached to another logger stays so, which would be one too many
      refine hs.attach i ha fun j hj => hexclusive j i a ?_ ?_
      · show a ∈ ((s.attach i a).logger j).appenders
        rcases logger_attach s i a j with h | ⟨-, h⟩ <;> rw [h]
        · exact hj
        · exact List.mem_append_left _ hj
      · show a ∈ ((s.attach i a).logger i).appenders
        have hi' : i < (s.modifyAppender a (·.inherit (s.logger i).pattern)).loggers.size := hi
        rw [State.attach, logger_modifyLogger_self _ hi']
        exact List.mem_append_right _ List.mem_cons_self
  | detach i a => exact hs.detach i a
  | clearAppenders i => exact hs.clearAppenders i
  | reconcile m old new => exact hs.reconcile m old new
  | log i level e => exact hs.congr (setup_log s i level e)
  | emit r => exact hs.congr (setup_emit s r)

end Regular

theorem regular_start (files : Files.Store) (times : TimeFormat) :
    ({ files, times } : State).Regular where
  logger _ := Pattern.malformed_default
  setting _ := Pattern.malformed_default
  attached _ _ ha := absurd ha List.not_mem_nil
  exclusive _ _ _ ha := absurd ha List.not_mem_nil
  follows _ _ ha := absurd ha List.not_mem_nil

end State

end ConfigLog.Logging
