import ConfigLog.Proofs.Logging.Inheritance

set_option autoImplicit false

/-! # Patterns that appenders are given

An appender that was given a pattern keeps it until it is given another one, whatever happens to
loggers and attachments meanwhile (`given_operateAll`), and nothing comes of a pattern that is turned
down (`inert_operate`). Together with what regular states are this says all about which patterns
loggers and appenders go by after any orderly operations (`operateAll_patterns`).
-/

namespace ConfigLog.Logging

/-- The pattern that an operation gives to an appender. A malformed one is turned down. -/
def Operation.installs (a : AppenderId) : Operation → Option Pattern
  | .setAppenderPattern b p => if b = a ∧ p.malformed = false then some p else none
  | _ => none

namespace State

variable {s t u : State} {a : AppenderId}

/-! ## What appenders retain -/

/-- The appenders that were there have the patterns of their own that they had. -/
structure Retains (s t : State) : Prop where
  size : s.appenders.size ≤ t.appenders.size
  given : ∀ a < s.appenders.size, (t.setting a).given = (s.setting a).given

namespace Retains

theorem trans (h : s.Retains t) (h' : t.Retains u) : s.Retains u where
  size := Nat.le_trans h.size h'.size
  given a ha := (h'.given a (Nat.lt_of_lt_of_le ha h.size)).trans (h.given a ha)

theorem of_setup (h : t.setup = s.setup) : s.Retains t where
  size := Nat.le_of_eq (size_appenders_congr h).symm
  given a _ := by rw [setting_congr h]

theorem of_appenders (h : t.appenders = s.appenders) : s.Retains t where
  size := Nat.le_of_eq (by rw [h])
  given a _ := by rw [State.setting, State.setting, h]

theorem modifyAppender (s : State) (a : AppenderId) {f : Appender → Appender}
    (hf : ∀ x, (f x).setting.given = x.setting.given) : s.Retains (s.modifyAppender a f) where
  size := Nat.le_of_eq (by simp [State.modifyAppender])
  given b _ := by
    rcases setting_modifyAppender_cases s a f b with h | ⟨x, rfl, hx, h⟩ <;> rw [h]
    rw [hf, setting_of_getElem? hx]

theorem inherit (s : State) (a : AppenderId) (p : Pattern) :
    s.Retains (s.modifyAppender a (·.inherit p)) :=
  modifyAppender s a fun x => by rw [Appender.setting_inherit, Setting.given_inherit]

theorem addAppender (s : State) (x : Appender) : s.Retains (s.addAppender x).1 where
  size := by simp [State.addAppender]
  given a ha := by rw [setting_addAppender, if_neg (Nat.ne_of_lt ha)]

theorem adoptPattern (s : State) (i : LoggerId) (p : Pattern) : s.Retains (s.adoptPattern i p) :=
  adoptPattern_keeps (of_appenders rfl) fun u a hu => hu.trans (inherit u a p)

theorem obtain (s : State) (m : ManagerId) (name : String) : s.Retains (s.obtain m name).1 := by
  cases hf : (s.manager m).find? name with
  | some i =>
      rw [obtain_of_find hf]
      exact of_appenders rfl
  | none =>
      have henrolled : s.Retains (s.enrol m name) := of_appenders rfl
      rw [obtain_of_find_none hf]
      exact henrolled.trans (of_setup (setup_emit _ _))

/-- New appenders have other numbers than those that were there. -/
theorem reconcile (s : State) (m : ManagerId) (old new : Definitions) :
    s.Retains (s.reconcile m old new).1 := by
  refine reconcile_keeps (Q := s.Retains) (of_appenders rfl) (fun _ _ h hu => hu.trans (of_setup h))
    (fun u name hu => hu.trans (obtain u m name)) (fun _ _ hu => hu.trans (of_appenders rfl))
    (fun u i source level xs _ _ hu => ?_) old new
  exact install_keeps hu (fun _ _ hv => hv.trans (of_appenders rfl))
    (fun v a q hv => hv.trans (inherit v a q)) (fun v x _ hv => hv.trans (addAppender v x)) _ level

theorem newAppender (s : State) (d : Destination) : s.Retains (s.newAppender d).1 := by
  rcases newAppender_cases s d with h | ⟨u, sink, h, -, hnew⟩
  · exact of_setup h
  · rw [hnew]
    exact (of_setup h).trans (addAppender u _)

end Retains

/-- No operation takes a pattern away from an appender or gives it one, but for the one that is there
for it. -/
theorem retains_operate (s : State) {o : Operation}
    (ho : ∀ a p, o ≠ .setAppenderPattern a p) : s.Retains (s.operate o).1 := by
  cases o with
  | meanwhile files stamp => exact .of_appenders rfl
  | facade facade => exact .of_appenders rfl
  | addManager =>
      have hadded := Retains.addAppender s { sink := .stdout }
      exact hadded.trans (.of_appenders rfl)
  | addLogger name => exact .of_appenders rfl
  | obtain m name => exact .obtain s m name
  | newAppender d =>
      have hnew := Retains.newAppender s d
      exact andThen_fst hnew fun _ _ => hnew
  | addCustom broken => exact .addAppender s _
  | build d =>
      have hbuilt : s.Retains (s.build d).1 := .of_setup (prepares_build s d).setup
      exact andThen_fst hbuilt fun x _ => hbuilt.trans (.addAppender _ x)
  | setBroken a broken => exact .of_setup (setup_setBroken s a broken)
  | reopen a => exact .of_setup (setup_reopen s a)
  | parse source =>
      have hparsed : s.Retains (s.parse source).1 := .of_setup (setup_parse s source)
      exact andThen_fst hparsed fun _ _ => hparsed
  | setLevel i level => exact .of_appenders rfl
  | setPattern i p =>
      show s.Retains (s.setPattern i p).1
      unfold State.setPattern
      split
      · exact .of_setup (setup_emit _ _)
      · exact .adoptPattern s i p
  | setAppenderLevel a level => exact .modifyAppender s a fun _ => rfl
  | setAppenderPattern a p => exact absurd rfl (ho a p)
  | attach i a => exact (Retains.inherit s a _).trans (.of_appenders rfl)
  | detach i a => exact .of_appenders rfl
  | clearAppenders i => exact .of_appenders rfl
  | reconcile m old new => exact .reconcile s m old new
  | log i level e => exact .of_setup (setup_log s i level e)
  | emit r => exact .of_setup (setup_emit s r)

/-- A pattern is taken by the appender that it is for, unless it is malformed, and by no other. -/
theorem given_setAppenderPattern (ha : a < s.appenders.size) (b : AppenderId) (p : Pattern) :
    ((s.setAppenderPattern b p).1.setting a).given
      = ((Operation.setAppenderPattern b p).installs a).or (s.setting a).given := by
  rw [Operation.installs]
  unfold State.setAppenderPattern Appender.setPattern
  cases hx : s.appenders[b]? with
  | none =>
      -- the appender in question is there, so it is another one
      have hne : b ≠ a := by
        rintro rfl
        rw [Array.getElem?_eq_getElem ha] at hx
        cases hx
      rw [if_neg fun h => hne h.1]
      rfl
  | some x =>
      by_cases hm : p.malformed
      · simp [hm]
      · by_cases hb : b = a
        · subst hb
          have hset : (s.modifyAppender b fun _ => { x with pattern := p, own := true }).setting b
              = { x.setting with pattern := p, own := true } :=
            setting_modifyAppender_self hx _
          simp only [hm, and_self, if_true]
          rw [if_neg (by simp), hset]
          rfl
        · simp only [hm, hb, false_and, if_false]
          rw [if_neg (by simp), setting_modifyAppender_of_ne hb]
          rfl

theorem given_operate (ha : a < s.appenders.size) (o : Operation) :
    a < (s.operate o).1.appenders.size ∧
      ((s.operate o).1.setting a).given = (o.installs a).or (s.setting a).given := by
  by_cases ho : ∃ b p, o = .setAppenderPattern b p
  · obtain ⟨b, p, rfl⟩ := ho
    refine ⟨?_, given_setAppenderPattern ha b p⟩
    show a < (s.setAppenderPattern b p).1.appenders.size
    unfold State.setAppenderPattern
    split
    · exact ha
    · split
      · exact ha
      · simpa [State.modifyAppender] using ha
  · have hretains := retains_operate s (o := o) fun b p h => ho ⟨b, p, h⟩
    have hnone : o.installs a = none := by
      cases o with
      | setAppenderPattern b p => exact absurd ⟨b, p, rfl⟩ ho
      | _ => rfl
    rw [hnone, Option.none_or]
    exact ⟨Nat.lt_of_lt_of_le ha hretains.size, hretains.given a ha⟩

/-- An appender has the pattern that it was given last, and if it was given none, that of before. -/
theorem given_operateAll (ha : a < s.appenders.size) (operations : List Operation) :
    ((s.operateAll operations).setting a).given
      = (operations.filterMap (·.installs a)).getLast?.or (s.setting a).given := by
  induction operations generalizing s with
  | nil => rfl
  | cons o operations ih =>
      obtain ⟨hsize, hgiven⟩ := given_operate ha o
      rw [operateAll_cons, ih hsize, hgiven]
      cases ho : o.installs a with
      | none => rw [List.filterMap_cons_none ho, Option.none_or]
      | some p =>
          rw [List.filterMap_cons_some ho, List.getLast?_cons]
          cases (operations.filterMap (·.installs a)).getLast? <;> rfl

/-! ## Patterns that are turned down -/

/-- Nothing has changed, but a record may have been written. -/
structure Inert (s t : State) : Prop where
  setup : t.setup = s.setup
  eq : s.facade = none → t = s

theorem Inert.refl (s : State) : s.Inert s := ⟨rfl, fun _ => rfl⟩

theorem inert_emit (s : State) (r : Record) : s.Inert (s.emit r) :=
  ⟨setup_emit s r, fun h => emit_of_facade_eq_none h r⟩

theorem inert_definedPattern (s : State) (source : Option String) :
    s.Inert (s.definedPattern source).1 := by
  rcases definedPattern_fst s source with h | ⟨r, h⟩ <;> rw [h]
  · exact .refl s
  · exact inert_emit s r

/-- A sink that cannot be opened is another matter than a malformed pattern. -/
theorem openSink_ne_malformed (s : State) (d : Destination) (source : String) :
    (s.openSink d).2 ≠ .error (.malformedPattern source) := by
  unfold State.openSink
  split
  · exact fun h => by cases h
  · split
    · exact fun h => by cases h
    · exact fun h => by cases h

/-- An operation that is turned down for a malformed pattern changes nothing. -/
theorem inert_operate {o : Operation} {source : String}
    (h : (s.operate o).2 = .error (.malformedPattern source)) : s.Inert (s.operate o).1 := by
  cases o with
  | newAppender d =>
      -- the sink is all that can fail
      rcases andThen_eq_error h with ⟨hnew, -⟩ | ⟨_, _, -, hok⟩
      · refine absurd ?_ (openSink_ne_malformed s d source)
        unfold State.newAppender at hnew
        rcases hopened : s.openSink d with ⟨u, e | sink⟩
        · rw [hopened] at hnew
          exact congrArg Except.error (Except.error.inj hnew)
        · rw [hopened] at hnew
          cases hnew
      · cases hok
  | build d =>
      rcases andThen_eq_error h with ⟨hbuild, hstate⟩ | ⟨_, _, -, hok⟩
      · show s.Inert (andThen (s.build d) _).1
        rw [hstate]
        rw [build_eq] at hbuild ⊢
        -- the pattern is compiled before the sink is opened
        rcases andThen_eq_error hbuild with ⟨-, hstate⟩ | ⟨p, -, -, hopen⟩
        · rw [hstate]
          exact inert_definedPattern s d.pattern
        · rcases andThen_eq_error hopen with ⟨hsink, -⟩ | ⟨_, _, -, hok⟩
          · exact absurd hsink (openSink_ne_malformed _ d.destination source)
          · cases hok
      · cases hok
  | reopen a =>
      refine absurd h ?_
      show (s.reopen a).2 ≠ _
      unfold State.reopen reopenWith
      split
      · split
        · exact fun h => by cases h
        · exact fun h => by cases h
      · exact fun h => by cases h
  | parse text =>
      rcases andThen_eq_error h with ⟨hparse, hstate⟩ | ⟨_, _, -, hok⟩
      · show s.Inert (andThen (s.parse text) _).1
        rw [hstate, parse_eq]
        split
        · exact inert_emit s _
        · exact .refl s
      · cases hok
  | setPattern i p =>
      change (s.setPattern i p).2 = _ at h
      show s.Inert (s.setPattern i p).1
      unfold State.setPattern at h ⊢
      split at h
      · rename_i hm
        rw [if_pos hm]
        exact inert_emit s _
      · cases h
  | setAppenderPattern a p =>
      change (s.setAppenderPattern a p).2 = _ at h
      show s.Inert (s.setAppenderPattern a p).1
      unfold State.setAppenderPattern at h ⊢
      split at h
      · cases h
      · split at h
        · exact .refl s
        · cases h
  | _ => cases h

/-! ## All about patterns -/

/-- Applying a definition fails without a change, or the appenders of its logger have the patterns
that the definition gives them. -/
theorem apply_given (hs : s.Sound) {m : Nat} (hm : m < s.managers.size) (d : Definition) :
    (∃ e, (s.apply m d).2 = .error e ∧ (s.apply m d).1.setup = s.setup) ∨
      ∃ i, ((s.apply m d).1.manager m).find? d.name = some i ∧
        ((s.apply m d).1.logger i).appenders.map (fun a => ((s.apply m d).1.setting a).given)
          = d.appenders.map fun a => Pattern.given? s.times a.pattern := by
  rcases apply_cases hs hm d with herror | ⟨-, hachieved⟩
  · exact .inl herror
  · have hstatus := hachieved.status
    rw [Action.name, status?, Action.result, Action.status] at hstatus
    obtain ⟨i, hfind, hi⟩ := Option.map_eq_some_iff.1 hstatus
    obtain ⟨p, hsettings⟩ : ∃ p, ((s.apply m d).1.logger i).appenders.map (s.apply m d).1.setting
        = d.appenders.map (·.setting s.times p) := ⟨_, congrArg Status.appenders hi⟩
    refine .inr ⟨i, hfind, ?_⟩
    calc ((s.apply m d).1.logger i).appenders.map (fun a => ((s.apply m d).1.setting a).given)
        = (((s.apply m d).1.logger i).appenders.map (s.apply m d).1.setting).map (·.given) := by
          rw [List.map_map]
          rfl
      _ = d.appenders.map fun a => Pattern.given? s.times a.pattern := by
          rw [hsettings, List.map_map]
          exact List.map_congr_left fun a _ => a.given_setting s.times p

/-- After any orderly operations no logger and no appender goes by a malformed pattern, and an
attached appender that was given no pattern has that of its logger. What pattern an appender was
given is told by the last operation that gave it one; appenders of definitions start with that of the
definition. Malformed patterns are turned down, and then nothing changes. -/
theorem operateAll_patterns (files : Files.Store) (times : TimeFormat)
    {operations : List Operation} (h : State.Orderly { files, times } operations) :
    let s : State := operateAll { files, times } operations
    (∀ i, (s.logger i).pattern.malformed = false) ∧
    (∀ a, (s.setting a).pattern.malformed = false) ∧
    (∀ (i : LoggerId) (a : AppenderId), a ∈ (s.logger i).appenders → (s.setting a).own = false →
      (s.setting a).pattern = (s.logger i).pattern) ∧
    (∀ before after, operations = before ++ after →
      ∀ a < (operateAll { files, times } before).appenders.size,
        (s.setting a).given = (after.filterMap (·.installs a)).getLast?.or
          ((operateAll { files, times } before).setting a).given) ∧
    (∀ (d : AppenderDefinition) (x : Appender), (s.build d).2 = .ok x →
      x.setting.given = Pattern.given? times d.pattern) ∧
    (∀ (m : Nat) (d : Definition), m < s.managers.size →
      (∃ e, (s.apply m d).2 = .error e ∧ (s.apply m d).1.setup = s.setup) ∨
        ∃ i, ((s.apply m d).1.manager m).find? d.name = some i ∧
          ((s.apply m d).1.logger i).appenders.map (fun a => ((s.apply m d).1.setting a).given)
            = d.appenders.map fun a => Pattern.given? times a.pattern) ∧
    (∀ i p, (s.operate (.setPattern i p)).2
      = if p.malformed then .error (.malformedPattern p.source) else .ok ()) ∧
    (∀ a p, a < s.appenders.size → (s.operate (.setAppenderPattern a p)).2
      = if p.malformed then .error (.malformedPattern p.source) else .ok ()) ∧
    (∀ source, (s.operate (.parse source)).2
      = if (Pattern.compile times source).malformed then .error (.malformedPattern source)
        else .ok ()) ∧
    ∀ o source, (s.operate o).2 = .error (.malformedPattern source) →
      (s.operate o).1.setup = s.setup ∧ (s.facade = none → (s.operate o).1 = s) := by
  intro s
  obtain ⟨hsound, hregular, htimes⟩ : s.Sound ∧ s.Regular ∧ s.times = times :=
    operateAll_keeps (Q := fun u => u.Regular ∧ u.times = times) (sound_start files times)
      ⟨regular_start files times, rfl⟩ h fun u o _ hu hfits hexclusive =>
        ⟨hu.1.operate hfits hexclusive, (times_operate u o).trans hu.2⟩
  refine ⟨hregular.logger, hregular.setting, hregular.follows, ?_, ?_, ?_, ?_, ?_, ?_, ?_⟩
  · intro before after hsplit a ha
    -- the appender is there before these operations, so only they can give it another pattern
    have hs : s = (operateAll { files, times } before).operateAll after := by
      rw [← operateAll_append, ← hsplit]
    rw [hs]
    exact given_operateAll ha after
  · intro d x hx
    rw [build_setting hx, d.given_setting, htimes]
  · intro m d hm
    exact htimes ▸ apply_given hsound hm d
  · intro i p
    show (s.setPattern i p).2 = _
    unfold State.setPattern
    split <;> rfl
  · intro a p ha
    show (s.setAppenderPattern a p).2 = _
    unfold State.setAppenderPattern Appender.setPattern
    rw [Array.getElem?_eq_getElem ha]
    by_cases hm : p.malformed <;> simp [hm]
  · intro source
    show (andThen (s.parse source) _).2 = _
    rw [parse_eq, htimes]
    split <;> rfl
  · intro o source herror
    exact ⟨(inert_operate herror).setup, (inert_operate herror).eq⟩

/-- A logger gets a pattern between two attachments, and one of its appenders has been given its
own. -/
def handedOn : List Operation := [
  .addManager, .obtain 0 "web", .addCustom none, .addCustom none,
  .setAppenderPattern 1 (.compile .universal "%m"), .attach 1 1,
  .setPattern 1 (.compile .universal "%p %m"), .attach 1 2, .setPattern 1 (.compile .universal "%"),
  .setAppenderPattern 1 (.compile .universal "%x"),
  .reconcile 0 .empty (.ofList [{ name := "db", appenders := [{ destination := .stdout }] }]),
  .setPattern 1 (.compile .universal "%c")]

theorem operateAll_patterns_handedOn :
    let s : State := operateAll { files := .start [] } handedOn
    (s.setting 1).given = some (.compile .universal "%m") ∧ (s.setting 2).own = false ∧
      (s.setting 2).pattern = (s.logger 1).pattern ∧
      (s.operate (.setPattern 1 (.compile .universal "%"))).2 = .error (.malformedPattern "%") ∧
      (s.operate (.setPattern 1 (.compile .universal "%"))).1 = s := by
  have horderly : State.Orderly { files := .start [] } handedOn := by decide
  obtain ⟨-, -, hfollows, hgiven, -, -, hset, -, -, hinert⟩ :=
    operateAll_patterns (.start []) .universal horderly
  have herror := (hset 1 (.compile .universal "%")).trans (if_pos (by decide))
  refine ⟨?_, by decide, hfollows 1 2 (by decide) (by decide), herror, ?_⟩
  · exact (hgiven (handedOn.take 4) (handedOn.drop 4) rfl 1 (by decide)).trans (by decide)
  · exact (hinert _ _ herror).2 (by decide)

end State

end ConfigLog.Logging
