import ConfigLog.Proofs.Logging.Operation
import ConfigLog.Proofs.Logging.Routing

set_option autoImplicit false

/-! # Thresholds that are off

A logger whose threshold is off takes no event, from wherever it comes, and leaves all as it is. An
appender whose threshold is off gets no event by way of a logger, since loggers pass on none at
`off`; so whatever is done to managers, loggers and appenders, it writes nothing (`Silent.operate`).
The one event that it writes is an event at `off` that is handed to the appender itself
(`off_silences`).
-/

namespace ConfigLog.Logging

/-- What may be done: an operation, and handing a record to the bridge of a manager or an event to
an appender itself. -/
inductive Deed where
  | operate (o : Operation)
  | bridge (m : ManagerId) (r : Record)
  | hand (a : AppenderId) (name : String) (level : Level) (e : Event)

namespace State

variable {s t : State} {m : ManagerId} {i j : LoggerId} {a b : AppenderId} {name : String}
  {level : Level} {e : Event} {before : List Attempt}

/-- Does what is to be done. -/
def act (s : State) : Deed → State
  | .operate o => (s.operate o).1
  | .bridge m r => State.bridge m r s
  | .hand a name level e => (s.logTo a name level e).1

/-- Does one thing after the other. -/
def actAll (s : State) (deeds : List Deed) : State := deeds.foldl act s

/-! ## Loggers -/

/-- Events for the one logger go to the appenders of the other one: it is the same logger, or the
fallback of one without appenders. -/
def PassesTo (s : State) (j i : LoggerId) : Prop :=
  j = i ∨ (s.logger j).appenders = [] ∧ (s.logger j).fallback = some i

theorem accepts_of_off {l : Logger} (h : l.level = .off) (level : Level) :
    l.accepts level = false := by
  cases level <;> simp [Logger.accepts, h] <;> decide

theorem receivers_of_off (hi : (s.logger i).level = .off) (hj : s.PassesTo j i) (level : Level) :
    s.receivers j level = [] := by
  rcases hj with rfl | ⟨hnone, hfallback⟩
  · exact receivers_of_refused (accepts_of_off hi level)
  · simp [receivers, hnone, hfallback, accepts_of_off hi level]

theorem log_of_off (hi : (s.logger i).level = .off) (hj : s.PassesTo j i) (level : Level)
    (e : Event) : s.log j level e = s := by
  rw [log, logWith, receivers_of_off hi hj]
  rfl

theorem bridge_of_off (hi : (s.logger i).level = .off) (r : Record)
    (hj : s.PassesTo (s.route m r.target) i) (hb : s.bridging = false ∨ s.route m r.target = i) :
    bridge m r s = s := by
  rcases hb with hb | rfl
  · have hbusy : s.busy.log (s.route m r.target) r.level.toLevel (r.event s.stamp) = s.busy :=
      log_of_off (s := s.busy) hi hj _ _
    rw [bridge_eq_log hb, hbusy]
    exact free_busy hb
  · exact bridgeWithin_of_refused (accepts_of_off hi _) 1

/-! ## Appenders -/

/-- The appender is there, and its threshold is off. -/
def Muted (s : State) (a : AppenderId) : Prop := ∃ x, s.appenders[a]? = some x ∧ x.level = .off

theorem muted_iff : s.Muted a ↔ (s.setting a).level = .off := by
  unfold Muted setting
  cases s.appenders[a]? with
  | none => simp [Appender.setting]
  | some _ => simp [Appender.setting]

instance (s : State) (a : AppenderId) : Decidable (s.Muted a) := decidable_of_iff _ muted_iff.symm

/-- The appender is muted, and has attempted to write nothing since there were some attempts. -/
structure Silent (a : AppenderId) (before : List Attempt) (s : State) : Prop where
  muted : s.Muted a
  spared : ∃ more, s.attempts = before ++ more ∧ ∀ x ∈ more, x.appender ≠ a

theorem Muted.silent (h : s.Muted a) : s.Silent a s.attempts :=
  ⟨h, [], (List.append_nil _).symm, fun _ hx => absurd hx List.not_mem_nil⟩

theorem Muted.congr (h : s.Muted a) (hsetup : t.setup = s.setup) : t.Muted a := by
  rw [muted_iff] at h ⊢
  rwa [setting_congr hsetup]

/-- A muted appender is for no events but those at `off`. -/
theorem Muted.eq_off (h : s.Muted a) (hfor : s.isFor level a = true) : level = .off := by
  obtain ⟨x, hx, hoff⟩ := h
  simp only [isFor, hx, Option.any_some, Appender.accepts, hoff] at hfor
  revert hfor
  cases level <;> decide

namespace Silent

theorem of_eq (hs : s.Silent a before) (happenders : t.appenders = s.appenders)
    (hattempts : t.attempts = s.attempts) : t.Silent a before := by
  obtain ⟨x, hx, hoff⟩ := hs.muted
  exact ⟨⟨x, happenders ▸ hx, hoff⟩, hattempts ▸ hs.spared⟩

/-- Appenders may change as long as the threshold of the muted one stays off. -/
theorem modifyAppender (hs : s.Silent a before) {f : Appender → Appender}
    (hf : ∀ x, s.appenders[b]? = some x → b = a → x.level = .off → (f x).level = .off) :
    (s.modifyAppender b f).Silent a before := by
  refine ⟨?_, hs.spared⟩
  have hmuted := hs.muted
  rw [muted_iff] at hmuted ⊢
  rcases setting_modifyAppender_cases s b f a with h | ⟨x, rfl, hx, h⟩ <;> rw [h]
  · exact hmuted
  · rw [setting_of_getElem? hx] at hmuted
    exact hf x hx rfl hmuted

theorem inherit (hs : s.Silent a before) (b : AppenderId) (p : Pattern) :
    (s.modifyAppender b (·.inherit p)).Silent a before := by
  refine hs.modifyAppender fun x _ _ hoff => ?_
  unfold Appender.inherit
  split <;> exact hoff

theorem addAppender (hs : s.Silent a before) (x : Appender) :
    (s.addAppender x).1.Silent a before := by
  obtain ⟨y, hy, hoff⟩ := hs.muted
  have hlt : a < s.appenders.size := (Array.getElem?_eq_some_iff.1 hy).1
  refine ⟨⟨y, ?_, hoff⟩, hs.spared⟩
  rw [State.addAppender, Array.getElem?_push, if_neg (Nat.ne_of_lt hlt)]
  exact hy

/-! ## Events and records -/

/-- Handing an event to an appender leaves a muted one silent, if that is another one or the event
is not at `off`. -/
theorem handedOnce (hs : s.Silent a before) (h : HandedOnce name level e s b t)
    (hb : b = a → level ≠ .off) : t.Silent a before := by
  obtain ⟨more, hmore, hspared⟩ := hs.spared
  obtain ⟨own, hown, hoffer, -⟩ := h.attempts
  refine ⟨hs.muted.congr h.setup, more ++ own, by rw [hown, hmore, List.append_assoc], ?_⟩
  intro x hx
  rcases List.mem_append.1 hx with hx | hx
  · exact hspared x hx
  · have hmem := List.mem_map_of_mem (f := Attempt.offer) hx
    rw [hoffer] at hmem
    obtain ⟨c, hc, heq⟩ := List.mem_map.1 hmem
    obtain ⟨hcb, hfor⟩ := List.mem_filter.1 hc
    obtain rfl := List.mem_singleton.1 hcb
    rintro rfl
    obtain rfl : c = x.appender := congrArg Attempt.appender heq
    exact hb rfl (hs.muted.eq_off hfor)

variable {report : Report}

theorem handOne (hs : s.Silent a before)
    (hreport : ∀ (r : Record) (u : State), u.Silent a before → (report r u).Silent a before)
    (hlevel : level ≠ .off) (name : String) (e : Event) (b : AppenderId) :
    (handOne report name level e s b).Silent a before := by
  have honce := hs.handedOnce (State.handedOnce name level e s b) fun _ => hlevel
  rw [handOne_eq_handOnce]
  generalize handOnce name level e s b = result at *
  obtain ⟨t, r⟩ := result
  cases r with
  | none => exact honce
  | some r => exact hreport r t honce

theorem logWith (hs : s.Silent a before)
    (hreport : ∀ (r : Record) (u : State), u.Silent a before → (report r u).Silent a before)
    (i : LoggerId) (level : Level) (e : Event) : (s.logWith report i level e).Silent a before := by
  by_cases hlevel : level = .off
  · -- loggers pass on no events at `off`
    have hnobody : s.receivers i level = [] :=
      receivers_of_refused (by simp [Logger.accepts, hlevel])
    rw [State.logWith, hnobody]
    exact hs
  · exact List.foldlRecOn _ _ hs fun u hu b _ => hu.handOne hreport hlevel _ e b

/-- Whatever depth records may go to, none of them reaches a muted appender. -/
theorem bridgeWithin (hs : s.Silent a before) (depth : Nat) (m : ManagerId) (r : Record) :
    (bridgeWithin depth m r s).Silent a before := by
  induction depth generalizing s m r with
  | zero => exact hs
  | succ depth ih =>
      have hpass : ∀ (r : Record) (u : State), u.Silent a before →
          (pass depth r u).Silent a before := by
        intro r u hu
        unfold pass
        split
        · exact hu
        · exact ih hu _ r
      cases ha : s.bridgeAccepts m r.target r.level with
      | false => rwa [bridgeWithin_of_refused ha]
      | true =>
          cases hb : s.bridging with
          | true =>
              rw [bridgeWithin_of_bridging hb, if_pos ha]
              exact hs.of_eq rfl rfl
          | false =>
              have hbusy : ({ s with bridging := true } : State).Silent a before :=
                hs.of_eq rfl rfl
              rw [bridgeWithin_of_not_bridging ha hb]
              exact (hbusy.logWith hpass _ _ _).of_eq rfl rfl

theorem emit (hs : s.Silent a before) (r : Record) : (s.emit r).Silent a before := by
  unfold State.emit
  split
  · exact hs
  · exact hs.bridgeWithin 2 _ r

theorem log (hs : s.Silent a before) (i : LoggerId) (level : Level) (e : Event) :
    (s.log i level e).Silent a before :=
  hs.logWith (fun r _ hu => hu.emit r) i level e

/-! ## Operations -/

theorem modifyLogger (hs : s.Silent a before) (i : LoggerId) (f : Logger → Logger) :
    (s.modifyLogger i f).Silent a before :=
  hs.of_eq rfl rfl

theorem obtain (hs : s.Silent a before) (m : ManagerId) (name : String) :
    (s.obtain m name).1.Silent a before := by
  cases hf : (s.manager m).find? name with
  | some i => rwa [obtain_of_find hf]
  | none =>
      have henrolled : (s.enrol m name).Silent a before := hs.of_eq rfl rfl
      rw [obtain_of_find_none hf]
      exact henrolled.emit _

theorem openSink (hs : s.Silent a before) (d : Destination) :
    (s.openSink d).1.Silent a before := by
  unfold State.openSink
  split
  · exact hs
  · split <;> exact hs.of_eq rfl rfl

theorem newAppender (hs : s.Silent a before) (d : Destination) :
    (s.newAppender d).1.Silent a before := by
  have hopened := hs.openSink d
  unfold State.newAppender
  generalize s.openSink d = result at *
  obtain ⟨t, error | sink⟩ := result
  · exact hopened
  · exact hopened.addAppender _

theorem openAgain (hs : s.Silent a before) (b : AppenderId) (path : String) :
    (s.openAgain b path).1.Silent a before := by
  have hfiles : ∀ files, ({ s with files } : State).Silent a before := fun _ => hs.of_eq rfl rfl
  unfold State.openAgain
  split
  · exact (hfiles _).modifyAppender fun _ _ _ hoff => hoff
  · exact (hfiles _).modifyAppender fun _ _ _ hoff => hoff

theorem reopen (hs : s.Silent a before) (b : AppenderId) : (s.reopen b).1.Silent a before := by
  unfold State.reopen reopenWith
  split
  · rename_i path _ _ _ _ _ _
    have hopened := hs.openAgain b path
    generalize s.openAgain b path = result at *
    obtain ⟨t, error | handle⟩ := result
    · exact hopened
    · exact hopened.emit _
  · exact hs

theorem parse (hs : s.Silent a before) (source : String) : (s.parse source).1.Silent a before := by
  rw [parse_eq]
  split
  · exact hs.emit _
  · exact hs

theorem adoptPattern (hs : s.Silent a before) (i : LoggerId) (p : Pattern) :
    (s.adoptPattern i p).Silent a before :=
  adoptPattern_keeps (hs.modifyLogger i _) fun _ b hu => hu.inherit b p

theorem setPattern (hs : s.Silent a before) (i : LoggerId) (p : Pattern) :
    (s.setPattern i p).1.Silent a before := by
  unfold State.setPattern
  split
  · exact hs.emit _
  · exact hs.adoptPattern i p

theorem setAppenderPattern (hs : s.Silent a before) (b : AppenderId) (p : Pattern) :
    (s.setAppenderPattern b p).1.Silent a before := by
  unfold State.setAppenderPattern
  cases hx : s.appenders[b]? with
  | none => exact hs
  | some x =>
      dsimp only
      unfold Appender.setPattern
      by_cases hm : p.malformed = true
      · rw [if_pos hm]
        exact hs
      · rw [if_neg hm]
        refine hs.modifyAppender fun y hy _ hoff => ?_
        obtain rfl := Option.some.inj (hx.symm.trans hy)
        exact hoff

theorem setBroken (hs : s.Silent a before) (b : AppenderId) (broken : Option String) :
    (s.setBroken b broken).Silent a before :=
  hs.modifyAppender fun _ _ _ hoff => hoff

theorem reconcile (hs : s.Silent a before) (m : ManagerId) (old new : Definitions) :
    (s.reconcile m old new).1.Silent a before := by
  refine reconcile_keeps_of_steps hs (fun _ r hu => hu.emit r) (fun _ d hu => hu.openSink d)
    (fun _ name hu => hu.obtain m name)
    (fun _ i hu => (hu.modifyLogger i _).modifyLogger i _) (fun u i source level xs _ _ hu => ?_)
    old new
  exact install_keeps hu (fun _ f hv => hv.modifyLogger i f) (fun _ b p hv => hv.inherit b p)
    (fun _ x _ hv => hv.addAppender x) _ level

/-- No operation makes a muted appender write, and it stays muted unless its threshold is set. -/
theorem operate (hs : s.Silent a before) {o : Operation}
    (ho : ∀ level, o = .setAppenderLevel a level → level = .off) :
    (s.operate o).1.Silent a before := by
  cases o with
  | meanwhile files stamp => exact hs.of_eq rfl rfl
  | facade facade => exact hs.of_eq rfl rfl
  | addManager => exact (hs.addAppender _).of_eq rfl rfl
  | addLogger name => exact hs.of_eq rfl rfl
  | obtain m name => exact hs.obtain m name
  | newAppender d => exact andThen_fst (hs.newAppender d) fun _ _ => hs.newAppender d
  | addCustom broken => exact hs.addAppender _
  | build d =>
      have hbuilt := build_keeps hs (fun _ r hu => hu.emit r) (fun _ d hu => hu.openSink d) d
      exact andThen_fst hbuilt fun x _ => hbuilt.addAppender x
  | setBroken b broken => exact hs.setBroken b broken
  | reopen b => exact hs.reopen b
  | parse source => exact andThen_fst (hs.parse source) fun _ _ => hs.parse source
  | setLevel i level => exact hs.modifyLogger i _
  | setPattern i p => exact hs.setPattern i p
  | setAppenderLevel b level =>
      refine hs.modifyAppender fun x _ hb _ => ho level ?_
      rw [hb]
  | setAppenderPattern b p => exact hs.setAppenderPattern b p
  | attach i b => exact (hs.inherit b _).modifyLogger i _
  | detach i b => exact hs.modifyLogger i _
  | clearAppenders i => exact hs.modifyLogger i _
  | reconcile m old new => exact hs.reconcile m old new
  | log i level e => exact hs.log i level e
  | emit r => exact hs.emit r

end Silent

/-! ## Events for an appender itself -/

/-- An event that is handed to an appender itself is handed over once, and a file that was opened
for it is reported; whoever handed the event over is told of a failure. -/
theorem hand_cases (report : Report) (s : State) (b : AppenderId) (name : String) (level : Level)
    (e : Event) :
    (s.hand report b name level e).1 = (handOnce name level e s b).1 ∨
      ∃ r, (s.hand report b name level e).1 = report r (handOnce name level e s b).1 := by
  unfold hand handOnce
  cases s.appenders[b]? with
  | none => exact .inl rfl
  | some x =>
      by_cases hx : x.accepts level = true
      · simp only [hx, if_true]
        obtain ⟨t, reason | path⟩ := s.give b x (x.pattern.render s.times name level e)
        · exact .inl rfl
        · cases path with
          | none => exact .inl rfl
          | some path => exact .inr ⟨_, rfl⟩
      · simp [hx]

theorem Silent.logTo (h : (handOnce name level e s b).1.Silent a before) :
    (s.logTo b name level e).1.Silent a before := by
  unfold State.logTo
  rcases hand_cases (fun r s => s.emit r) s b name level e with heq | ⟨r, heq⟩ <;> rw [heq]
  · exact h
  · exact h.emit r

/-! ## Deeds -/

/-- What an appender writes for a deed although its threshold is off. -/
def slip (s : State) (a : AppenderId) : Deed → List Attempt
  | .hand b name .off e => if b = a then [s.attempt name .off e b] else []
  | _ => []

theorem Silent.own (h : t.Silent a before) : ∃ new, t.attempts = before ++ new ∧
    (new.map Attempt.offer).filter (·.appender == a) = [] := by
  obtain ⟨new, hnew, hspared⟩ := h.spared
  refine ⟨new, hnew, List.filter_eq_nil_iff.2 fun x hx => ?_⟩
  obtain ⟨y, hy, rfl⟩ := List.mem_map.1 hx
  simpa [Attempt.offer] using hspared y hy

/-- A muted appender writes for no deed but an event at `off` that is handed to it. -/
theorem attempts_act (hs : s.Muted a) (d : Deed) : ∃ new, (s.act d).attempts = s.attempts ++ new ∧
    (new.map Attempt.offer).filter (·.appender == a) = s.slip a d := by
  cases d with
  | operate o =>
      by_cases ho : ∀ level, o = .setAppenderLevel a level → level = .off
      · exact (hs.silent.operate ho).own
      · -- the threshold is set, which writes nothing
        push Not at ho
        obtain ⟨level, rfl, -⟩ := ho
        exact ⟨[], (List.append_nil _).symm, rfl⟩
  | bridge m r => exact (hs.silent.bridgeWithin 2 m r).own
  | hand b name level e =>
      have honce := handedOnce name level e s b
      by_cases hown : b = a ∧ level = .off
      · obtain ⟨rfl, rfl⟩ := hown
        obtain ⟨own, howns, hoffer, -⟩ := honce.attempts
        have hfor : s.isFor .off b = true := by
          obtain ⟨x, hx, hoff⟩ := hs
          simp only [isFor, hx, Option.any_some, Appender.accepts, hoff]
          decide
        obtain ⟨more, hmore, hspared⟩ := (hs.congr honce.setup).silent.logTo.own
        refine ⟨own ++ more, ?_, ?_⟩
        · show (s.logTo b name .off e).1.attempts = _
          rw [hmore, howns, List.append_assoc]
        · rw [List.map_append, List.filter_append, hspared, hoffer]
          simp [slip, hfor, attempt]
      · have hsilent := hs.silent.handedOnce honce fun hb hoff => hown ⟨hb, hoff⟩
        have hnone : s.slip a (.hand b name level e) = [] := by
          unfold slip
          split
          · rename_i heq
            cases heq
            exact if_neg fun hb => hown ⟨hb, rfl⟩
          · rfl
        rw [hnone]
        exact hsilent.logTo.own

/-- An appender stays muted unless its threshold is set. -/
theorem Muted.act (hs : s.Muted a) {d : Deed}
    (hd : ∀ level, d = .operate (.setAppenderLevel a level) → level = .off) :
    (s.act d).Muted a := by
  cases d with
  | operate o => exact (hs.silent.operate fun level ho => hd level (by rw [ho])).muted
  | bridge m r => exact (hs.silent.bridgeWithin 2 m r).muted
  | hand b name level e =>
      exact (hs.congr (handedOnce name level e s b).setup).silent.logTo.muted

/-! ## Runs -/

/-- The appender is muted whenever one of the deeds is about to be done. -/
def MutedAlong (a : AppenderId) : State → List Deed → Prop
  | _, [] => True
  | s, d :: deeds => s.Muted a ∧ MutedAlong a (s.act d) deeds

/-- What an appender writes for deeds although its threshold is off. -/
def slips (a : AppenderId) : State → List Deed → List Attempt
  | _, [] => []
  | s, d :: deeds => s.slip a d ++ slips a (s.act d) deeds

/-- Once muted, an appender stays so as long as nobody sets its threshold. -/
theorem Muted.along (hs : s.Muted a) {deeds : List Deed}
    (h : ∀ level, .operate (.setAppenderLevel a level) ∈ deeds → level = .off) :
    MutedAlong a s deeds := by
  induction deeds generalizing s with
  | nil => trivial
  | cons d deeds ih =>
      have hnext := hs.act (d := d) fun level hd => h level (hd ▸ List.mem_cons_self)
      exact ⟨hs, ih hnext fun level hlevel => h level (List.mem_cons_of_mem d hlevel)⟩

theorem attempts_actAll {deeds : List Deed} (h : MutedAlong a s deeds) :
    ∃ new, (s.actAll deeds).attempts = s.attempts ++ new ∧
      (new.map Attempt.offer).filter (·.appender == a) = slips a s deeds := by
  induction deeds generalizing s with
  | nil => exact ⟨[], (List.append_nil _).symm, rfl⟩
  | cons d deeds ih =>
      obtain ⟨hmuted, hrest⟩ := h
      obtain ⟨first, hfirst, hslip⟩ := attempts_act hmuted d
      obtain ⟨rest, hlater, hslips⟩ := ih hrest
      refine ⟨first ++ rest, ?_, ?_⟩
      · rw [← List.append_assoc, ← hfirst]
        exact hlater
      · rw [List.map_append, List.filter_append, hslip, hslips]
        rfl

theorem slips_eq_nil {deeds : List Deed}
    (h : ∀ name e, .hand a name .off e ∉ deeds) (s : State) : slips a s deeds = [] := by
  induction deeds generalizing s with
  | nil => rfl
  | cons d deeds ih =>
      have hfirst : s.slip a d = [] := by
        unfold slip
        split
        · rename_i b name e
          refine if_neg fun hb => h name e ?_
          rw [hb]
          exact List.mem_cons_self
        · rfl
      rw [slips, hfirst, ih fun name e hmem => h name e (List.mem_cons_of_mem d hmem)]
      rfl

/-- While the threshold of a logger is off, no event and no record does anything by way of it. While
the threshold of an appender is off, the appender writes nothing in any run, except for the events
at `off` that are handed to the appender itself; it writes each of those. -/
theorem off_silences (s : State) :
    (∀ i, (s.logger i).level = .off → ∀ j, s.PassesTo j i →
      (∀ level e, s.log j level e = s) ∧
      ∀ m (r : Record), s.route m r.target = j → s.bridging = false ∨ j = i →
        bridge m r s = s) ∧
    ∀ a (deeds : List Deed), MutedAlong a s deeds →
      ∃ new, (s.actAll deeds).attempts = s.attempts ++ new ∧
        (new.map Attempt.offer).filter (·.appender == a) = slips a s deeds ∧
        ((∀ name e, .hand a name .off e ∉ deeds) → ∀ x ∈ new, x.appender ≠ a) := by
  refine ⟨fun i hi j hj => ⟨log_of_off hi hj, ?_⟩, fun a deeds hmuted => ?_⟩
  · rintro m r rfl hb
    exact bridge_of_off hi r hj hb
  · obtain ⟨new, hnew, hslips⟩ := attempts_actAll hmuted
    refine ⟨new, hnew, hslips, fun hnone x hx hxa => ?_⟩
    rw [slips_eq_nil hnone, List.filter_eq_nil_iff] at hslips
    exact hslips x.offer (List.mem_map_of_mem hx) (by simpa [Attempt.offer] using hxa)

/-- A root with an appender whose threshold is off, and a logger that is off. -/
def hushed : State :=
  let s := ({ files := .start [] } : State).addManager.1
  ((s.setAppenderLevel 0 .off).obtain 0 "x").1.setLevel 1 .off

theorem off_silences_hushed :
    let e : Event := { message := "m" }
    let r : Record := { level := .error, target := "x", message := "m" }
    let deeds : List Deed := [.operate (.log 0 .fatal e), .bridge 0 r, .hand 0 "y" .fatal e]
    hushed.log 1 .fatal e = hushed ∧ MutedAlong 0 hushed deeds ∧
    ∀ x ∈ (hushed.actAll deeds).attempts, x.appender ≠ 0 := by
  intro e r deeds
  obtain ⟨hloggers, happenders⟩ := off_silences hushed
  obtain ⟨hlog, -⟩ := hloggers 1 (by decide) 1 (.inl rfl)
  have hmuted : hushed.Muted 0 := by decide
  have halong : MutedAlong 0 hushed deeds := hmuted.along (by simp [deeds])
  obtain ⟨new, hnew, -, hnone⟩ := happenders 0 deeds halong
  refine ⟨hlog .fatal e, halong, fun x hx => ?_⟩
  rw [hnew] at hx
  exact hnone (by simp [deeds]) x hx

/-- An appender whose threshold is off writes an event at `off`. -/
theorem not_forall_muted_logTo : ¬ ∀ (s : State) (a : AppenderId) (name : String) (level : Level)
    (e : Event), s.Muted a → (s.logTo a name level e).1.attempts = s.attempts := by
  intro h
  have hlength := congrArg List.length (h hushed 0 "x" .off { message := "m" } (by decide))
  revert hlength
  decide

end State

end ConfigLog.Logging
