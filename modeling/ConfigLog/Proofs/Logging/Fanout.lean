import ConfigLog.Proofs.Logging.Meaning

set_option autoImplicit false

/-! # Handing an event to the appenders of a logger

An event that is handed to a logger goes to the appenders of one logger, its `outlet`, if it goes
anywhere. Each of them that is for the level makes one attempt to write it, in order, whether the
attempts before it have failed or not (`handed_foldl`). So which sinks fail has no part in what is
offered to the others, and nothing about the loggers changes (`log_offers`).
-/

namespace ConfigLog.Logging

/-! ## Sinks and attempts -/

/-- Whether an appender takes a text, as far as that is settled beforehand. A file that is not open
has to be opened first, unless the sink is out of order anyway. -/
def Appender.takes? (a : Appender) : Option Bool :=
  if a.broken.isSome then some false else if a.sink.isOpen then some true else none

/-- The attempt, had the sink taken the text. -/
def Attempt.offer (x : Attempt) : Attempt := { x with taken := true }

/-- The attempts of an appender are told by what it was offered, if it always takes it or never. -/
theorem filter_eq_map_offer {a : AppenderId} {b : Bool} {xs : List Attempt}
    (h : ∀ x ∈ xs, x.appender = a → x.taken = b) :
    xs.filter (·.appender == a)
      = ((xs.map Attempt.offer).filter (·.appender == a)).map ({ · with taken := b }) := by
  induction xs with
  | nil => rfl
  | cons x xs ih =>
      have hrest := ih fun y hy => h y (List.mem_cons_of_mem x hy)
      rw [List.map_cons]
      by_cases hx : x.appender = a
      · have htaken := h x List.mem_cons_self hx
        have hsame : { x.offer with taken := b } = x := by
          rw [Attempt.offer, ← htaken]
        rw [List.filter_cons_of_pos (by simpa using hx),
          List.filter_cons_of_pos (by simpa [Attempt.offer] using hx), List.map_cons, hsame, hrest]
      · rw [List.filter_cons_of_neg (by simpa using hx),
          List.filter_cons_of_neg (by simpa [Attempt.offer] using hx), hrest]

namespace State

variable {s t u : State} {a : AppenderId} {x : Appender} {name : String} {level : Level} {e : Event}

theorem attempt_congr (h : t.setup = s.setup) (name : String) (level : Level) (e : Event) :
    t.attempt name level e = s.attempt name level e := by
  funext a
  rw [attempt, attempt, setting_congr h, times_congr h]

theorem attemptsOf_congr (h : t.setup = s.setup) (name : String) (level : Level) (e : Event)
    (as : List AppenderId) : t.attemptsOf name level e as = s.attemptsOf name level e as := by
  simp only [attemptsOf, setting_congr h, attempt_congr h]

theorem attemptsOf_append (s : State) (name : String) (level : Level) (e : Event)
    (as bs : List AppenderId) :
    s.attemptsOf name level e (as ++ bs)
      = s.attemptsOf name level e as ++ s.attemptsOf name level e bs := by
  rw [attemptsOf, List.filter_append, List.map_append]
  rfl

/-! ## One appender -/

/-- Hands an event to an appender and leaves it to others to report what came of it. -/
def handOnce (name : String) (level : Level) (e : Event) (s : State) (a : AppenderId) :
    State × Option Record :=
  match s.appenders[a]? with
  | none => (s, none)
  | some x =>
    if x.accepts level then
      let given := s.give a x (x.pattern.render s.times name level e)
      (given.1.note {
          appender := a, text := x.pattern.render s.times name level e, timed := x.pattern.isTimed
          taken := given.2.isOk },
        match given.2 with
        | .error reason => some (failedRecord name (.sinkFailed reason))
        | .ok path => path.map reopenedRecord)
    else (s, none)

/-- An appender is there and takes events of a level. -/
def isFor (s : State) (level : Level) (a : AppenderId) : Bool :=
  (s.appenders[a]?).any (·.accepts level)

theorem isFor_congr (h : t.setup = s.setup) (level : Level) : t.isFor level = s.isFor level := by
  have hsetting : ∀ (s : State) (a : AppenderId), s.isFor level a
      = ((s.appenders.map (·.setting))[a]?).any fun x => x.level ≤ level := by
    intro s a
    rw [isFor, Array.getElem?_map]
    cases s.appenders[a]? <;> rfl
  funext a
  rw [hsetting, hsetting, settings_congr h]

/-- Handing an event to an appender is handing it over once, and reporting what there is to report. -/
theorem handOne_eq_handOnce (report : Report) (name : String) (level : Level) (e : Event)
    (s : State) (a : AppenderId) :
    handOne report name level e s a =
      match handOnce name level e s a with
      | (t, none) => t
      | (t, some r) => report r t := by
  unfold handOne hand handOnce
  cases s.appenders[a]? with
  | none => rfl
  | some x =>
      by_cases hx : x.accepts level = true
      · simp only [hx, if_true]
        -- whether the sink took the text, and whether a file was opened for it
        obtain ⟨t, reason | path⟩ := s.give a x (x.pattern.render s.times name level e)
        · rfl
        · cases path <;> rfl
      · simp only [hx, Bool.false_eq_true, if_false]

/-- Giving a text to a sink is between the appenders and the files. -/
theorem give_fst (s : State) (a : AppenderId) (x : Appender) (text : String) :
    ∃ files appenders, (s.give a x text).1 = { s with files, appenders } := by
  have hopen : ∀ path, ∃ files appenders, (s.openAgain a path).1 = { s with files, appenders } := by
    intro path
    unfold openAgain
    split <;> exact ⟨_, _, rfl⟩
  unfold give
  split
  · rename_i path _
    obtain ⟨files, appenders, h⟩ := hopen path
    generalize s.openAgain a path = opened at h
    obtain ⟨t, error | handle⟩ := opened
    · exact ⟨files, appenders, h⟩
    · obtain rfl : t = { s with files, appenders } := h
      obtain ⟨files, hput⟩ := put_eq { s with files, appenders } x.broken (some handle) text
      exact ⟨files, appenders, congrArg Prod.fst hput⟩
  · obtain ⟨files, hput⟩ := s.put_eq x.broken x.sink.handle? text
    exact ⟨files, s.appenders, congrArg Prod.fst hput⟩

theorem takes?_of_isOpen (h : x.sink.isOpen) : x.takes? = some x.broken.isNone := by
  unfold Appender.takes?
  rw [h]
  cases x.broken <;> rfl

theorem broken_of_takes? (hx : x.sink.isOpen = false) {b : Bool} (hb : x.takes? = some b) :
    b = false ∧ ∃ reason, x.broken = some reason := by
  unfold Appender.takes? at hb
  rw [hx] at hb
  cases hbroken : x.broken with
  | none => simp [hbroken] at hb
  | some reason => exact ⟨by simpa [hbroken] using hb.symm, reason, rfl⟩

/-- What is settled of appenders stays so while a file is opened again that is not open. -/
theorem takes?_openAgain (hx : s.appenders[a]? = some x) (hopen : x.sink.isOpen = false)
    (path : String) {c : AppenderId} {y : Appender} {b : Bool} (hy : s.appenders[c]? = some y)
    (hb : y.takes? = some b) :
    ∃ z, (s.openAgain a path).1.appenders[c]? = some z ∧ z.takes? = some b := by
  have hsink : ∀ sink : Sink, ∃ z,
      (s.appenders.modify a ({ · with sink }))[c]? = some z ∧ z.takes? = some b := by
    intro sink
    by_cases hc : a = c
    · -- the appender is out of order, and stays so
      subst hc
      obtain rfl := Option.some.inj (hx.symm.trans hy)
      obtain ⟨rfl, reason, hreason⟩ := broken_of_takes? hopen hb
      exact ⟨{ x with sink }, by simp [Array.getElem?_modify, hx],
        by simp [Appender.takes?, hreason]⟩
    · exact ⟨y, by simp [Array.getElem?_modify, hc, hy], hb⟩
  unfold openAgain
  split <;> exact hsink _

/-- A text is taken if that is settled, and whatever is settled of appenders stays so. -/
theorem give_settled (hx : s.appenders[a]? = some x) (text : String) :
    (∀ b, x.takes? = some b → (s.give a x text).2.isOk = b) ∧
      ∀ (c : AppenderId) (y : Appender) (b : Bool), s.appenders[c]? = some y →
        y.takes? = some b → ∃ z, (s.give a x text).1.appenders[c]? = some z ∧ z.takes? = some b := by
  cases hopen : x.sink.isOpen with
  | true =>
      obtain ⟨files, hput⟩ := s.put_eq x.broken x.sink.handle? text
      rw [give_of_open hopen, hput, takes?_of_isOpen hopen]
      refine ⟨fun b hb => ?_, fun c y b hy hb => ⟨y, hy, hb⟩⟩
      rw [← Option.some.inj hb]
      cases x.broken <;> rfl
  | false =>
      -- only a sink that is out of order is settled here, since the file may fail to open
      have hkept := fun path c y b => takes?_openAgain (c := c) (y := y) (b := b) hx hopen path
      have hturned : ∀ b, x.takes? = some b → b = false ∧ ∃ reason, x.broken = some reason :=
        fun b => broken_of_takes? hopen
      unfold give
      split
      · rename_i path _
        replace hkept := hkept path
        generalize s.openAgain a path = opened at hkept ⊢
        obtain ⟨t, error | handle⟩ := opened
        · exact ⟨fun b hb => (hturned b hb).1.symm, hkept⟩
        · obtain ⟨files, hput⟩ := t.put_eq x.broken (some handle) text
          simp only [hput]
          refine ⟨fun b hb => ?_, hkept⟩
          obtain ⟨rfl, reason, hreason⟩ := hturned b hb
          rw [hreason]
          rfl
      · rename_i hnone
        unfold Sink.isOpen at hopen
        split at hopen
        · rename_i path handle hsink
          obtain rfl : handle = none := by simpa using hopen
          exact absurd hsink (hnone path)
        · cases hopen

/-- What handing an event to one appender does before anything is reported. -/
structure HandedOnce (name : String) (level : Level) (e : Event) (s : State) (a : AppenderId)
    (t : State) : Prop where
  setup : t.setup = s.setup
  bridging : t.bridging = s.bridging
  complaints : t.complaints = s.complaints
  /-- There is one attempt if the event is for the appender. It succeeds as far as that is settled. -/
  attempts : ∃ new, t.attempts = s.attempts ++ new ∧
    new.map Attempt.offer = ([a].filter (s.isFor level)).map (s.attempt name level e) ∧
    ∀ x ∈ new, ∀ (y : Appender) (b : Bool), s.appenders[x.appender]? = some y →
      y.takes? = some b → x.taken = b
  kept : ∀ (c : AppenderId) (y : Appender) (b : Bool), s.appenders[c]? = some y →
    y.takes? = some b → ∃ z, t.appenders[c]? = some z ∧ z.takes? = some b

theorem HandedOnce.refl (h : s.isFor level a = false) : HandedOnce name level e s a s where
  setup := rfl
  bridging := rfl
  complaints := rfl
  attempts := ⟨[], (List.append_nil _).symm, by simp [h], fun x hx => absurd hx List.not_mem_nil⟩
  kept _ y _ hy hb := ⟨y, hy, hb⟩

theorem handedOnce (name : String) (level : Level) (e : Event) (s : State) (a : AppenderId) :
    HandedOnce name level e s a (handOnce name level e s a).1 := by
  unfold handOnce
  cases hx : s.appenders[a]? with
  | none => exact .refl (by simp [isFor, hx])
  | some x =>
      by_cases hl : x.accepts level = true
      · have hset := setting_of_getElem? hx
        have hsetup := (writes_give hx (x.pattern.render s.times name level e)).setup
        obtain ⟨htaken, hkept⟩ := give_settled hx (x.pattern.render s.times name level e)
        obtain ⟨files, appenders, hgive⟩ := s.give_fst a x (x.pattern.render s.times name level e)
        simp only [hl, if_true]
        generalize s.give a x (x.pattern.render s.times name level e) = given at *
        obtain ⟨t, result⟩ := given
        obtain rfl : t = { s with files, appenders } := hgive
        refine ⟨hsetup, rfl, rfl, ⟨[_], rfl, ?_, fun y hy z b hz hb => ?_⟩, hkept⟩
        · simp [isFor, hx, hl, Attempt.offer, attempt, hset, Appender.setting]
        · rw [List.mem_singleton.1 hy] at hz ⊢
          rw [← Option.some.inj (hx.symm.trans hz)] at hb
          exact htaken b hb
      · simp only [hl, Bool.false_eq_true, if_false]
        exact .refl (by simp [isFor, hx, hl])

/-- Without a facade there is nobody to report to. -/
theorem handOne_of_facade_eq_none (hf : s.facade = none) (name : String) (level : Level) (e : Event)
    (a : AppenderId) :
    handOne (fun r s => s.emit r) name level e s a = (handOnce name level e s a).1 := by
  have hsetup := (handedOnce name level e s a).setup
  rw [handOne_eq_handOnce]
  generalize handOnce name level e s a = result at *
  obtain ⟨t, r⟩ := result
  cases r with
  | none => rfl
  | some r => exact emit_of_facade_eq_none ((facade_congr hsetup).trans hf) r

/-! ## Lists of appenders -/

/-- What handing an event to appenders comes to: the setup stays, each of them that is for the level
attempts to write, in order, and sinks of which it is settled stay so and do what they must. -/
structure Handed (name : String) (level : Level) (e : Event) (as : List AppenderId) (s : State)
    (new : List Attempt) (t : State) : Prop where
  setup : t.setup = s.setup
  attempts : t.attempts = s.attempts ++ new
  offers : new.map Attempt.offer = s.attemptsOf name level e as
  settled : ∀ x ∈ new, ∀ (y : Appender) (b : Bool), s.appenders[x.appender]? = some y →
    y.takes? = some b → x.taken = b
  kept : ∀ (c : AppenderId) (y : Appender) (b : Bool), s.appenders[c]? = some y →
    y.takes? = some b → ∃ z, t.appenders[c]? = some z ∧ z.takes? = some b

theorem handed_nil (s : State) : Handed name level e [] s [] s where
  setup := rfl
  attempts := (List.append_nil _).symm
  offers := rfl
  settled _ hx := absurd hx List.not_mem_nil
  kept _ y _ hy hb := ⟨y, hy, hb⟩

theorem Handed.append {as bs : List AppenderId} {new more : List Attempt}
    (h : Handed name level e as s new t) (h' : Handed name level e bs t more u) :
    Handed name level e (as ++ bs) s (new ++ more) u where
  setup := h'.setup.trans h.setup
  attempts := by rw [h'.attempts, h.attempts, List.append_assoc]
  offers := by
    rw [List.map_append, h.offers, h'.offers, attemptsOf_congr h.setup, attemptsOf_append]
  settled x hx y b hy hb := by
    rcases List.mem_append.1 hx with hx | hx
    · exact h.settled x hx y b hy hb
    · obtain ⟨z, hz, hzb⟩ := h.kept _ y b hy hb
      exact h'.settled x hx z b hz hzb
  kept c y b hy hb := by
    obtain ⟨z, hz, hzb⟩ := h.kept c y b hy hb
    exact h'.kept c z b hz hzb

theorem handed_one (hf : s.facade = none) (ha : a < s.appenders.size) :
    ∃ new, Handed name level e [a] s new (handOne (fun r s => s.emit r) name level e s a) := by
  have hfor : s.isFor level a = decide ((s.setting a).level ≤ level) := by
    have hx := Array.getElem?_eq_getElem ha
    rw [isFor, hx, setting_of_getElem? hx]
    rfl
  have honce := handedOnce name level e s a
  obtain ⟨new, hnew, hoffers, htaken⟩ := honce.attempts
  rw [handOne_of_facade_eq_none hf]
  refine ⟨new, honce.setup, hnew, ?_, htaken, honce.kept⟩
  rw [hoffers, attemptsOf, List.filter_singleton, List.filter_singleton, hfor]

theorem handed_foldl {as : List AppenderId} (hf : s.facade = none)
    (has : ∀ a ∈ as, a < s.appenders.size) :
    ∃ new, Handed name level e as s new
      (as.foldl (handOne (fun r s => s.emit r) name level e) s) := by
  induction as generalizing s with
  | nil => exact ⟨[], handed_nil s⟩
  | cons a as ih =>
      obtain ⟨first, hfirst⟩ : ∃ new, Handed name level e [a] s new
          (handOne (fun r s => s.emit r) name level e s a) := handed_one hf (has a List.mem_cons_self)
      have hrest : ∀ b ∈ as,
          b < (handOne (fun r s => s.emit r) name level e s a).appenders.size := by
        intro b hb
        rw [size_appenders_congr hfirst.setup]
        exact has b (List.mem_cons_of_mem a hb)
      obtain ⟨more, hmore⟩ := ih ((facade_congr hfirst.setup).trans hf) hrest
      exact ⟨first ++ more, hfirst.append hmore⟩

/-! ## Loggers -/

/-- The logger whose appenders an event is handed to: none for an event below the threshold or at
`off`, else the logger that was called, or its fallback if that one has no appenders and the event
reaches the threshold of the fallback as well. -/
def outlet (s : State) (i : LoggerId) (level : Level) : Option LoggerId :=
  if level = .off ∨ ¬ (s.logger i).level ≤ level then none
  else if (s.logger i).appenders ≠ [] then some i
  else (s.logger i).fallback.filter fun r => (s.logger r).level ≤ level

theorem receivers_eq (s : State) (i : LoggerId) (level : Level) :
    s.receivers i level = (s.outlet i level).elim [] fun r => (s.logger r).appenders := by
  unfold receivers outlet
  by_cases hoff : level = .off
  · simp [Logger.accepts, hoff]
  · by_cases hl : (s.logger i).level ≤ level
    · cases happ : (s.logger i).appenders with
      | cons a as => simp [Logger.accepts, hoff, hl, happ]
      | nil =>
          cases hfallback : (s.logger i).fallback with
          | none => simp [Logger.accepts, hoff, hl, happ, hfallback]
          | some r =>
              by_cases hr : (s.logger r).level ≤ level <;>
                simp [Logger.accepts, hoff, hl, hr, happ, hfallback, Option.filter]
    · simp [Logger.accepts, hl]

/-- The attempts that an event leads to at a logger, had all sinks taken it. The text bears the name
of the logger that was called, also when its fallback writes it. -/
def offered (s : State) (i : LoggerId) (level : Level) (e : Event) : List Attempt :=
  (s.outlet i level).elim [] fun r =>
    s.attemptsOf (s.logger i).name level e (s.logger r).appenders

theorem outlet_congr (h : t.setup = s.setup) (i : LoggerId) (level : Level) :
    t.outlet i level = s.outlet i level := by
  simp only [outlet, logger_congr h]

theorem offered_congr (h : t.setup = s.setup) (i : LoggerId) (level : Level) (e : Event) :
    t.offered i level e = s.offered i level e := by
  simp only [offered, outlet_congr h, logger_congr h, attemptsOf_congr h]

theorem handed_log (hs : s.Sound) (hf : s.facade = none) (i : LoggerId) (level : Level)
    (e : Event) :
    ∃ new, Handed (s.logger i).name level e (s.receivers i level) s new (s.log i level e) := by
  refine handed_foldl hf fun a ha => ?_
  rw [receivers_eq] at ha
  cases hr : s.outlet i level with
  | none =>
      rw [hr] at ha
      cases ha
  | some r =>
      rw [hr] at ha
      exact hs.appender_lt r a ha

/-- An event that is handed to a logger is offered to the appenders of its outlet, to those that are
for its level, one after the other and once for each attachment, and nothing else is written; the
sinks of which it is settled do what they must. No logger and no setting of an appender changes, and
where the event has no outlet nothing changes at all. In a state that differs in its sinks and its
files only, the same is offered to everyone, and an appender that takes texts in both states or in
none of them makes the very same attempts. -/
theorem log_offers (h : s.Reached) (hf : s.facade = none) (i : LoggerId) (level : Level)
    (e : Event) :
    (s.log i level e).setup = s.setup ∧
    (s.outlet i level = none → s.log i level e = s) ∧
    (∀ k name, (s.manager k).find? name = some i → (s.logger i).name = name ∧
      (s.logger i).fallback = if name = rootName then none else some (s.manager k).root) ∧
    ∃ new, (s.log i level e).attempts = s.attempts ++ new ∧
      new.map Attempt.offer = s.offered i level e ∧
      (∀ x ∈ new, ∀ (y : Appender) (b : Bool), s.appenders[x.appender]? = some y →
        y.takes? = some b → x.taken = b) ∧
      ∀ u : State, u.setup = s.setup →
        ∃ other, (u.log i level e).attempts = u.attempts ++ other ∧
          other.map Attempt.offer = new.map Attempt.offer ∧
          ∀ (a : AppenderId) (x y : Appender) (b : Bool),
            s.appenders[a]? = some x → u.appenders[a]? = some y →
            x.takes? = some b → y.takes? = some b →
            other.filter (·.appender == a) = new.filter (·.appender == a) := by
  have hs := sound_of_reached h
  have hoffered : ∀ {v : State} {new : List Attempt},
      new.map Attempt.offer = v.attemptsOf (v.logger i).name level e (v.receivers i level) →
      new.map Attempt.offer = v.offered i level e := by
    intro v new hnew
    rw [hnew, receivers_eq, offered]
    cases v.outlet i level <;> rfl
  obtain ⟨new, hnew⟩ := handed_log hs hf i level e
  refine ⟨hnew.setup, fun hnone => ?_, fun k name hk => ⟨hs.name hk, hs.fallback hk⟩, new,
    hnew.attempts, hoffered hnew.offers, hnew.settled, fun u hu => ?_⟩
  · rw [State.log, logWith, receivers_eq, hnone]
    rfl
  · obtain ⟨other, hother⟩ := handed_log (hs.congr hu) ((facade_congr hu).trans hf) i level e
    have hsame : other.map Attempt.offer = new.map Attempt.offer := by
      rw [hoffered hother.offers, hoffered hnew.offers, offered_congr hu]
    refine ⟨other, hother.attempts, hsame, fun a x y b hx hy hxb hyb => ?_⟩
    have hothers : ∀ z ∈ other, z.appender = a → z.taken = b := by
      rintro z hz rfl
      exact hother.settled z hz y b hy hyb
    have hnews : ∀ z ∈ new, z.appender = a → z.taken = b := by
      rintro z hz rfl
      exact hnew.settled z hz x b hx hxb
    rw [filter_eq_map_offer hothers, filter_eq_map_offer hnews, hsame]

/-- A manager with a logger on three sinks: the first is out of order, and the last is for errors
only. -/
def wired : State :=
  let s := (({ files := .start [] } : State).addManager.1.obtain 0 "web").1
  let s := (s.setPattern 1 (.compile .universal "%c: %m")).1
  let s := (s.addAppender { sink := .stdout, broken := some "Broken pipe (os error 32)" }).1
  let s := (s.addAppender { sink := .custom }).1
  let s := (s.addAppender { sink := .custom, level := .error }).1
  ((s.attach 1 1).attach 1 2).attach 1 3

theorem reached_wired : wired.Reached := by
  have hlogger :=
    (Reached.addManager (.start (.start []) .universal)).obtain (m := 0) (by decide) "web"
  have hnamed := hlogger.setPattern 1 (.compile .universal "%c: %m")
  have hsinks := ((hnamed.addAppender
    { sink := .stdout, broken := some "Broken pipe (os error 32)" }).addAppender
    { sink := .custom }).addAppender { sink := .custom, level := .error }
  exact ((hsinks.attach 1 (a := 1) (by decide)).attach 1 (a := 2) (by decide)).attach 1 (a := 3)
    (by decide)

theorem log_offers_wired :
    let e : Event := { message := "up" }
    (wired.log 1 .info e).setup = wired.setup ∧
    ∃ new, (wired.log 1 .info e).attempts = new ∧
      new.map Attempt.offer = [
        { appender := 1, text := "web: up", timed := false, taken := true },
        { appender := 2, text := "web: up", timed := false, taken := true }] ∧
      (∀ x ∈ new, x.appender = 1 → x.taken = false) ∧
      ∃ other, ((wired.setBroken 1 none).log 1 .info e).attempts = other ∧
        other.filter (·.appender == 2) = new.filter (·.appender == 2) := by
  intro e
  obtain ⟨hsetup, -, -, new, hnew, hoffers, htaken, hothers⟩ :=
    log_offers reached_wired rfl 1 .info e
  obtain ⟨other, hother, -, hsame⟩ := hothers (wired.setBroken 1 none) (setup_setBroken _ _ _)
  have hoffered : wired.offered 1 .info e = [
      { appender := 1, text := "web: up", timed := false, taken := true },
      { appender := 2, text := "web: up", timed := false, taken := true }] := by decide
  refine ⟨hsetup, new, hnew, hoffers.trans hoffered, fun x hx h => ?_, other, hother, ?_⟩
  · refine htaken x hx {
      sink := .stdout, pattern := .compile .universal "%c: %m"
      broken := some "Broken pipe (os error 32)" } false ?_ rfl
    rw [h]
    decide
  · exact hsame 2 { sink := .custom, pattern := .compile .universal "%c: %m" }
      { sink := .custom, pattern := .compile .universal "%c: %m" } true (by decide) (by decide)
      rfl rfl

end State

end ConfigLog.Logging
