import ConfigLog.Proofs.Logging.Fanout

set_option autoImplicit false

/-! # Records that come about while records are written

`Runs` tells, without any bound on the depth, what a record or an event brings about when the bridge
of one manager gets all records: the failures of appenders and the files that are opened again are
records themselves, and those are dealt with in turn. There is exactly one way for this to go, and it
comes to an end (`Runs.unique`, `answered_calls`). A record that comes about while another one is
being written is a line on standard error at most (`Emission.Settled`), so nothing is ever deeper
than that, and once the outermost call is over the next one finds the state ready for it.
-/

namespace ConfigLog.Logging

/-- A call from outside that may bring about records. -/
inductive Call where
  /-- Gives a record to the facade. -/
  | record (r : Record)
  /-- Hands an event to a logger. -/
  | log (i : LoggerId) (level : Level) (e : Event)

/-- What there is to do: to deal with a record, or to hand an event to appenders, with the name of the
logger to print. -/
inductive Task where
  | record (r : Record)
  | hand (name : String) (level : Level) (e : Event) (as : List AppenderId)

/-- A record on its way. -/
structure Emission where
  record : Record
  /-- How many records were being written when it came about. -/
  depth : Nat
  /-- The state in which it came about. -/
  before : State
  /-- The state once it had been dealt with. -/
  after : State

namespace State

/-- Does what is called for. -/
def call (s : State) : Call → State
  | .record r => s.emit r
  | .log i level e => s.log i level e

/-- What a call comes to. -/
def task (s : State) : Call → Task
  | .record r => .record r
  | .log i level e => .hand (s.logger i).name level e (s.receivers i level)

/-- Notes a line on standard error for a record. -/
def complain (s : State) (r : Record) : State :=
  { s with complaints := s.complaints ++ [nestedLine r] }

/-- The attempts that an event leads to at a logger, had all sinks taken it. -/
def deliveries (s : State) (i : LoggerId) (level : Level) (e : Event) : List Attempt :=
  ((s.receivers i level).filter (s.isFor level)).map (s.attempt (s.logger i).name level e)

end State

open State

/-- How a task goes while a number of records are being written, with the records that come about on
the way, when the bridge of a manager gets all records. The number is counted only: what is done
depends on the flag of the state. -/
inductive Runs (m : ManagerId) : Nat → Task → State → List Emission → State → Prop
  | unwanted {n : Nat} {r : Record} {s : State}
    (ha : s.bridgeAccepts m r.target r.level = false) : Runs m n (.record r) s [⟨r, n, s, s⟩] s
  | nested {n : Nat} {r : Record} {s : State} (ha : s.bridgeAccepts m r.target r.level = true)
    (hb : s.bridging = true) : Runs m n (.record r) s [⟨r, n, s, s.complain r⟩] (s.complain r)
  | written {n : Nat} {r : Record} {s t : State} {τ : List Emission}
    (ha : s.bridgeAccepts m r.target r.level = true) (hb : s.bridging = false)
    (hrun : Runs m (n + 1) (({ s with bridging := true } : State).task
      (.log (s.route m r.target) r.level.toLevel (r.event s.stamp))) { s with bridging := true } τ t) :
    Runs m n (.record r) s (⟨r, n, s, { t with bridging := false }⟩ :: τ)
      { t with bridging := false }
  | done {n : Nat} {name : String} {level : Level} {e : Event} {s : State} :
    Runs m n (.hand name level e []) s [] s
  | quiet {n : Nat} {name : String} {level : Level} {e : Event} {a : AppenderId}
    {as : List AppenderId} {s t u : State} {τ : List Emission}
    (ha : handOnce name level e s a = (t, none)) (hrun : Runs m n (.hand name level e as) t τ u) :
    Runs m n (.hand name level e (a :: as)) s τ u
  | reported {n : Nat} {name : String} {level : Level} {e : Event} {a : AppenderId}
    {as : List AppenderId} {s t u v : State} {r : Record} {σ τ : List Emission}
    (ha : handOnce name level e s a = (t, some r)) (hr : Runs m n (.record r) t σ u)
    (hrun : Runs m n (.hand name level e as) u τ v) :
    Runs m n (.hand name level e (a :: as)) s (σ ++ τ) v

variable {m : ManagerId} {n : Nat} {k : Task} {s t u : State} {σ τ : List Emission} {r : Record}
  {name : String} {level : Level} {e : Event}

/-- There is one way only for a task to go. -/
theorem Runs.unique (h : Runs m n k s τ t) (h' : Runs m n k s σ u) : σ = τ ∧ u = t := by
  induction h generalizing σ u with
  | unwanted ha =>
      cases h' with
      | unwanted => exact ⟨rfl, rfl⟩
      | nested ha' | written ha' => exact nomatch ha.symm.trans ha'
  | nested ha hb =>
      cases h' with
      | unwanted ha' => exact nomatch ha.symm.trans ha'
      | nested => exact ⟨rfl, rfl⟩
      | written _ hb' => exact nomatch hb.symm.trans hb'
  | written ha hb _ ih =>
      cases h' with
      | unwanted ha' => exact nomatch ha.symm.trans ha'
      | nested _ hb' => exact nomatch hb.symm.trans hb'
      | written _ _ hrun' =>
          obtain ⟨rfl, rfl⟩ := ih hrun'
          exact ⟨rfl, rfl⟩
  | done =>
      cases h'
      exact ⟨rfl, rfl⟩
  | quiet ha _ ih =>
      cases h' with
      | quiet ha' hrun' =>
          cases ha.symm.trans ha'
          exact ih hrun'
      | reported ha' => exact nomatch ha.symm.trans ha'
  | reported ha _ _ ihr ih =>
      cases h' with
      | quiet ha' => exact nomatch ha.symm.trans ha'
      | reported ha' hr' hrun' =>
          cases ha.symm.trans ha'
          obtain ⟨rfl, rfl⟩ := ihr hr'
          obtain ⟨rfl, rfl⟩ := ih hrun'
          exact ⟨rfl, rfl⟩

/-! ## Stretches -/

namespace Emission

/-- The bridge takes the record. -/
def accepted (x : Emission) (m : ManagerId) : Bool :=
  x.before.bridgeAccepts m x.record.target x.record.level

/-- The line on standard error for a record that came about while another one was being written. -/
def line? (x : Emission) (m : ManagerId) : Option String :=
  if 0 < x.depth ∧ x.accepted m then some (nestedLine x.record) else none

/-- How a record is dealt with. -/
structure Settled (x : Emission) (m : ManagerId) : Prop where
  /-- No record comes about deeper than within one that is being written. -/
  depth : x.depth ≤ 1
  /-- The flag tells whether another record is being written. -/
  flag : x.before.bridging = decide (0 < x.depth)
  /-- Whatever came about, the record is dealt with as the facade does it, and the flag is back. -/
  emit : x.after = x.before.emit x.record
  back : x.after.bridging = x.before.bridging
  setup : x.after.setup = x.before.setup
  refused : x.accepted m = false → x.after = x.before
  /-- Within another one a record is a line on standard error and nothing else. -/
  nested : 0 < x.depth → x.accepted m = true →
    x.after = { x.before with complaints := x.before.complaints ++ [nestedLine x.record] }
  /-- Otherwise it is offered to all appenders that its logger has for it, and to these only. -/
  delivered : x.depth = 0 → ∃ new, x.after.attempts = x.before.attempts ++ new ∧
    new.map Attempt.offer = x.before.deliveries (x.before.route m x.record.target)
      x.record.level.toLevel (x.record.event x.before.stamp)

end Emission

/-- What becomes of a state over a stretch of its records, while a number of records are being
written. -/
structure Stretch (m : ManagerId) (n : Nat) (s : State) (τ : List Emission) (t : State) : Prop where
  settled : ∀ x ∈ τ, n ≤ x.depth ∧ x.Settled m
  setup : t.setup = s.setup
  bridging : t.bridging = s.bridging
  complaints : t.complaints = s.complaints ++ τ.filterMap (·.line? m)

theorem stretch_nil (m : ManagerId) (n : Nat) (s : State) : Stretch m n s [] s where
  settled _ hx := absurd hx List.not_mem_nil
  setup := rfl
  bridging := rfl
  complaints := (List.append_nil _).symm

theorem Stretch.append (h : Stretch m n s σ t) (h' : Stretch m n t τ u) :
    Stretch m n s (σ ++ τ) u where
  settled x hx := (List.mem_append.1 hx).elim (h.settled x) (h'.settled x)
  setup := h'.setup.trans h.setup
  bridging := h'.bridging.trans h.bridging
  complaints := by rw [h'.complaints, h.complaints, List.filterMap_append, List.append_assoc]

theorem State.HandedOnce.stretch {a : AppenderId} (h : HandedOnce name level e s a t) :
    Stretch m n s [] t where
  settled _ hx := absurd hx List.not_mem_nil
  setup := h.setup
  bridging := h.bridging
  complaints := h.complaints.trans (List.append_nil _).symm

/-- Handing an event to appenders is a stretch if dealing with their records is. -/
theorem runs_foldl {report : Report} {b : Bool}
    (hreport : ∀ (r : Record) (s : State), s.facade = some m → s.bridging = b →
      ∃ τ, Runs m n (.record r) s τ (report r s) ∧ Stretch m n s τ (report r s))
    (hm : s.facade = some m) (hb : s.bridging = b) (name : String) (level : Level) (e : Event)
    (as : List AppenderId) :
    ∃ τ, Runs m n (.hand name level e as) s τ (as.foldl (handOne report name level e) s) ∧
      Stretch m n s τ (as.foldl (handOne report name level e) s) := by
  induction as generalizing s with
  | nil => exact ⟨[], .done, stretch_nil m n s⟩
  | cons a as ih =>
      have honce := handedOnce name level e s a
      rw [List.foldl_cons, handOne_eq_handOnce]
      generalize ha : handOnce name level e s a = result at *
      obtain ⟨t, r⟩ := result
      have hmt : t.facade = some m := (facade_congr honce.setup).trans hm
      have hbt : t.bridging = b := honce.bridging.trans hb
      cases r with
      | none =>
          obtain ⟨τ, hrun, hτ⟩ := ih hmt hbt
          exact ⟨τ, .quiet ha hrun, honce.stretch.append hτ⟩
      | some r =>
          obtain ⟨σ, hr, hσ⟩ := hreport r t hmt hbt
          obtain ⟨τ, hrun, hτ⟩ := ih ((facade_congr hσ.setup).trans hmt) (hσ.bridging.trans hbt)
          exact ⟨σ ++ τ, .reported ha hr hrun, honce.stretch.append (hσ.append hτ)⟩

/-! ## Within a record that is being written -/

namespace State

/-- What becomes of a record that a bridge brings about, with a bound on the depth. -/
def pass (depth : Nat) : Report := fun r s =>
  match s.facade with
  | none => s
  | some m => bridgeWithin depth m r s

theorem pass_of_bridging (hm : s.facade = some m) (hb : s.bridging = true) (depth : Nat)
    (r : Record) :
    pass (depth + 1) r s = if s.bridgeAccepts m r.target r.level then s.complain r else s := by
  simp only [pass, hm]
  exact bridgeWithin_of_bridging hb depth m r

theorem bridgeWithin_of_not_bridging (ha : s.bridgeAccepts m r.target r.level = true)
    (hb : s.bridging = false) (depth : Nat) :
    bridgeWithin (depth + 1) m r s =
      { ({ s with bridging := true } : State).logWith (pass depth) (s.route m r.target)
          r.level.toLevel (r.event s.stamp) with bridging := false } := by
  simp only [bridgeWithin, ha, hb, Bool.not_true, Bool.false_eq_true, if_false]
  rfl

theorem bridgeWithin_of_refused (ha : s.bridgeAccepts m r.target r.level = false) (depth : Nat) :
    bridgeWithin (depth + 1) m r s = s := by
  simp only [bridgeWithin, ha, Bool.not_false, if_true]

theorem emit_of_facade (hm : s.facade = some m) (r : Record) : s.emit r = bridgeWithin 2 m r s := by
  simp only [emit, hm, bridge]

end State

theorem settled_pass (hm : s.facade = some m) (hb : s.bridging = true) (r : Record) :
    Emission.Settled ⟨r, 1, s, pass 1 r s⟩ m := by
  have hpass := pass_of_bridging hm hb 0 r
  constructor
  case depth => exact Nat.le_refl 1
  case flag => exact hb
  case emit => exact hpass.trans (pass_of_bridging hm hb 1 r).symm
  case back =>
    rw [hpass]
    split <;> rfl
  case setup =>
    rw [hpass]
    split <;> rfl
  case refused =>
    intro ha
    exact hpass.trans (if_neg (Bool.not_eq_true _ ▸ ha))
  case nested => exact fun _ ha => hpass.trans (if_pos ha)
  case delivered => exact fun h => nomatch h

theorem runs_pass (hm : s.facade = some m) (hb : s.bridging = true) (r : Record) :
    ∃ τ, Runs m 1 (.record r) s τ (pass 1 r s) ∧ Stretch m 1 s τ (pass 1 r s) := by
  have hsettled := settled_pass hm hb r
  refine ⟨[⟨r, 1, s, pass 1 r s⟩], ?_, fun x hx => ?_, hsettled.setup, hsettled.back, ?_⟩
  · rw [pass_of_bridging hm hb]
    split
    · rename_i ha
      exact .nested ha hb
    · rename_i ha
      exact .unwanted (Bool.not_eq_true _ ▸ ha)
  · obtain rfl := List.mem_singleton.1 hx
    exact ⟨Nat.le_refl 1, hsettled⟩
  · rw [pass_of_bridging hm hb]
    split
    · rename_i ha
      simp [Emission.line?, Emission.accepted, ha, complain]
    · rename_i ha
      simp [Emission.line?, Emission.accepted, ha]

/-- The appenders that an event is handed to attempt to write it, and nobody attempts to write
anything else as long as nothing else is written for their records. -/
theorem attempts_foldl {report : Report} {P : State → Prop}
    (hreport : ∀ (r : Record) (s : State), P s →
      P (report r s) ∧ (report r s).setup = s.setup ∧ (report r s).attempts = s.attempts)
    (honce : ∀ {s t : State} {a : AppenderId}, P s → HandedOnce name level e s a t → P t)
    (hs : P s) (as : List AppenderId) :
    ∃ new, (as.foldl (handOne report name level e) s).attempts = s.attempts ++ new ∧
      new.map Attempt.offer = (as.filter (s.isFor level)).map (s.attempt name level e) := by
  induction as generalizing s with
  | nil => exact ⟨[], (List.append_nil _).symm, rfl⟩
  | cons a as ih =>
      have hhanded := handedOnce name level e s a
      obtain ⟨own, hown, hoffer, -⟩ := hhanded.attempts
      have hkeeps : P (handOne report name level e s a) ∧
          (handOne report name level e s a).setup = s.setup ∧
          (handOne report name level e s a).attempts = s.attempts ++ own := by
        rw [handOne_eq_handOnce]
        generalize handOnce name level e s a = result at *
        obtain ⟨t, r⟩ := result
        have ht : P t := honce hs hhanded
        cases r with
        | none => exact ⟨ht, hhanded.setup, hown⟩
        | some r =>
            obtain ⟨hp, hsetup, hattempts⟩ := hreport r t ht
            exact ⟨hp, hsetup.trans hhanded.setup, hattempts.trans hown⟩
      obtain ⟨hp, hsetup, hattempts⟩ := hkeeps
      obtain ⟨rest, hrest, hoffers⟩ := ih hp
      refine ⟨own ++ rest, ?_, ?_⟩
      · rw [List.foldl_cons, hrest, hattempts, List.append_assoc]
      · rw [List.map_append, hoffer, hoffers, isFor_congr hsetup, attempt_congr hsetup,
          ← List.map_append, ← List.filter_append]
        rfl

/-- While a record is being written, the appenders of its logger attempt to write it and nobody
attempts to write anything else. -/
theorem attempts_foldl_pass (hm : s.facade = some m) (hb : s.bridging = true) (name : String)
    (level : Level) (e : Event) (as : List AppenderId) :
    ∃ new, (as.foldl (handOne (pass 1) name level e) s).attempts = s.attempts ++ new ∧
      new.map Attempt.offer = (as.filter (s.isFor level)).map (s.attempt name level e) := by
  refine attempts_foldl (P := fun s => s.facade = some m ∧ s.bridging = true)
    (fun r s hs => ?_) (fun hs hhanded => ?_) ⟨hm, hb⟩ as
  · have hsettled := settled_pass hs.1 hs.2 r
    have hattempts : (pass 1 r s).attempts = s.attempts := by
      rw [pass_of_bridging hs.1 hs.2]
      split <;> rfl
    exact ⟨⟨(facade_congr hsettled.setup).trans hs.1, hsettled.back.trans hs.2⟩, hsettled.setup,
      hattempts⟩
  · exact ⟨(facade_congr hhanded.setup).trans hs.1, hhanded.bridging.trans hs.2⟩

/-! ## Outside of records that are being written -/

/-- A record that is taken while none is being written. -/
theorem runs_written (hm : s.facade = some m) (hb : s.bridging = false)
    (ha : s.bridgeAccepts m r.target r.level = true) :
    ∃ τ, Runs m 0 (.record r) s (⟨r, 0, s, s.emit r⟩ :: τ) (s.emit r) ∧
      (∀ x ∈ τ, x.depth = 1) ∧ Stretch m 0 s (⟨r, 0, s, s.emit r⟩ :: τ) (s.emit r) := by
  have hemit : s.emit r = { ({ s with bridging := true } : State).logWith (pass 1)
      (s.route m r.target) r.level.toLevel (r.event s.stamp) with bridging := false } :=
    (emit_of_facade hm r).trans (bridgeWithin_of_not_bridging ha hb 1)
  have hm' : ({ s with bridging := true } : State).facade = some m := hm
  obtain ⟨τ, hrun, hτ⟩ := runs_foldl (s := { s with bridging := true }) (n := 1) (b := true)
    (fun r s hm hb => runs_pass hm hb r) hm' rfl (s.logger (s.route m r.target)).name
    r.level.toLevel (r.event s.stamp) (s.receivers (s.route m r.target) r.level.toLevel)
  obtain ⟨new, hnew, hoffers⟩ := attempts_foldl_pass hm' rfl (s.logger (s.route m r.target)).name
    r.level.toLevel (r.event s.stamp) (s.receivers (s.route m r.target) r.level.toLevel)
  have hdepth : ∀ x ∈ τ, x.depth = 1 := fun x hx =>
    Nat.le_antisymm (hτ.settled x hx).2.depth (hτ.settled x hx).1
  have hsettled : Emission.Settled ⟨r, 0, s, s.emit r⟩ m := by
    constructor
    case depth => exact Nat.zero_le 1
    case flag => exact hb
    case emit => rfl
    case back =>
      show (s.emit r).bridging = s.bridging
      rw [hemit, hb]
    case setup => exact setup_emit s r
    case refused => exact fun hrefused => nomatch ha.symm.trans hrefused
    case nested => exact fun h => absurd h (Nat.lt_irrefl 0)
    case delivered =>
      refine fun _ => ⟨new, ?_, hoffers⟩
      show (s.emit r).attempts = _
      rw [hemit]
      exact hnew
  refine ⟨τ, ?_, hdepth, ?_⟩
  · rw [hemit]
    exact .written ha hb hrun
  · refine ⟨fun x hx => ?_, hsettled.setup, hsettled.back, ?_⟩
    · rcases List.mem_cons.1 hx with rfl | hx
      · exact ⟨Nat.zero_le _, hsettled⟩
      · exact ⟨Nat.zero_le _, (hτ.settled x hx).2⟩
    · rw [hemit]
      exact hτ.complaints

theorem runs_emit (hm : s.facade = some m) (hb : s.bridging = false) (r : Record) :
    ∃ τ, Runs m 0 (.record r) s (⟨r, 0, s, s.emit r⟩ :: τ) (s.emit r) ∧
      (∀ x ∈ τ, x.depth = 1) ∧ Stretch m 0 s (⟨r, 0, s, s.emit r⟩ :: τ) (s.emit r) := by
  cases ha : s.bridgeAccepts m r.target r.level with
  | true => exact runs_written hm hb ha
  | false =>
      have hemit : s.emit r = s := (emit_of_facade hm r).trans (bridgeWithin_of_refused ha 1)
      rw [hemit]
      have hnobody : s.receivers (s.route m r.target) r.level.toLevel = [] := by
        have hlogger : (s.logger (s.route m r.target)).accepts r.level.toLevel = false := ha
        simp [receivers, hlogger]
      have hsettled : Emission.Settled ⟨r, 0, s, s⟩ m :=
        { depth := Nat.zero_le 1, flag := hb, emit := hemit.symm, back := rfl, setup := rfl
          refused := fun _ => rfl
          nested := fun h => absurd h (Nat.lt_irrefl 0)
          delivered := fun _ => ⟨[], (List.append_nil _).symm, by simp [deliveries, hnobody]⟩ }
      refine ⟨[], .unwanted ha, fun x hx => absurd hx List.not_mem_nil, fun x hx => ?_, rfl, rfl, ?_⟩
      · obtain rfl := List.mem_singleton.1 hx
        exact ⟨Nat.zero_le _, hsettled⟩
      · simp [Emission.line?]

/-! ## Calls -/

/-- What a call comes to when the bridge of a manager gets all records, with the records that come
about on the way. -/
structure Answered (m : ManagerId) (s : State) (c : Call) (τ : List Emission) : Prop where
  /-- The call comes to an end, and there is one way only for it to go. -/
  only : ∀ σ u, Runs m 0 (s.task c) s σ u ↔ σ = τ ∧ u = s.call c
  settled : ∀ x ∈ τ, x.Settled m
  /-- A record from outside comes first, and the others come about while it is being written. -/
  outermost : ∀ r, c = .record r →
    ∃ rest, τ = ⟨r, 0, s, s.call c⟩ :: rest ∧ ∀ x ∈ rest, x.depth = 1
  /-- There is a line on standard error for each record that came about within another one and
  that the bridge took. -/
  complaints : (s.call c).complaints = s.complaints ++ τ.filterMap (·.line? m)
  setup : (s.call c).setup = s.setup
  /-- No record is being written any more. -/
  ended : (s.call c).bridging = false

theorem answered_call (hm : s.facade = some m) (hb : s.bridging = false) (c : Call) :
    ∃ τ, Answered m s c τ := by
  have hanswer : ∀ τ, Runs m 0 (s.task c) s τ (s.call c) → Stretch m 0 s τ (s.call c) →
      (∀ r, c = .record r → ∃ rest, τ = ⟨r, 0, s, s.call c⟩ :: rest ∧ ∀ x ∈ rest, x.depth = 1) →
      Answered m s c τ := by
    intro τ hrun hτ hfirst
    constructor
    case only =>
      intro σ u
      constructor
      · exact hrun.unique
      · rintro ⟨rfl, rfl⟩
        exact hrun
    case settled => exact fun x hx => (hτ.settled x hx).2
    case outermost => exact hfirst
    case complaints => exact hτ.complaints
    case setup => exact hτ.setup
    case ended => exact hτ.bridging.trans hb
  cases c with
  | record r =>
      obtain ⟨rest, hrun, hdepth, hstretch⟩ := runs_emit hm hb r
      exact ⟨_, hanswer _ hrun hstretch fun r' hr' => by cases hr'; exact ⟨rest, rfl, hdepth⟩⟩
  | log i level e =>
      have hemit : ∀ (r : Record) (s : State), s.facade = some m → s.bridging = false →
          ∃ τ, Runs m 0 (.record r) s τ (s.emit r) ∧ Stretch m 0 s τ (s.emit r) := by
        intro r s hm hb
        obtain ⟨rest, hrun, -, hstretch⟩ := runs_emit hm hb r
        exact ⟨_, hrun, hstretch⟩
      obtain ⟨τ, hrun, hτ⟩ := runs_foldl hemit hm hb (s.logger i).name level e
        (s.receivers i level)
      exact ⟨τ, hanswer τ hrun hτ fun r hr => nomatch hr⟩

/-- When the bridge of a manager gets all records and none is being written, every call comes to an
end and leaves a state in which none is being written, and so does the next one, whatever the loggers
and appenders of the state are. -/
theorem answered_calls (hm : s.facade = some m) (hb : s.bridging = false) (earlier : List Call)
    (c : Call) : ∃ τ, Answered m (earlier.foldl State.call s) c τ := by
  induction earlier generalizing s with
  | nil => exact answered_call hm hb c
  | cons d ds ih =>
      obtain ⟨τ, hd⟩ := answered_call hm hb d
      exact ih ((facade_congr hd.setup).trans hm) hd.ended

/-- A manager that gets the records of the program itself. Its root logger writes to standard output,
to a sink that is out of order, and to a file that is not open. -/
def unreliable : State :=
  let s := ({ files := .start [], facade := some 0 } : State).addManager.1
  let s := (s.addAppender { sink := .custom, broken := some "sink unavailable" }).1
  let s := (s.addAppender { sink := .file "app.log" none }).1
  (s.attach 0 1).attach 0 2

theorem answered_calls_unreliable :
    unreliable.facade = some 0 ∧ unreliable.bridging = false ∧
    ∃ τ, Answered 0 unreliable (.record { level := .info, target := "app", message := "up" }) τ ∧
      τ.filterMap (·.line? 0) = [
        "[ERROR] livelog::logging::logger: logger root: appender failed: "
          ++ "sink write failed: sink unavailable\n",
        "[DEBUG] livelog::logging::appender::file: reopened log file app.log\n"] := by
  obtain ⟨τ, h⟩ := answered_calls (s := unreliable) (m := 0) rfl rfl []
    (.record { level := .info, target := "app", message := "up" })
  have hlines : (unreliable.call
      (.record { level := .info, target := "app", message := "up" })).complaints
      = τ.filterMap (·.line? 0) := h.complaints
  refine ⟨rfl, rfl, τ, h, ?_⟩
  rw [← hlines]
  decide +kernel

end ConfigLog.Logging
