import ConfigLog.Proofs.Config.Run

set_option autoImplicit false

/-! # The law of runs

What the loggers of a fresh manager go by after any run is told by the history of its passes alone:
the last action on a name that did not fail gives the level and the appenders, and the last pattern
that was given under the name is the pattern (`run_law`).
-/

namespace ConfigLog.Config.State

open Logging (Action Definition Pass allDone lastPattern)

variable {m : Nat} {b : Binding} {s t u : State} {ps : List Pass}

/-- In a history that starts with a fresh manager, the last action on a name that did not fail
decides what its logger goes by. -/
theorem History.last_action {l : Logging.State} (hl : l.Sound) (hs : s.logging = l.addManager.1)
    (h : History l.managers.size b s t u ps) {as bs : List Action} {a : Action}
    (hdone : allDone ps = as ++ a :: bs) (hbs : ∀ c ∈ bs, c.name ≠ a.name) :
    u.logging.status? l.managers.size a.name
      = some (a.status l.times (lastPattern l.times a.name (allDone ps) .default)) := by
  have hc := h.course
  rw [hs] at hc
  rw [hc.last_action (Logging.State.intact_addManager hl) hdone hbs,
    Logging.State.status?_addManager, Logging.State.times_addManager]
  -- the root of a fresh manager has the default pattern, and so has a logger that is not there yet
  split <;> rfl

/-- Whatever is stored in the variable of a fresh manager's binding, by setting it or by applying
documents, and whichever files can be opened: the passes over the manager make a history, and in any
history of the run the logger of a name goes by the last action that did not fail, with the last
pattern that was given under the name. Names without such an action are as they are in a fresh
manager. -/
theorem run_law {l : Logging.State} (hl : l.Sound) (hs : s.logging = l.addManager.1)
    (hr : s.Ready l.managers.size) (steps : List Step) :
    ∃ t, s.bind l.managers.size = (t, .ok s.nextBinding) ∧
      (∃ ps, History l.managers.size s.nextBinding s t (t.run s.nextBinding steps) ps) ∧
      ∀ ps, History l.managers.size s.nextBinding s t (t.run s.nextBinding steps) ps →
        (∀ as a bs, allDone ps = as ++ a :: bs → (∀ c ∈ bs, c.name ≠ a.name) →
          (t.run s.nextBinding steps).logging.status? l.managers.size a.name
            = some (a.status l.times (lastPattern l.times a.name (allDone ps) .default))) ∧
        (∀ name, (∀ a ∈ allDone ps, a.name ≠ name) →
          (t.run s.nextBinding steps).logging.status? l.managers.size name
            = l.addManager.1.status? l.managers.size name) ∧
        ∀ name i,
          ((t.run s.nextBinding steps).logging.manager l.managers.size).find? name = some i →
          ((t.run s.nextBinding steps).logging.logger i).appenders.Nodup := by
  obtain ⟨t, ps, hbind, hh⟩ := history_run hr steps
  refine ⟨t, hbind, ⟨ps, hh⟩, fun qs hq => ⟨?_, ?_, ?_⟩⟩
  · intro as a bs hdone hbs
    exact hq.last_action hl hs hdone hbs
  · intro name hname
    have hc := hq.course
    rw [hs] at hc
    rw [hc.status? (Logging.State.intact_addManager hl), Logging.outcome_of_forall_ne hname]
  · exact (hq.course.intact hr.intact).nodup

/-- A state without variables and with one manager. -/
def alone : State := { logging := (Logging.State.addManager { files := .start [] }).1 }

theorem ready_alone : alone.Ready 0 where
  intact := Logging.State.intact_addManager (Logging.State.sound_start _ _)
  subject v hv := by cases hv
  listeners v x hx := by cases hx
  calls c hc := by cases hc

/-- A definition with a pattern. -/
def plain : Definition :=
  { name := "x", level := some .info, pattern := some "%m"
    appenders := [{ destination := .stdout }] }

/-- The passes when the definition is stored and then taken back. -/
def plainPasses : List Pass :=
  [⟨.empty, .ofList [plain], (alone.logging.reconcile 0 .empty (.ofList [plain])).2⟩,
    ⟨.ofList [plain], .ofList [],
      ((alone.logging.reconcile 0 .empty (.ofList [plain])).1.reconcile 0 (.ofList [plain])
        (.ofList [])).2⟩]

theorem run_law_plain :
    ((alone.bind 0).1.run alone.nextBinding
        [.set (.ofList [plain]), .set (.ofList [])]).logging.status? 0 "x"
      = some { level := .off, pattern := .compile .universal "%m", appenders := [] } := by
  obtain ⟨t, hbind, -, hlaw⟩ := run_law (Logging.State.sound_start (.start []) .universal)
    (show alone.logging = _ from rfl) ready_alone [.set (.ofList [plain]), .set (.ofList [])]
  obtain rfl : (alone.bind 0).1 = t := congrArg Prod.fst hbind
  have hh : History 0 alone.nextBinding alone (alone.bind 0).1
      ((alone.bind 0).1.run alone.nextBinding [.set (.ofList [plain]), .set (.ofList [])])
      plainPasses := by
    constructor
    case course =>
      exact .pass (.pass (.start _) .empty (.ofList [plain])) (.ofList [plain]) (.ofList [])
    case chain => exact ⟨rfl, rfl, rfl, rfl, rfl⟩
    case pairs => rfl
  have hdone : allDone plainPasses = [.apply plain] ++ .disable "x" :: [] := by decide
  have hlast := (hlaw plainPasses hh).1 [.apply plain] (.disable "x") [] hdone (by simp)
  exact hlast.trans (by decide)

end ConfigLog.Config.State
