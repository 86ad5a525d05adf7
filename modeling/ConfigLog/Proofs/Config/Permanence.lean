import ConfigLog.Config.Binding
import ConfigLog.Proofs.Config.Session
import ConfigLog.Proofs.Logging.Permanence
import Mathlib.Data.List.Chain

set_option autoImplicit false

/-! # Loggers for the life of a program

An act is anything that is done from outside to loggers, to variables, or to the ties between them.
Whatever the acts, in every moment the managers are in order, what a name has led to it goes on
leading to, and a name comes by its logger in one of the ways of `Origin` only
(`loggers_permanent`). Looking for a logger and exporting definitions read a moment and change
nothing, so they may take place at any of them.
-/

namespace ConfigLog.Config

open Logging (ManagerId rootName)

/-! ## Acts -/

/-- What is done from outside. -/
inductive Act where
  /-- To managers, loggers and appenders. -/
  | logging (o : Logging.Operation)
  /-- To variables, whose listeners may lead loggers to new definitions. -/
  | config (o : Operation)
  /-- A manager is tied to the variable of the definitions. -/
  | bind (m : ManagerId)
  | unbind (b : Binding)
  /-- A listener is called apart from any change. -/
  | call (v : VariableId) (i : ListenerId) (old new : Value)

namespace State

/-- Carries out one act. -/
def enact (s : State) : Act → State
  | .logging o => { s with logging := (s.logging.operate o).1 }
  | .config o => s.operate o
  | .bind m => (s.bind m).1
  | .unbind b => (s.unbind b).1
  | .call v i old new => (s.callListener v i old new).1

/-- The moments of tying a manager: the variable is there, the loggers have been led to its value,
and the listener has been added. -/
def bindMoments (s : State) (m : ManagerId) : List State :=
  match s.obtain definitionsName .definitions (.definitions .empty) "logger definitions" with
  | (t, .error _) => [t]
  | (t, .ok v) => [t, t.reconcileAll v m, (s.bind m).1]

/-- The moments of calling a listener. -/
def callListenerMoments (s : State) (v : VariableId) (i : ListenerId) (old new : Value) :
    List State :=
  match s.listener? v i with
  | none => []
  | some l => callMoments assign assignMoments v old new s (i, l)

/-- The moments of one act. -/
def actMoments (s : State) : Act → List State
  | .config o => s.operationMoments o
  | .bind m => s.bindMoments m
  | .call v i old new => s.callListenerMoments v i old new
  | a => [s.enact a]

/-- Carries out one act after the other. -/
def enactAll (s : State) (acts : List Act) : State := acts.foldl enact s

/-- The moments of acts. -/
def allMoments (s : State) (acts : List Act) : List State := foldMoments enact actMoments s acts

/-- An act is about managers, loggers and appenders that are there. -/
def Fits (s : State) : Act → Prop
  | .logging o => s.logging.Fits o
  | _ => True

instance (s : State) : (a : Act) → Decidable (s.Fits a)
  | .logging o => inferInstanceAs (Decidable (s.logging.Fits o))
  | .config _ | .bind _ | .unbind _ | .call _ _ _ _ => inferInstanceAs (Decidable True)

/-- Each act is about what is there when its turn comes. -/
def FitsAll (s : State) : List Act → Prop
  | [] => True
  | a :: acts => s.Fits a ∧ (s.enact a).FitsAll acts

instance decidableFitsAll (s : State) : (acts : List Act) → Decidable (s.FitsAll acts)
  | [] => inferInstanceAs (Decidable True)
  | a :: acts =>
    have := decidableFitsAll (s.enact a) acts
    inferInstanceAs (Decidable (s.Fits a ∧ (s.enact a).FitsAll acts))

variable {s t u : State} {σ τ : List State} {acts : List Act}

/-! ## From moment to moment -/

/-- How the logging state goes on from one moment of some acts to the next one: the managers and
loggers have no part in it, or definitions are reconciled, or it is one of the acts. -/
inductive Advance (acts : List Act) (l : Logging.State) : Logging.State → Prop
  | aside {k : Logging.State} (h : k.setup = l.setup) : Advance acts l k
  | reconcile (m : ManagerId) (old new : Logging.Definitions) :
    Advance acts l (l.reconcile m old new).1
  | operate {o : Logging.Operation} (hmem : .logging o ∈ acts) (hfits : l.Fits o) :
    Advance acts l (l.operate o).1

theorem advance_turn (l : Logging.State) (t : Logging.Turn) : Advance acts l (l.turn t) := by
  cases t with
  | report r => exact .aside (Logging.State.setup_emit l r)
  | log i level e => exact .aside (Logging.State.setup_log l i level e)
  | reconcile m old new => exact .reconcile m old new

/-- The moments lead from one state to another, and from each to the next one the logging state goes
on as some acts have it. -/
structure Advances (acts : List Act) (s : State) (σ : List State) (t : State) : Prop where
  chain : (s :: σ).IsChain fun p q => Advance acts p.logging q.logging
  getLast : (s :: σ).getLast (List.cons_ne_nil s σ) = t

namespace Advances

theorem start (s : State) : Advances acts s [] s := ⟨.singleton s, rfl⟩

theorem one (h : Advance acts s.logging t.logging) : Advances acts s [t] t :=
  ⟨List.isChain_pair.2 h, rfl⟩

/-- A moment with the same logging state. -/
theorem rest (h : t.logging = s.logging) : Advances acts s [t] t :=
  .one (.aside (congrArg _ h))

theorem append (h : Advances acts s σ t) (h' : Advances acts t τ u) :
    Advances acts s (σ ++ τ) u := by
  induction σ generalizing s with
  | nil =>
      obtain rfl : s = t := h.getLast
      exact h'
  | cons v σ ih =>
      obtain ⟨hfirst, hrest⟩ := List.isChain_cons_cons.1 h.chain
      have hmore := ih ⟨hrest, h.getLast⟩
      exact ⟨List.isChain_cons_cons.2 ⟨hfirst, hmore.chain⟩, hmore.getLast⟩

end Advances

/-! ## The moments of changes -/

theorem closed_advances : Account.Closed (Advances acts) where
  start := .start
  append := .append
  turn s t := .one (advance_turn s.logging t)
  remember _ _ := .rest rfl
  listen _ _ _ := .rest rfl
  unlisten _ _ _ := .rest rfl
  unlistenAll _ _ := .rest rfl

theorem rounds_advances : Account.Rounds (Advances acts) where
  stuck _ := .rest rfl
  look {s t σ v x} l _ _ h := by
    have hpin : Advances acts s [s.pin v] (s.pin v) := .rest rfl
    have hlisten : Advances acts t [(t.listen v l).1] (t.listen v l).1 := .rest rfl
    exact (hpin.append h).append (hlisten.append (.rest rfl))
  note _ _ := .rest rfl
  change {s t σ v x} new _ _ h := by
    have hmark : Advances acts s [s.mark v] (s.mark v) := .rest rfl
    exact (hmark.append h).append (.rest rfl)

theorem advances_assign : Account.Covers (Advances acts) assign assignMoments :=
  Account.covers_assign closed_advances rounds_advances

/-! ## The moments of acts -/

/-- Obtaining a variable brings about records only. -/
theorem setup_obtain (s : State) (name : String) (kind : Kind) (value : Value)
    (description : String) :
    (s.obtain name kind value description).1.logging.setup = s.logging.setup := by
  rcases s.obtain_cases name kind value description with ⟨l, hset, hobtain⟩ | ⟨-, hobtain⟩
  · rw [hobtain]
    exact hset
  · rw [hobtain]
    rfl

theorem advance_reconcileAll (s : State) (v : VariableId) (m : ManagerId) :
    Advance acts s.logging (s.reconcileAll v m).logging := by
  unfold reconcileAll
  split
  · split
    · exact .aside rfl
    · exact .reconcile m .empty _
  · exact .aside rfl

theorem advances_operate (s : State) (o : Operation) :
    Advances acts s (s.operationMoments o) (s.operate o) := by
  cases o with
  | obtain name kind value description =>
      exact .one (.aside (setup_obtain s name kind value description))
  | create name kind value description => exact .rest rfl
  | clear => exact .rest rfl
  | set v value => exact advances_assign s v value
  | setText v text => exact Account.text closed_advances advances_assign s v text
  | setNode v n => exact Account.node closed_advances advances_assign s v n
  | load document => exact Account.load closed_advances advances_assign s document
  | listen v l => exact .rest rfl
  | listenWith v init l =>
      exact Account.listenWith closed_advances rounds_advances.toLooks advances_assign s v init l
  | unlisten v i => exact .rest rfl
  | unlistenAll v => exact .rest rfl

theorem advances_bind (s : State) (m : ManagerId) :
    Advances acts s (s.bindMoments m) (s.bind m).1 := by
  have hobtain := s.setup_obtain definitionsName .definitions (.definitions .empty)
    "logger definitions"
  cases heq : s.obtain definitionsName .definitions (.definitions .empty) "logger definitions" with
  | mk t result =>
      rw [heq] at hobtain
      have hvariable : Advances acts s [t] t := .one (.aside hobtain)
      cases result with
      | error e =>
          have hbind : (s.bind m).1 = t := by rw [bind, heq]
          have hmoments : s.bindMoments m = [t] := by rw [bindMoments, heq]
          rwa [hbind, hmoments]
      | ok v =>
          have hbind : (s.bind m).1
              = ((t.reconcileAll v m).listen v (follower m)).1 := by
            rw [bind, heq]
          have hmoments : s.bindMoments m = [t] ++ [t.reconcileAll v m] ++ [(s.bind m).1] := by
            rw [bindMoments, heq]
            rfl
          have hloggers : Advances acts t [t.reconcileAll v m] (t.reconcileAll v m) :=
            .one (t.advance_reconcileAll v m)
          rw [hmoments, hbind]
          exact (hvariable.append hloggers).append (.rest rfl)

theorem advances_callListener (s : State) (v : VariableId) (i : ListenerId) (old new : Value) :
    Advances acts s (s.callListenerMoments v i old new) (s.callListener v i old new).1 := by
  unfold callListenerMoments callListener
  cases s.listener? v i with
  | none => exact .start s
  | some l =>
      exact Account.call (v := v) closed_advances rounds_advances.toLooks advances_assign old new
        (i, l) (fun _ _ _ _ => .rest rfl) s

theorem advances_enact {a : Act} (ha : a ∈ acts) (hfits : s.Fits a) :
    Advances acts s (s.actMoments a) (s.enact a) := by
  cases a with
  | logging o => exact .one (.operate ha hfits)
  | config o => exact advances_operate s o
  | bind m => exact advances_bind s m
  | unbind b => exact .rest rfl
  | call v i old new => exact advances_callListener s v i old new

/-- All moments of acts, taken together. -/
theorem advances_enactAll {more : List Act} (hsub : acts ⊆ more) (hfits : s.FitsAll acts) :
    Advances more s (s.allMoments acts) (s.enactAll acts) := by
  induction acts generalizing s with
  | nil => exact .start s
  | cons a acts ih =>
      obtain ⟨ha, hacts⟩ := List.cons_subset.1 hsub
      exact (advances_enact ha hfits.1).append (ih hacts hfits.2)

/-! ## What goes on from moment to moment -/

/-- How a name of a manager can come by its logger between two moments of some acts. -/
inductive Origin (acts : List Act) (m : ManagerId) (name : String) (l : Logging.State) :
    Logging.State → Prop
  /-- One of the acts asks for the logger. -/
  | asked (h : .logging (.obtain m name) ∈ acts) : Origin acts m name l (l.obtain m name).1
  /-- A definition of the name is applied, and does not fail. -/
  | applied (old new : Logging.Definitions) (h : name ∈ (l.reconcile m old new).2.applied) :
    Origin acts m name l (l.reconcile m old new).1
  /-- A definition of the name has been taken back. -/
  | disabled (old new : Logging.Definitions) (h : name ∈ (l.reconcile m old new).2.disabled) :
    Origin acts m name l (l.reconcile m old new).1
  /-- The manager is made, and has its root from then on. -/
  | made (h : .logging .addManager ∈ acts) (hm : m = l.managers.size) (hname : name = rootName) :
    Origin acts m name l l.addManager.1

variable {l k : Logging.State}

theorem Advance.sound (h : Advance acts l k) (hl : l.Sound) : k.Sound := by
  cases h with
  | aside h => exact hl.congr h
  | reconcile m old new => exact Logging.State.sound_reconcile hl m old new
  | operate hmem hfits => exact hl.operate hfits

theorem Advance.keeps (h : Advance acts l k) (hl : l.Sound) : l.Keeps k := by
  cases h with
  | aside h => exact .of_managers (Logging.State.managers_congr h)
  | reconcile m old new => exact Logging.State.keeps_reconcile hl m old new
  | operate hmem hfits => exact Logging.State.keeps_operate hl hfits

theorem Advance.origin (h : Advance acts l k) (hl : l.Sound) {m : ManagerId} {name : String}
    (hbefore : name ∉ l.loggerNames m) (hafter : name ∈ k.loggerNames m) :
    Origin acts m name l k := by
  have hnone : (l.manager m).find? name = none := by
    by_contra hfound
    exact hbefore (Logging.State.mem_loggerNames.2 (Option.ne_none_iff_exists'.1 hfound))
  obtain ⟨i, hi⟩ := Logging.State.mem_loggerNames.1 hafter
  cases h with
  | aside h =>
      rw [Logging.State.manager_congr h, hnone] at hi
      cases hi
  | reconcile m' old new =>
      obtain ⟨rfl, happlied | hdisabled⟩ := Logging.State.reported_of_find hl hnone hi
      · exact .applied old new happlied
      · exact .disabled old new hdisabled
  | operate hmem hfits =>
      cases Logging.State.enters_operate hl hfits hnone hi with
      | asked => exact .asked hmem
      | applied old new h => exact .applied old new h
      | disabled old new h => exact .disabled old new h
      | made hm hname => exact .made hmem hm hname

/-- All moments from a sound one on are sound. -/
theorem Advances.sound (h : Advances acts s σ t) (hs : s.logging.Sound) :
    ∀ q ∈ s :: σ, q.logging.Sound := by
  have hrest := h.chain.cons_induction (fun q : State => q.logging.Sound) σ
    (fun _ _ hstep hp => hstep.sound hp) hs
  exact List.forall_mem_cons.2 ⟨hs, hrest⟩

/-- What a name has led to it goes on leading to. -/
theorem Advances.keeps (h : Advances acts s σ t) (hs : s.logging.Sound) :
    (s :: σ).Pairwise fun p q => p.logging.Keeps q.logging := by
  have htrans : Trans (fun p q : State => p.logging.Keeps q.logging)
      (fun p q : State => p.logging.Keeps q.logging)
      (fun p q : State => p.logging.Keeps q.logging) := ⟨fun h h' => h.trans h'⟩
  have hstep : (s :: σ).IsChain fun p q => p.logging.Keeps q.logging :=
    h.chain.imp_of_mem_imp fun p q hp _ hpq => hpq.keeps (h.sound hs p hp)
  exact List.isChain_iff_pairwise.1 hstep

/-- Whatever is done from a sound state on: in every moment the loggers of a manager bear their
names, each of them is exported once, and they fall back to the root, so that a call visits two of
them at most; what a name has led to at one moment is found and obtained under it at all later ones,
and no name goes away. A name comes by its logger by being asked for, or by definitions that are
applied or taken back, and in no other way but as the root of a new manager. -/
theorem loggers_permanent (hs : s.logging.Sound) (hfits : s.FitsAll acts) :
    (s :: s.allMoments acts).getLast (List.cons_ne_nil _ _) = s.enactAll acts ∧
    (∀ q ∈ s :: s.allMoments acts, ∀ m : Nat, m < q.logging.managers.size →
      q.logging.Rooted m ∧ q.logging.Lists m) ∧
    ((s :: s.allMoments acts).Pairwise fun p q => p.logging.Keeps q.logging) ∧
    (s :: s.allMoments acts).IsChain fun p q => ∀ m name, name ∉ p.logging.loggerNames m →
      name ∈ q.logging.loggerNames m → Origin acts m name p.logging q.logging := by
  have hall := advances_enactAll (List.Subset.refl acts) hfits
  refine ⟨hall.getLast, fun q hq m hm => ?_, hall.keeps hs, ?_⟩
  · have hsound := hall.sound hs q hq
    exact ⟨hsound.rooted hm, hsound.lists hm⟩
  · refine hall.chain.imp_of_mem_imp fun p q hp _ hpq m name hbefore hafter => ?_
    exact hpq.origin (hall.sound hs p hp) hbefore hafter

/-- Acts on a new manager: it is tied, asked for a logger, and led to two definitions, one of which
fails, that are taken back in the end. -/
def chores : List Act := [
  .logging .addManager,
  .bind 0,
  .logging (.obtain 0 "b"),
  .config (.set 0
    (.definitions (.ofList [{ name := "x" }, { name := "y", pattern := some "%q" }]))),
  .config (.set 0 (.definitions .empty))]

theorem loggers_permanent_chores :
    (fresh { files := .start [] }).logging.Sound ∧
    (fresh { files := .start [] }).FitsAll chores ∧
    (((fresh { files := .start [] }).enactAll chores).logging.definitions 0).toList.map (·.name)
      = ["b", "root", "x", "y"] := by
  have hsound := Logging.State.sound_start (.start []) .universal
  have hfits : (fresh { files := .start [] }).FitsAll chores := by decide
  obtain ⟨hlast, hrooted, -, -⟩ := loggers_permanent hsound hfits
  have hmem := List.getLast_mem (List.cons_ne_nil (fresh { files := .start [] })
    ((fresh { files := .start [] }).allMoments chores))
  rw [hlast] at hmem
  exact ⟨hsound, hfits, (hrooted _ hmem 0 (by decide)).1.defined.trans (by decide)⟩

end State

end ConfigLog.Config
