import ConfigLog.Watch.Watcher
import Mathlib.Data.List.Induction

set_option autoImplicit false

/-! # When a watched file is acted upon

The worker of a watcher takes in events and ticks in any order. What it has pending at any time is the
latest change that has not been acted upon (`pendingAfter_eq_some`), and a tick acts upon that one as
soon as it is old enough (`attempt?_eq_some`). So nothing is lost and nothing is made up, and changes
that follow one another closely are acted upon once (`length_attempts_le_one`). The turns of a watcher
are runs of its worker (`turn_eq_run`).
-/

namespace ConfigLog.Watch

/-- The event of a notice about some paths. Those without a file name are no entries. -/
def Event.ofPaths (kind : Files.NoticeKind) (paths : List String) : Event where
  kind
  names := paths.filterMap Files.Path.fileName?

/-- What reaches the worker of a watcher. -/
inductive Input where
  | event (time : Nat) (e : Event)
  | tick (time : Nat)

namespace Input

/-- When the input comes in. -/
def time : Input → Nat
  | event time _ => time
  | tick time => time

/-- What an input amounts to, if it is an event that is a change of the file. -/
def change? (file : String) : Input → Option Change
  | event _ e => if e.isRelevant file then Watch.change? e.kind else none
  | tick _ => none

/-- The input makes a difference: it is a change of the file or a tick. -/
def matters (file : String) : Input → Bool
  | event _ e => e.isRelevant file
  | tick _ => true

end Input

variable (file : String) (quiet : Nat)

/-! ## Runs of the worker -/

/-- What one input makes of what is pending, and the change that is acted upon. -/
def step (pending : Option Pending) : Input → Option Pending × Option Change
  | .event time e => (handle file time pending e, none)
  | .tick time => tick quiet time pending

/-- What is pending after some inputs. -/
def run (pending : Option Pending) (inputs : List Input) : Option Pending :=
  inputs.foldl (fun pending x => (step file quiet pending x).1) pending

/-- The changes that are acted upon in the course of some inputs. -/
def attempts : Option Pending → List Input → List Change
  | _, [] => []
  | pending, x :: xs =>
    (step file quiet pending x).2.toList ++ attempts (step file quiet pending x).1 xs

/-- What is pending after all that has come in. -/
def pendingAfter (before : List Input) : Option Pending := run file quiet none before

/-- The change that an input makes the worker act upon after all that has come in. -/
def attempt? (before : List Input) (x : Input) : Option Change :=
  (step file quiet (pendingAfter file quiet before) x).2

/-- A change of the file at a time is the latest one, and no attempt has followed it. -/
def Awaits (before : List Input) (time : Nat) (change : Change) : Prop :=
  ∃ done x new, before = done ++ x :: new ∧ x.change? file = some change ∧ x.time = time ∧
    (∀ y ∈ new, y.change? file = none) ∧
    attempts file quiet (pendingAfter file quiet (done ++ [x])) new = []

variable {file quiet} {p : Option Pending} {x : Input} {before : List Input} {t : Nat} {c : Change}

theorem run_append (p : Option Pending) (xs ys : List Input) :
    run file quiet p (xs ++ ys) = run file quiet (run file quiet p xs) ys := List.foldl_append

theorem attempts_append (p : Option Pending) (xs ys : List Input) :
    attempts file quiet p (xs ++ ys)
      = attempts file quiet p xs ++ attempts file quiet (run file quiet p xs) ys := by
  induction xs generalizing p with
  | nil => rfl
  | cons x xs ih =>
      rw [List.cons_append, attempts, attempts, ih, List.append_assoc]
      rfl

theorem pendingAfter_append (before new : List Input) :
    pendingAfter file quiet (before ++ new)
      = run file quiet (pendingAfter file quiet before) new := run_append none before new

/-! ## One step -/

theorem isRelevant_iff {e : Event} :
    e.isRelevant file = true ↔ e.kind ≠ .accessed ∧ file ∈ e.names := by
  cases hk : e.kind <;> simp [Event.isRelevant, hk, Watch.change?]

theorem isRelevant_ofPaths {kind : Files.NoticeKind} {paths : List String} :
    (Event.ofPaths kind paths).isRelevant file = true ↔
      kind ≠ .accessed ∧ ∃ path ∈ paths, Files.Path.fileName? path = some file := by
  rw [isRelevant_iff, Event.ofPaths, List.mem_filterMap]

theorem handle_of_relevant {e : Event} (h : e.isRelevant file = true)
    (hc : Watch.change? e.kind = some c) (time : Nat) (p : Option Pending) :
    handle file time p e = some ⟨time, c⟩ := by
  have hname : e.names.contains file = true := by
    rw [List.contains_iff_mem]
    exact (isRelevant_iff.1 h).2
  simp only [handle, hc, hname, if_true]

/-- A change of the file is pending at once. -/
theorem step_of_change (h : x.change? file = some c) (p : Option Pending) :
    step file quiet p x = (some ⟨x.time, c⟩, none) := by
  cases x with
  | tick time => cases h
  | event time e =>
      cases hr : e.isRelevant file with
      | false => simp [Input.change?, hr] at h
      | true =>
          have hc : Watch.change? e.kind = some c := by simpa [Input.change?, hr] using h
          rw [step, handle_of_relevant hr hc]
          rfl

theorem step_of_not_matters (h : x.matters file = false) (p : Option Pending) :
    step file quiet p x = (p, none) := by
  cases x with
  | tick time => cases h
  | event time e => rw [step, handle_of_not_relevant h]

/-- An input that is no change of the file leaves what is pending, or is an attempt. -/
theorem step_of_no_change (h : x.change? file = none) (quiet : Nat) (p : Option Pending) :
    step file quiet p x = (p, none) ∨
    ∃ now q, x = .tick now ∧ p = some q ∧ q.since + quiet ≤ now ∧
      step file quiet p x = (none, some q.change) := by
  cases x with
  | event time e =>
      refine .inl (step_of_not_matters ?_ p)
      cases hr : e.isRelevant file with
      | false => exact hr
      | true =>
          have hk := (isRelevant_iff.1 hr).1
          cases hkind : e.kind <;> simp_all [Input.change?, Watch.change?]
  | tick now =>
      cases p with
      | none => exact .inl rfl
      | some q =>
          by_cases hq : q.since + quiet ≤ now
          · exact .inr ⟨now, q, rfl, rfl, hq, if_pos hq⟩
          · exact .inl (if_neg hq)

theorem step_snd_eq_some :
    (step file quiet p x).2 = some c ↔
      ∃ now t, x = .tick now ∧ p = some ⟨t, c⟩ ∧ t + quiet ≤ now := by
  constructor
  · intro h
    cases hx : x.change? file with
    | some d => rw [step_of_change hx] at h; cases h
    | none =>
        rcases step_of_no_change hx quiet p with hstep | ⟨now, q, rfl, rfl, hq, hstep⟩
        · rw [hstep] at h; cases h
        · rw [hstep] at h
          cases h
          exact ⟨now, q.since, rfl, rfl, hq⟩
  · rintro ⟨now, t, rfl, rfl, ht⟩
    exact congrArg Prod.snd (if_pos ht)

theorem step_fst_eq_some :
    (step file quiet p x).1 = some ⟨t, c⟩ ↔ x.change? file = some c ∧ x.time = t ∨
      x.change? file = none ∧ (step file quiet p x).2 = none ∧ p = some ⟨t, c⟩ := by
  cases hx : x.change? file with
  | some d =>
      rw [step_of_change hx]
      simp [and_comm]
  | none =>
      rcases step_of_no_change hx quiet p with hstep | ⟨now, q, -, -, -, hstep⟩
      · simp [hstep]
      · simp [hstep]

/-! ## What is pending -/

theorem awaits_snoc : Awaits file quiet (before ++ [x]) t c ↔
    x.change? file = some c ∧ x.time = t ∨
      x.change? file = none ∧ attempt? file quiet before x = none ∧ Awaits file quiet before t c := by
  constructor
  · rintro ⟨done, y, new, hsplit, hc, ht, hnone, hnew⟩
    -- the last input is the change itself, or it comes after the change
    rcases List.eq_nil_or_concat new with rfl | ⟨new, z, rfl⟩
    · obtain ⟨rfl, hxy⟩ := List.append_inj' hsplit rfl
      obtain rfl := List.singleton_inj.1 hxy
      exact .inl ⟨hc, ht⟩
    · rw [List.concat_eq_append] at *
      have hsplit' : before ++ [x] = (done ++ y :: new) ++ [z] := by simpa using hsplit
      obtain ⟨rfl, hxz⟩ := List.append_inj' hsplit' rfl
      obtain rfl := List.singleton_inj.1 hxz
      rw [attempts_append, List.append_eq_nil_iff, ← pendingAfter_append] at hnew
      refine .inr ⟨hnone x (by simp), ?_, done, y, new, rfl, hc, ht,
        fun z hz => hnone z (by simp [hz]), hnew.1⟩
      have hlast := hnew.2
      simpa [attempts, attempt?] using hlast
  · rintro (⟨hc, ht⟩ | ⟨hx, hattempt, done, y, new, rfl, hc, ht, hnone, hnew⟩)
    · exact ⟨before, x, [], rfl, hc, ht, fun y hy => absurd hy List.not_mem_nil, rfl⟩
    · refine ⟨done, y, new ++ [x], by simp, hc, ht, fun z hz => ?_, ?_⟩
      · rcases List.mem_append.1 hz with hz | hz
        · exact hnone z hz
        · rwa [List.mem_singleton.1 hz]
      · rw [attempts_append, hnew, ← pendingAfter_append]
        have happ : done ++ [y] ++ new = done ++ y :: new := by simp
        rw [happ]
        have hlast : (step file quiet (pendingAfter file quiet (done ++ y :: new)) x).2 = none :=
          hattempt
        simp [attempts, hlast]

/-- What is pending is the latest change of the file, unless an attempt has followed it. -/
theorem pendingAfter_eq_some :
    pendingAfter file quiet before = some ⟨t, c⟩ ↔ Awaits file quiet before t c := by
  induction before using List.reverseRecOn with
  | nil =>
      constructor
      · intro h
        cases h
      · rintro ⟨done, x, new, hsplit, -⟩
        simp at hsplit
  | append_singleton before x ih =>
      have hstep : pendingAfter file quiet (before ++ [x])
          = (step file quiet (pendingAfter file quiet before) x).1 :=
        pendingAfter_append before [x]
      rw [hstep, step_fst_eq_some, awaits_snoc, ih]
      rfl

/-- An attempt is made by a tick, and upon a change that has been pending for long enough. -/
theorem attempt?_eq_some : attempt? file quiet before x = some c ↔
    ∃ now t, x = .tick now ∧ Awaits file quiet before t c ∧ t + quiet ≤ now := by
  simp only [attempt?, step_snd_eq_some, pendingAfter_eq_some]

/-! ## What is lost and what is made up -/

theorem run_isSome {xs : List Input} (hp : p.isSome = true) (h : attempts file quiet p xs = []) :
    (run file quiet p xs).isSome = true := by
  induction xs generalizing p with
  | nil => exact hp
  | cons x xs ih =>
      have ⟨hhead, htail⟩ := List.append_eq_nil_iff.1 h
      refine ih ?_ htail
      show (step file quiet p x).1.isSome = true
      cases hx : x.change? file with
      | some d => rw [step_of_change hx]; rfl
      | none =>
          rcases step_of_no_change hx quiet p with hstep | ⟨now, q, -, -, -, hstep⟩
          · rwa [hstep]
          · rw [hstep] at hhead
            cases hhead

/-- As long as no attempt has followed a change, there is a latest one that awaits an attempt. -/
theorem exists_awaits {done new : List Input} (hc : x.change? file = some c)
    (h : attempts file quiet (pendingAfter file quiet (done ++ [x])) new = []) :
    ∃ t d, Awaits file quiet (done ++ x :: new) t d := by
  have hpending : pendingAfter file quiet (done ++ [x]) = some ⟨x.time, c⟩ :=
    pendingAfter_eq_some.2 (awaits_snoc.2 (.inl ⟨hc, rfl⟩))
  have hsome := run_isSome (Option.isSome_of_eq_some hpending) h
  rw [← pendingAfter_append, List.append_assoc] at hsome
  obtain ⟨q, hq⟩ := Option.isSome_iff_exists.1 hsome
  exact ⟨q.since, q.change, pendingAfter_eq_some.1 hq⟩

/-- Inputs that are neither changes of the file nor ticks might as well not have come. -/
theorem attempts_filter (p : Option Pending) (inputs : List Input) :
    attempts file quiet p (inputs.filter (·.matters file)) = attempts file quiet p inputs ∧
      run file quiet p (inputs.filter (·.matters file)) = run file quiet p inputs := by
  induction inputs generalizing p with
  | nil => exact ⟨rfl, rfl⟩
  | cons x xs ih =>
      cases hx : x.matters file with
      | true =>
          rw [List.filter_cons_of_pos hx, attempts, attempts, (ih _).1]
          exact ⟨rfl, (ih _).2⟩
      | false =>
          rw [List.filter_cons_of_neg (by simp [hx]), attempts, step_of_not_matters hx, (ih p).1]
          refine ⟨rfl, (ih p).2.trans ?_⟩
          rw [run, run, List.foldl_cons, step_of_not_matters hx]

/-! ## Changes that follow one another closely -/

/-- When the changes of the file come in. -/
def changeTimes (file : String) (inputs : List Input) : List Nat :=
  (inputs.filter fun x => (x.change? file).isSome).map (·.time)

theorem changeTimes_cons_of_change {xs : List Input} (h : x.change? file = some c) :
    changeTimes file (x :: xs) = x.time :: changeTimes file xs := by
  simp [changeTimes, h]

theorem changeTimes_cons_of_no_change {xs : List Input} (h : x.change? file = none) :
    changeTimes file (x :: xs) = changeTimes file xs := by
  simp [changeTimes, h]

theorem attempts_none {xs : List Input} (h : changeTimes file xs = []) :
    attempts file quiet none xs = [] := by
  induction xs with
  | nil => rfl
  | cons x xs ih =>
      cases hx : x.change? file with
      | some d => rw [changeTimes_cons_of_change hx] at h; cases h
      | none =>
          rw [changeTimes_cons_of_no_change hx] at h
          rcases step_of_no_change hx quiet none with hstep | ⟨now, q, -, hq, -⟩
          · rw [attempts, hstep, ih h]
            rfl
          · cases hq

/-- When the quiet time is over it is too late for another change to follow closely. -/
theorem changeTimes_eq_nil {xs : List Input} {now : Nat} (hnow : t + quiet ≤ now)
    (hlater : ∀ u ∈ xs.map (·.time), now ≤ u)
    (hgaps : (t :: changeTimes file xs).IsChain fun a b => b < a + quiet) :
    changeTimes file xs = [] := by
  cases htimes : changeTimes file xs with
  | nil => rfl
  | cons u us =>
      rw [htimes] at hgaps
      have hsoon : u < t + quiet := (List.isChain_cons_cons.1 hgaps).1
      obtain ⟨y, hy, rfl⟩ := List.mem_map.1 (htimes ▸ List.mem_cons_self : u ∈ changeTimes file xs)
      have hlate := hlater y.time (List.mem_map_of_mem (List.mem_filter.1 hy).1)
      omega

/-- While a change is pending and others follow it closely, there is one attempt at most. -/
theorem length_attempts_some {xs : List Input} (d : Change)
    (hsorted : (t :: xs.map (·.time)).Pairwise (· ≤ ·))
    (hgaps : (t :: changeTimes file xs).IsChain fun a b => b < a + quiet) :
    (attempts file quiet (some ⟨t, d⟩) xs).length ≤ 1 := by
  induction xs generalizing t d with
  | nil => exact Nat.zero_le 1
  | cons x xs ih =>
      have ⟨hfirst, hrest⟩ := List.pairwise_cons.1 hsorted
      cases hx : x.change? file with
      | some d' =>
          rw [changeTimes_cons_of_change hx] at hgaps
          rw [attempts, step_of_change hx]
          exact ih d' hrest (List.isChain_cons_cons.1 hgaps).2
      | none =>
          rw [changeTimes_cons_of_no_change hx] at hgaps
          rw [attempts]
          rcases step_of_no_change hx quiet (some ⟨t, d⟩) with hstep | ⟨now, q, rfl, hq, hold, hstep⟩
          · rw [hstep]
            exact ih d (List.pairwise_cons.2 ⟨fun u hu => hfirst u (List.mem_cons_of_mem _ hu),
              (List.pairwise_cons.1 hrest).2⟩) hgaps
          · obtain rfl := Option.some.inj hq
            have hnone := changeTimes_eq_nil hold (List.pairwise_cons.1 hrest).1 hgaps
            rw [hstep, attempts_none hnone]
            exact Nat.le_refl 1

theorem length_attempts_le_one {xs : List Input} (hc : x.change? file = some c)
    (hsorted : ((x :: xs).map (·.time)).Pairwise (· ≤ ·))
    (hgaps : (changeTimes file (x :: xs)).IsChain fun a b => b < a + quiet) (p : Option Pending) :
    (attempts file quiet p (x :: xs)).length ≤ 1 := by
  rw [changeTimes_cons_of_change hc] at hgaps
  rw [attempts, step_of_change hc]
  exact length_attempts_some c hsorted hgaps

/-! ## The law -/

/-- How the worker of a watcher waits for a file to settle. -/
structure Settles (file : String) (quiet : Nat) : Prop where
  /-- The changes of a file are what creates, modifies or removes an entry with its name. -/
  changes : ∀ kind paths time, ((Input.event time (.ofPaths kind paths)).change? file).isSome = true ↔
    kind ≠ .accessed ∧ ∃ path ∈ paths, Files.Path.fileName? path = some file
  /-- A tick acts upon the latest change if none has been made for the quiet time and no attempt has
  followed it; nothing else makes an attempt. -/
  attempt : ∀ before x c, attempt? file quiet before x = some c ↔
    ∃ now t, x = .tick now ∧ Awaits file quiet before t c ∧ t + quiet ≤ now
  pending : ∀ before t c,
    pendingAfter file quiet before = some ⟨t, c⟩ ↔ Awaits file quiet before t c
  /-- A change that no attempt has followed is not lost, whatever else has come in. -/
  unanswered : ∀ done x new, (x.change? file).isSome = true →
    attempts file quiet (pendingAfter file quiet (done ++ [x])) new = [] →
    ∃ t c, Awaits file quiet (done ++ x :: new) t c
  /-- A change is left pending when it comes in, also right after an attempt. -/
  left : ∀ before x c, x.change? file = some c →
    Awaits file quiet (before ++ [x]) x.time c ∧ attempt? file quiet before x = none
  ignored : ∀ p time e, e.isRelevant file = false → step file quiet p (.event time e) = (p, none)
  dropped : ∀ p inputs,
    attempts file quiet p (inputs.filter (·.matters file)) = attempts file quiet p inputs
  /-- From a change on there is one attempt at most, as long as each change follows within the quiet
  time after the one before it. -/
  burst : ∀ before x xs, (x.change? file).isSome = true →
    ((x :: xs).map (·.time)).Pairwise (· ≤ ·) →
    (changeTimes file (x :: xs)).IsChain (fun a b => b < a + quiet) →
    (attempts file quiet (pendingAfter file quiet before) (x :: xs)).length ≤ 1

theorem change?_ofPaths_isSome (kind : Files.NoticeKind) (paths : List String) (time : Nat) :
    ((Input.event time (.ofPaths kind paths)).change? file).isSome = true ↔
      kind ≠ .accessed ∧ ∃ path ∈ paths, Files.Path.fileName? path = some file := by
  rw [← isRelevant_ofPaths]
  cases hr : (Event.ofPaths kind paths).isRelevant file with
  | false => simp [Input.change?, hr]
  | true =>
      have hk : kind ≠ .accessed := (isRelevant_ofPaths.1 hr).1
      cases kind <;> simp_all [Input.change?, Event.ofPaths, Watch.change?]

/-- The worker of a watcher loses no change and makes none up, in whatever order events and ticks
come in. -/
theorem settles (file : String) (quiet : Nat) : Settles file quiet := by
  constructor
  case changes => exact change?_ofPaths_isSome
  case attempt => exact fun before x c => attempt?_eq_some
  case pending => exact fun before t c => pendingAfter_eq_some
  case unanswered =>
    intro done x new hx hnew
    obtain ⟨c, hc⟩ := Option.isSome_iff_exists.1 hx
    exact exists_awaits hc hnew
  case left =>
    intro before x c hc
    refine ⟨awaits_snoc.2 (.inl ⟨hc, rfl⟩), ?_⟩
    rw [attempt?, step_of_change hc]
  case ignored => exact fun p time e he => step_of_not_matters (x := .event time e) he p
  case dropped => exact fun p inputs => (attempts_filter p inputs).1
  case burst =>
    intro before x xs hx hsorted hgaps
    obtain ⟨c, hc⟩ := Option.isSome_iff_exists.1 hx
    exact length_attempts_le_one hc hsorted hgaps _

/-- A file that is written and then removed, with another one written in between. -/
def rewritten : List Input := [
  .event 0 { kind := .created, names := ["app.yml"] }, .tick 4, .tick 8,
  .event 9 { kind := .modified, names := ["app.log"] },
  .event 12 { kind := .removed, names := ["app.log", "app.yml"] }, .tick 20, .tick 31]

theorem settles_rewritten :
    attempt? "app.yml" 20 rewritten (.tick 32) = some .remove ∧
    Awaits "app.yml" 20 rewritten 12 .remove ∧
    (attempts "app.yml" 20 none (rewritten ++ [.tick 32, .tick 90])).length ≤ 1 := by
  have hlaw := settles "app.yml" 20
  have hawaits : Awaits "app.yml" 20 rewritten 12 .remove := (hlaw.pending _ _ _).1 (by decide)
  refine ⟨(hlaw.attempt _ _ _).2 ⟨32, 12, rfl, hawaits, by decide⟩, hawaits, ?_⟩
  exact hlaw.burst [] _ _ (by decide) (by decide) (by decide)

/-! ## Turns of a watcher -/

namespace State

/-- What a watcher takes in at a turn. -/
def inputs (s : State) (w : Watcher) : List Input :=
  (s.newEvents w).map (.event s.now) ++ if s.isDue (s.takeIn w) then [.tick s.now] else []

theorem run_events (file : String) (quiet now : Nat) (p : Option Pending) (es : List Event) :
    run file quiet p (es.map (.event now)) = es.foldl (handle file now) p ∧
      attempts file quiet p (es.map (.event now)) = [] := by
  induction es generalizing p with
  | nil => exact ⟨rfl, rfl⟩
  | cons e es ih => exact ih (handle file now p e)

theorem isSome_loadUnless {b : Option Break} {c : Config.State} {path : String}
    (h : (loadUnless b c path).1.stuck = false) : (loadUnless b c path).2.isSome = true := by
  unfold loadUnless at h ⊢
  simp only at h ⊢
  split
  · rfl
  · rename_i hbroken
    rw [hbroken] at h
    generalize c.loadFile path = loaded at h ⊢
    obtain ⟨d, e | report⟩ := loaded
    · rfl
    · have hstuck : d.stuck = false := h
      simp [hstuck]

theorem isSome_aside {α : Type} (task : Config.State → Config.State × Option α)
    (htask : ∀ c, (task c).1.stuck = false → (task c).2.isSome = true) (everywhere : Bool)
    (c : Config.State) (h : (aside everywhere task c).1.stuck = false) :
    (aside everywhere task c).2.isSome = true := by
  cases everywhere with
  | true => exact htask c h
  | false => exact htask _ h

/-- An attempt has an outcome unless its task waits forever. -/
theorem isSome_attempt {everywhere : Bool} {b : Option Break} {c : Config.State} {path : String}
    {change : Change} (h : (attempt everywhere b c path change).1.stuck = false) :
    (attempt everywhere b c path change).2.isSome = true := by
  unfold attempt at h ⊢
  split
  · rfl
  · rename_i hgone
    rw [if_neg hgone] at h
    have htask := isSome_aside (loadUnless b · path) (fun _ => isSome_loadUnless)
      everywhere c
    generalize aside everywhere (loadUnless b · path) c = done at h htask ⊢
    obtain ⟨d, _ | _ | report⟩ := done
    · exact htask h
    · rfl
    · rfl

/-- A turn of a running watcher is a run of its worker, with an outcome for each attempt that ends. -/
theorem turn_eq_run {s : State} {i : WatcherId} {w : Watcher} (hw : s.watchers[i]? = some w)
    (hr : w.running = true) : ∃ v, (s.turn i).watchers[i]? = some v ∧
      v.pending = run w.file w.quiet w.pending (s.inputs w) ∧
      ((s.turn i).config.stuck = false → v.outcomes.length
        = w.outcomes.length + (attempts w.file w.quiet w.pending (s.inputs w)).length) := by
  obtain ⟨hrun, hattempts⟩ := run_events w.file w.quiet s.now w.pending (s.newEvents w)
  have hset : ∀ (t : State) (v : Watcher), t.watchers = s.watchers →
      (t.modify i fun _ => v).watchers[i]? = some v := by
    intro t v ht
    simp [modify, Array.getElem?_modify, ht, hw]
  have htaken : (s.takeIn w).pending = (s.newEvents w).foldl (handle w.file s.now) w.pending := rfl
  rw [inputs, run_append, attempts_append, hattempts, hrun, ← htaken]
  simp only [turn, hw, hr, Bool.not_true, Bool.false_eq_true, if_false]
  cases hdue : s.isDue (s.takeIn w) with
  | false => exact ⟨s.takeIn w, hset s _ rfl, rfl, fun _ => rfl⟩
  | true =>
      have htick : step w.file w.quiet (s.takeIn w).pending (.tick s.now)
          = tick (s.takeIn w).quiet s.now (s.takeIn w).pending := rfl
      simp only [Bool.not_true, Bool.false_eq_true, if_false, if_true, run, attempts,
        List.foldl_cons, List.foldl_nil, htick]
      obtain ⟨pending, change⟩ := tick (s.takeIn w).quiet s.now (s.takeIn w).pending
      cases change with
      | none => exact ⟨_, hset s _ rfl, rfl, fun _ => rfl⟩
      | some change =>
          refine ⟨_, hset _ _ rfl, rfl, fun hstuck => ?_⟩
          have hsome := isSome_attempt hstuck
          simpa [takeIn, Option.isSome_iff_ne_none] using hsome

end State

end ConfigLog.Watch
