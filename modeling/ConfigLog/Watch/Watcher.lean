import ConfigLog.Config.Moments
import ConfigLog.Config.Registry
import ConfigLog.Watch.Debounce

set_option autoImplicit false

/-! # Watching a document

A watcher follows one file and applies it to the registered variables whenever it has settled after
a change. Each attempt yields one outcome. A file that is gone, cannot be read or is malformed leaves
all variables as they are. The document is applied by a task of its own. The programs around may
break it off at any moment of the way: then the attempt has failed, but what has been set stays set.
-/

namespace ConfigLog.Watch

/-- The number of a watcher. -/
abbrev WatcherId := Nat

/-- How a file is watched. -/
structure Options where
  /-- The milliseconds without a change after which the file counts as settled. -/
  quiet : Nat := 500
  /-- The file is applied once before the watching starts. -/
  loadOnStart : Bool := true
  deriving DecidableEq, Repr

/-- Why a file was not applied. -/
inductive Failure where
  | config (error : Config.ConfigError)
  /-- The task that applied it was broken off. -/
  | broken (text : String)

/-- The wording of the failure. -/
def Failure.message : Failure → String
  | config e => e.message.getD "error"
  | broken text => text

/-- What came of an attempt to reload. -/
inductive Outcome where
  | applied (report : Config.LoadReport)
  | failed (why : Failure)
  /-- The file is gone. -/
  | removed

/-- A task that applies a document is broken off, as when a listener panics. -/
structure Break where
  /-- How far it has come, as a number among the moments of applying the document. -/
  moment : Nat
  /-- What is said of the task then. -/
  text : String

/-- A watcher of one file. -/
structure Watcher where
  path : String
  /-- The node of the directory. -/
  directory : Nat
  /-- The name of the file in it. -/
  file : String
  quiet : Nat
  pending : Option Pending := none
  /-- The number of notices of the file system that have been taken in. -/
  taken : Nat
  /-- When the first tick was. -/
  started : Option Nat := none
  running : Bool := true
  /-- The outcomes that nobody has asked for yet. -/
  outcomes : List Outcome := []

/-- Why a file cannot be watched. -/
inductive WatchError where
  /-- The directory is not there, or the path has no file name. -/
  | files
  | config (error : Config.ConfigError)
  deriving DecidableEq, Repr

/-- The variables and the watchers that keep them up to date. -/
structure State where
  config : Config.State
  watchers : Array Watcher := #[]
  /-- The time in milliseconds. -/
  now : Nat := 0
  /-- The facade gets the records of all threads, and not only those of the thread that the watchers
  run on. -/
  everywhere : Bool := true
  /-- How many attempts have been made. -/
  made : Nat := 0
  /-- What breaks off the tasks of the attempts, by the numbers of the attempts. -/
  breaks : Nat → Option Break := fun _ => none

namespace State

/-- Changes a watcher. -/
def modify (s : State) (w : WatcherId) (f : Watcher → Watcher) : State :=
  { s with watchers := s.watchers.modify w f }

/-! ## Applying a file in a task -/

/-- What a task leaves that has come from one state to another and is broken off there: it lets go of
the variables that it was changing or looking at, which keep the values that they have. -/
def release (s t : Config.State) : Config.State :=
  { t with vars := t.vars.mapIdx fun v x => { x with
      changing := s.isChanging v, pinned := ((s.vars[v]?).map (·.pinned)).getD false } }

/-- The states that a task passes through while it applies a document, from the first one on. -/
def stages (c : Config.State) (tree : Node) : List Config.State :=
  c :: c.loadMoments Config.State.assign Config.State.assignMoments tree

/-- The state in which the task of an attempt is broken off while it applies a document, with what is
said of it. A task that has come to its end, or that waits forever, is not broken off. -/
def interruption? (b : Option Break) (c : Config.State) (tree : Node) :
    Option (Config.State × String) := do
  let b ← b
  let t ← (stages c tree)[b.moment]?
  if t.stuck then none else some (release c t, b.text)

/-- Applies a file, unless that is broken off. There is no result when it never ends. -/
def loadUnless (b : Option Break) (c : Config.State) (path : String) :
    Config.State × Option (Except Failure Config.LoadReport) :=
  let broken :=
    match c.readFile path with
    | (_, .error _) => none
    | (c, .ok tree) => interruption? b c tree
  match broken with
  | some (c, text) => (c, some (.error (.broken text)))
  | none =>
    match c.loadFile path with
    | (c, .error e) => (c, some (.error (.config e)))
    | (c, .ok report) => (c, if c.stuck then none else some (.ok report))

/-- Does something on another thread, whose records may not be for the facade. -/
def aside {α : Type} (everywhere : Bool) (task : Config.State → Config.State × α)
    (c : Config.State) : Config.State × α :=
  if everywhere then task c
  else
    let facade := c.logging.facade
    let (c, result) := task { c with logging := { c.logging with facade := none } }
    ({ c with logging := { c.logging with facade } }, result)

/-! ## Attempts -/

/-- A record about a watched file, from a line of the code. -/
def workerRecord (line : Nat) (level : Logging.FacadeLevel) (message : String) : Logging.Record :=
  { level, target := "livelog::watch::worker", message, file := "src/watch/worker.rs", line }

/-- The record about a file that is gone. -/
def goneRecord (path : String) : Logging.Record :=
  workerRecord 85 .warn ("config " ++ path ++ " removed, keeping current values")

/-- The record about a file that has been applied. -/
def reloadedRecord (path : String) (report : Config.LoadReport) : Logging.Record :=
  workerRecord 94 .info ("reloaded " ++ path ++ ": " ++ count report.updated.length
    ++ " updated, " ++ count report.failed.length ++ " failed")
where
  /-- The digits of a number. -/
  count (n : Nat) : String := String.ofList (Number.natText n)

/-- The record about a file that has not been applied. -/
def failedRecord (path : String) (why : Failure) : Logging.Record :=
  match why with
  | .config _ => workerRecord 106 .error ("reload of " ++ path ++ " failed: " ++ why.message)
  | .broken _ => workerRecord 113 .error ("reload task for " ++ path ++ " failed: " ++ why.message)

/-- Acts upon a change of a file. There is no outcome when a task is waited for that never ends. -/
def attempt (everywhere : Bool) (b : Option Break) (c : Config.State) (path : String)
    (change : Change) : Config.State × Option Outcome :=
  if change == .remove && !c.logging.files.contains path then
    (c.emit (goneRecord path), some .removed)
  else
    match aside everywhere (loadUnless b · path) c with
    | (c, none) => (c, none)
    | (c, some (.ok report)) => (c.emit (reloadedRecord path report), some (.applied report))
    | (c, some (.error why)) => (c.emit (failedRecord path why), some (.failed why))

/-! ## Time -/

/-- The events of the directory that a watcher has not taken in. -/
def newEvents (s : State) (w : Watcher) : List Event :=
  ((s.config.logging.files.notices.toList.drop w.taken).filter (·.directory == w.directory)).map
    fun n => { kind := n.kind, names := [n.name] }

/-- Lets a watcher take in what has happened. -/
def takeIn (s : State) (w : Watcher) : Watcher :=
  { w with
    pending := (s.newEvents w).foldl (handle w.file s.now) w.pending
    taken := s.config.logging.files.notices.size
    started := some (w.started.getD s.now) }

/-- A tick of the watcher is due. -/
def isDue (s : State) (w : Watcher) : Bool :=
  (s.now - w.started.getD s.now) % tickRate w.quiet == 0

/-- Lets one watcher do what it has to do now. -/
def turn (s : State) (i : WatcherId) : State :=
  match s.watchers[i]? with
  | none => s
  | some w =>
    if !w.running then s
    else
      let w := s.takeIn w
      if !s.isDue w then s.modify i fun _ => w
      else
        match tick w.quiet s.now w.pending with
        | (pending, none) => s.modify i fun _ => { w with pending }
        | (pending, some change) =>
          let (config, outcome) := attempt s.everywhere (s.breaks s.made) s.config w.path change
          { s with config, made := s.made + 1 }.modify i fun _ => { w with
            pending, running := outcome.isSome, outcomes := w.outcomes ++ outcome.toList }

/-- Lets all watchers do what they have to do now. -/
def turnAll (s : State) : State := (List.range s.watchers.size).foldl turn s

/-- Takes the oldest outcome of a watcher that nobody has asked for. -/
def take (s : State) (i : WatcherId) : State × Option Outcome :=
  match s.watchers[i]? with
  | some { outcomes := outcome :: outcomes, .. } =>
    (s.modify i ({ · with outcomes }), some outcome)
  | _ => (s, none)

/-- Waits for the next outcome of a watcher, for some milliseconds at most. -/
def await (s : State) (i : WatcherId) : Nat → State × Option Outcome
  | 0 => s.turnAll.take i
  | timeout + 1 =>
    match s.turnAll.take i with
    | (s, some outcome) => (s, some outcome)
    | (s, none) => { s with now := s.now + 1 }.await i timeout

/-! ## Starting and stopping -/

/-- The directory and the name of a file that can be watched. -/
def resolve (files : Files.Store) (path : String) : Except WatchError (Files.Place × String) :=
  match Files.Path.fileName? path with
  | none => .error .files
  | some file =>
    let directory := Files.Path.parent path
    match if directory.isEmpty then .ok files.working else files.place directory with
    | .ok p => if (files.node? p).isSome then .ok (p, file) else .error .files
    | .error _ => .error .files

/-- A record about a watcher, from a line of the code. -/
def watcherRecord (line : Nat) (level : Logging.FacadeLevel) (message : String) : Logging.Record :=
  { level, target := "livelog::watch::watcher", message, file := "src/watch/watcher.rs", line }

/-- Applies the file that is going to be watched, if the options say so. -/
def loadFirst (c : Config.State) (path : String) (o : Options) :
    Config.State × Except Config.ConfigError Unit :=
  if !o.loadOnStart then (c, .ok ())
  else
    match c.loadFile path with
    | (c, .error e) => (c, .error e)
    | (c, .ok report) =>
      (c.emit (watcherRecord 33 .info ("loaded " ++ path ++ " ("
        ++ String.ofList (Number.natText report.updated.length) ++ " updated)")), .ok ())

/-- Starts to watch a file, which need not be there yet. -/
def watch (s : State) (path : String) (o : Options) : State × Except WatchError WatcherId :=
  match resolve s.config.logging.files path with
  | .error e => (s, .error e)
  | .ok (parent, file) =>
    let path := Files.Store.pathOf (file :: parent)
    match loadFirst s.config path o with
    | (config, .error e) => ({ s with config }, .error (.config e))
    | (config, .ok ()) =>
      let files := config.logging.files
      let w : Watcher := {
        path, file, quiet := o.quiet, taken := files.notices.size
        directory := (files.node? parent).getD 0 }
      ({ s with
          config := config.emit (watcherRecord 59 .debug ("watching " ++ path))
          watchers := s.watchers.push w },
        .ok s.watchers.size)

/-- Stops a watcher. Outcomes that are there already can still be asked for. -/
def stop (s : State) (i : WatcherId) : State := s.modify i ({ · with running := false })

/-- Applies the file of a watcher at once. -/
def reload (s : State) (i : WatcherId) : State × Except Config.ConfigError Config.LoadReport :=
  match s.watchers[i]? with
  | none => (s, .ok {})
  | some w =>
    let (config, result) := s.config.loadFile w.path
    ({ s with config }, result)

end State

end ConfigLog.Watch
