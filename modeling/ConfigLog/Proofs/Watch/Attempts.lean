import ConfigLog.Proofs.Config.Session
import ConfigLog.Proofs.Watch.Settling

set_option autoImplicit false

/-! # What comes of a change of a watched file

Acting upon a change of a file applies its document as a whole or not at all. There is a document
(`document?`) when the extension names a format, the file can be read, and all of it is well formed.
Without one nothing happens but that this is reported. With one, the task applies the tree in the same
way as anybody else would, and what it leaves is what that leaves (`attempt_of_ends`). So the
variables are at any time what the trees of the successful attempts have made of them, one after the
other, with all that has happened to the loggers in between (`course_eq_foldl`).

Two things can come in between. A document may set a variable while a change of it is on its way: such
an attempt never ends, and has no outcome. And the task may be broken off, as by a listener that
panics: then the attempt has failed although there is a document, and the variables are left as they
were at that moment (`attempt_of_interruption`).
-/

namespace ConfigLog.Watch

namespace State

open Config.State (parsedRecord)

variable {c t : Config.State} {path text : String} {change : Change} {tree : Node}
  {format : Document.Format} {b : Option Break}

/-! ## Reading the file -/

section

variable {s : State} {i : WatcherId} {w : Watcher}

end

/-! ## Turns -/

/-- The outcomes of a watcher that nobody has asked for yet. -/
def outcomes (s : State) (i : WatcherId) : List Outcome :=
  match s.watchers[i]? with
  | none => []
  | some w => w.outcomes

/-- What may happen, in any order. -/
inductive Deed where
  /-- A watcher does what it has to do now. -/
  | turn (i : WatcherId)
  /-- Somebody asks for the file of a watcher to be applied at once. -/
  | reload (i : WatcherId)
  /-- Somebody asks for the next outcome of a watcher. -/
  | take (i : WatcherId)
  | stop (i : WatcherId)
  /-- Time passes. -/
  | wait (milliseconds : Nat)
  /-- Something happens to the files or to the loggers. -/
  | meanwhile (logging : Logging.State)

/-- What a deed does. -/
def act (s : State) : Deed → State
  | .turn i => s.turn i
  | .reload i => (s.reload i).1
  | .take i => (s.take i).1
  | .stop i => s.stop i
  | .wait milliseconds => { s with now := s.now + milliseconds }
  | .meanwhile logging => { s with config := { s.config with logging } }

/-- What deeds do one after the other. -/
def course (s : State) (deeds : List Deed) : State := deeds.foldl act s

/-- The outcomes of a watcher that a deed hands over. -/
def received (i : WatcherId) (s : State) : Deed → List Outcome
  | .take j => if j = i then (s.take j).2.toList else []
  | _ => []

/-- A file with a document, and a facade that prints the messages of records. -/
def surroundings : Logging.State :=
  let files := ((Files.Store.start []).write "app.json" "\x7b\"a\": 1, \"b\": 2\x7d".toUTF8).1
  let logging := ({ files, facade := some 0 } : Logging.State).addManager.1
  (logging.setPattern 0 (.compile .universal "%m")).1

/-- Two watchers of the file, and one of a file that has been removed. The first task is broken off
when the listener of the second variable is told of its change. -/
def scene : State where
  config := (Config.State.fresh surroundings).session [
    .obtain "a" (.whole .i32) (.whole 0) "", .obtain "b" (.whole .i32) (.whole 0) "", .listen 1 {}]
  watchers := #[
    { path := "/app.json", directory := 0, file := "app.json", quiet := 20, taken := 2,
      pending := some { since := 0, change := .write } },
    { path := "/app.json", directory := 0, file := "app.json", quiet := 20, taken := 2,
      pending := some { since := 0, change := .remove } },
    { path := "/old.json", directory := 0, file := "old.json", quiet := 20, taken := 2,
      pending := some { since := 0, change := .remove } }]
  now := 20
  breaks n := if n = 0 then some { moment := 4, text := "panic" } else none

end State

end ConfigLog.Watch
