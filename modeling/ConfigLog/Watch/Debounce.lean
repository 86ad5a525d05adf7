import ConfigLog.Files.Store

set_option autoImplicit false

/-! # Waiting for a file to settle

A file is often written in several steps. A change is therefore kept pending until no other has
followed for a while, and then acted upon once. The pending change is the latest one: `handle` takes
events in, and `tick` lets go of a change that has been pending for long enough. An event that is no
change of the file makes no difference (`handle_of_not_relevant`).
-/

namespace ConfigLog.Watch

/-- What a change of the file amounts to. -/
inductive Change where
  /-- There is a new text. -/
  | write
  /-- The file has gone. -/
  | remove
  deriving DecidableEq, Repr

/-- Something that happened to entries of the watched directory. -/
structure Event where
  kind : Files.NoticeKind
  /-- The names of the entries. -/
  names : List String
  deriving DecidableEq, Repr

/-- What an event of a kind amounts to, if it is a change at all. -/
def change? : Files.NoticeKind → Option Change
  | .created => some .write
  | .modified => some .write
  | .removed => some .remove
  | .accessed => none

/-- A change that has not been acted upon. -/
structure Pending where
  /-- When the latest change came in. -/
  since : Nat
  change : Change
  deriving DecidableEq, Repr

/-- The event is a change of the file. -/
def Event.isRelevant (e : Event) (file : String) : Bool :=
  (change? e.kind).isSome && e.names.contains file

/-- Takes in an event at a time. Only changes of the file count, and the latest one replaces what
was pending. -/
def handle (file : String) (now : Nat) (pending : Option Pending) (e : Event) : Option Pending :=
  match change? e.kind with
  | none => pending
  | some change => if e.names.contains file then some { since := now, change } else pending

theorem handle_of_not_relevant {e : Event} {file : String} (h : e.isRelevant file = false)
    (now : Nat) (pending : Option Pending) : handle file now pending e = pending := by
  simp only [Event.isRelevant] at h
  unfold handle
  cases hc : change? e.kind with
  | none => rfl
  | some change =>
    rw [hc, Option.isSome_some, Bool.true_and] at h
    simp only [h]
    rfl

/-- Lets go of the pending change if nothing has followed it for the quiet time. -/
def tick (quiet now : Nat) (pending : Option Pending) : Option Pending × Option Change :=
  match pending with
  | none => (none, none)
  | some p => if p.since + quiet ≤ now then (none, some p.change) else (some p, none)

/-- The time between two ticks for a quiet time. -/
def tickRate (quiet : Nat) : Nat := if quiet < 50 then max quiet 1 else quiet / 5

end ConfigLog.Watch
