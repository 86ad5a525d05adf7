import ConfigLog.Logging.Delivery

set_option autoImplicit false

/-! # The bridge for records

Records about the program itself go to the logger of their target, or of the nearest target above
it, or to the root. Writing one can bring about others. They find the `bridging` flag set and become
lines on standard error, so the writing ends. `State.bridgeWithin` counts the depth only to be
total, and two is all that is ever used: within a write the depth makes no difference
(`bridgeWithin_of_bridging`).
-/

namespace ConfigLog.Logging

/-! ## Targets -/

/-- What stands before the last double colon of a text, both in reverse. -/
def beforeColons : List Char → Option (List Char)
  | [] => none
  | [_] => none
  | a :: b :: r => if a == ':' && b == ':' then some r else beforeColons (b :: r)

theorem length_beforeColons {cs r : List Char} (h : beforeColons cs = some r) :
    r.length < cs.length := by
  fun_induction beforeColons cs with
  | case1 => cases h
  | case2 => cases h
  | case3 a b t hab =>
    cases h
    simp only [List.length_cons]
    omega
  | case4 a b t hab ih =>
    have := ih h
    simp only [List.length_cons] at this ⊢
    omega

/-- A target in reverse, and the targets above it from the nearest one on. -/
def targetsAbove (reversed : List Char) : List String :=
  String.ofList reversed.reverse ::
    match _h : beforeColons reversed with
    | some r => targetsAbove r
    | none => []
  termination_by reversed.length
  decreasing_by exact length_beforeColons _h

namespace State

/-- The logger for records of a target. -/
def route (s : State) (m : ManagerId) (target : String) : LoggerId :=
  ((targetsAbove target.toList.reverse).findSome? (s.manager m).find?).getD (s.manager m).root

/-- The bridge takes records of a target and a level. -/
def bridgeAccepts (s : State) (m : ManagerId) (target : String) (level : FacadeLevel) : Bool :=
  (s.logger (s.route m target)).accepts level.toLevel

/-! ## Writing records -/

/-- The line on standard error for a record that comes about while another one is written. -/
def nestedLine (r : Record) : String :=
  "[" ++ r.level.toLevel.name ++ "] " ++ r.target ++ ": " ++ r.message ++ "\n"

/-- Writes a record through the bridge of a manager, with a bound on the depth of records that
bring about others. -/
def bridgeWithin : Nat → ManagerId → Report
  | 0, _, _, s => s
  | depth + 1, m, r, s =>
    if !s.bridgeAccepts m r.target r.level then s
    else if s.bridging then { s with complaints := s.complaints ++ [nestedLine r] }
    else
      let report : Report := fun r s =>
        match s.facade with
        | none => s
        | some m => bridgeWithin depth m r s
      let i := s.route m r.target
      { ({ s with bridging := true } : State).logWith report i r.level.toLevel
          (r.event s.stamp) with
        bridging := false }

/-- While a record is being written, one more is a line on standard error or nothing. -/
theorem bridgeWithin_of_bridging {s : State} (h : s.bridging = true) (depth : Nat) (m : ManagerId)
    (r : Record) :
    bridgeWithin (depth + 1) m r s =
      if s.bridgeAccepts m r.target r.level then
        { s with complaints := s.complaints ++ [nestedLine r] }
      else s := by
  simp only [bridgeWithin, h]
  cases s.bridgeAccepts m r.target r.level <;> simp

/-- Writes a record through the bridge of a manager. -/
def bridge (m : ManagerId) : Report := bridgeWithin 2 m

/-- What becomes of the records of the program itself: they go to the facade if there is one. -/
def emit (s : State) (r : Record) : State :=
  match s.facade with
  | none => s
  | some m => bridge m r s

theorem emit_of_facade_eq_none {s : State} (h : s.facade = none) (r : Record) : s.emit r = s := by
  simp [emit, h]

/-- Hands an event to a logger; its failures go to the facade. -/
def log (s : State) (i : LoggerId) (level : Level) (e : Event) : State :=
  s.logWith (fun r s => s.emit r) i level e

/-- Hands an event to an appender, with the name of a logger to print. -/
def logTo (s : State) (i : AppenderId) (logger : String) (level : Level) (e : Event) :
    State × Except LogError Unit :=
  s.hand (fun r s => s.emit r) i logger level e

end State

end ConfigLog.Logging
