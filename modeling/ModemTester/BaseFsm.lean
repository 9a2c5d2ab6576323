import ModemTester.Events

/-
  The part of `BaseFSM` and of `tinyfsm::Fsm` that both
  machines share: states, reactions and transitions.

  `dispatch` sends an event to the current state. Its
  overloads are chosen on `BaseFSM`, so `EndTest` always
  reaches `BaseFSM::react(EndTest const &)`, which no state
  overrides; every other event reaches the state's own
  `react(EventWithId const &)`.

  Key definitions include:
    * `StateKind`
    * `Reaction`
    * `Fsm`
    * `Fsm.dispatch`
-/

------------------------------------------------------------
-- States And Reactions
------------------------------------------------------------

namespace ModemTester

/-
  The base class of a state: `BaseFSM` itself,
  `TimerBasedState` or `ActivityState`.
-/
inductive StateKind where
  | base
  | timerBased
  | activity
  deriving DecidableEq, Repr

/-
  What `react` does: the bytes it writes, then at most one
  `transit<S>()`.
-/
structure Reaction (S : Type) where
  sent : List Byte
  transit : Option S

namespace Reaction

variable {S : Type}

/- `transit<S>()` with nothing written before. -/
def transitTo (state : S) : Reaction S :=
  ⟨[], some state⟩

/- `SendByte(byte); transit<S>()`. -/
def sendAndTransitTo (byte : Byte) (state : S) : Reaction S :=
  ⟨[byte], some state⟩

/- The branch that ignores the event. -/
def ignore : Reaction S :=
  ⟨[], none⟩

/- `_wrongEventHandler(evt)`, which only logs. -/
def wrongEvent : Reaction S :=
  ⟨[], none⟩

end Reaction

/- A machine over the states `S`. -/
structure Fsm (S : Type) where
  initialState : S
  kind : S → StateKind
  /- The bytes that the `entry` of a state writes. -/
  entrySends : S → List Byte
  react : S → Event → Reaction S

------------------------------------------------------------
-- Dispatch
------------------------------------------------------------

/- Where a dispatch leaves the machine. -/
inductive Outcome (S : Type) where
  | stays
  | transits (state : S)
  | exits
  deriving DecidableEq, Repr

/- The machine took a transition, possibly to itself. -/
def Outcome.isTransit {S : Type} : Outcome S → Bool
  | .transits _ => true
  | _ => false

namespace Fsm

variable {S : Type}

/-
  `dispatch(event)` in `state`: the bytes written, in order,
  and the outcome. `exit` writes nothing, and the target's
  `entry` writes after `react` did.
-/
def dispatch
    (fsm : Fsm S)
    (state : S)
    (event : Event) :
    List Byte × Outcome S :=
  match event with
  | .endTest => ([endTestId], .exits)
  | event =>
      let reaction := fsm.react state event
      match reaction.transit with
      | none => (reaction.sent, .stays)
      | some target =>
          (reaction.sent ++ fsm.entrySends target,
            .transits target)

/- The event makes the state take a transition. -/
def Accepts
    (fsm : Fsm S)
    (state : S)
    (event : Event) : Prop :=
  (fsm.dispatch state event).2.isTransit = true

instance
    (fsm : Fsm S)
    (state : S)
    (event : Event) :
    Decidable (fsm.Accepts state event) := by
  unfold Accepts
  infer_instance

end Fsm

end ModemTester
