import ModemTester.Events
import ModemTester.Library.OrderedMap
import ModemTester.Library.StepSystem

/-
  The master's availability test (`MasterPinger.h`,
  `MasterPinger.cpp`): the counters, the handler of received
  bytes, and the send loop in steps between which handlers
  of the io thread may run.

  Counters count without bound; `unsigned long` subtraction,
  where a wrap would show, is taken modulo 2^64. Clock
  readings and the sum of round-trip times are exact clock
  ticks instead of the source's `double` seconds.

  Key definitions include:
    * `MasterPinger`
    * `MasterPinger.handleReceive`
    * `PingerLoop`
    * `PingerLoop.step`
-/

------------------------------------------------------------
-- Counters
------------------------------------------------------------

namespace ModemTester

/- `AVAIL_THRESHOLD`. -/
def availThreshold : Nat := 3

/- One more than the largest `unsigned long`. -/
def ulongModulus : Nat := 18446744073709551616

/-
  `_sendTimes` maps each outstanding code to its date, in
  ticks of the clock. `rtt` is the exact sum of the round
  trips in ticks, where `_rtt` adds them up as a `double` of
  seconds.
-/
structure MasterPinger where
  sent : Nat
  lost : Nat
  received : Nat
  rtt : Int
  reachable : Bool
  sendTimes : OrderedMap Byte Int
  stopRequested : Bool

namespace MasterPinger

/- The constructor. -/
def initial : MasterPinger where
  sent := 0
  lost := 0
  received := 0
  rtt := 0
  reachable := false
  sendTimes := OrderedMap.empty
  stopRequested := false

/-
  `_sent - (_received + _lost)` in `unsigned long`, from a
  value of `_sent`, of `_received` and of `_lost`.
-/
def inFlight (sent received lost : Nat) : Nat :=
  (sent + (ulongModulus - (received + lost) % ulongModulus)) %
    ulongModulus

------------------------------------------------------------
-- Received Bytes
------------------------------------------------------------

/- The command switch of `handleReceive`. -/
def commandOf (byte : Byte) : Option Event :=
  if byte = remoteAckId then
    some .remoteAck
  else if byte = endTestId then
    some .endTest
  else if byte = endModeCommandId then
    some .endModeCommand
  else
    none

/-
  An echoed code: what was sent before it, in the order of
  the map, is counted as lost.
-/
def matchEcho
    (p : MasterPinger)
    (recvTime : Int)
    (byte : Byte) : MasterPinger :=
  match p.sendTimes.find? byte with
  | some sendTime =>
      { p with
        rtt := p.rtt + (recvTime - sendTime)
        received := p.received + 1
        lost := p.lost + p.sendTimes.distance byte
        sendTimes := p.sendTimes.eraseThrough byte }
  | none => p

/-
  The loop over the bytes read. A command is dispatched and
  ends the handler; the event is returned.
-/
def handleBytes
    (recvTime : Int) :
    MasterPinger → List Byte → MasterPinger × Option Event
  | p, [] => (p, none)
  | p, byte :: bytes =>
      if IsStandardCode byte then
        handleBytes recvTime (p.matchEcho recvTime byte) bytes
      else
        match commandOf byte with
        | some event => (p, some event)
        | none => handleBytes recvTime p bytes

/-
  `handleReceive`: the new state and the event dispatched.
  Error 125 is the cancellation of the read; without an
  error and without an event the read is armed again.
-/
def handleReceive
    (p : MasterPinger)
    (ec : Nat)
    (recvTime : Int)
    (bytes : List Byte) : MasterPinger × Option Event :=
  if ec = 0 then
    handleBytes recvTime p bytes
  else if ec = 125 then
    (p, none)
  else
    ({ p with stopRequested := true }, some .endTest)

------------------------------------------------------------
-- What A Handler Changes
------------------------------------------------------------

@[simp] theorem matchEcho_sent
    (p : MasterPinger)
    (recvTime : Int)
    (byte : Byte) :
    (p.matchEcho recvTime byte).sent = p.sent := by
  unfold matchEcho
  split <;> rfl

theorem matchEcho_keys_subset
    (p : MasterPinger)
    (recvTime : Int)
    (byte : Byte) :
    (p.matchEcho recvTime byte).sendTimes.keys ⊆
      p.sendTimes.keys := by
  unfold matchEcho
  split
  · simp only [OrderedMap.keys_eraseThrough]
    exact Finset.filter_subset _ _
  · exact Finset.Subset.refl _

/- A code without an entry changes nothing. -/
theorem matchEcho_of_notMem
    {p : MasterPinger}
    {recvTime : Int}
    {byte : Byte}
    (hNotMem : byte ∉ p.sendTimes.keys) :
    p.matchEcho recvTime byte = p := by
  unfold matchEcho
  rw [(p.sendTimes.find?_eq_none_iff byte).mpr hNotMem]

theorem matchEcho_of_find
    {p : MasterPinger}
    {recvTime sendTime : Int}
    {byte : Byte}
    (hFind : p.sendTimes.find? byte = some sendTime) :
    p.matchEcho recvTime byte =
      { p with
        rtt := p.rtt + (recvTime - sendTime)
        received := p.received + 1
        lost := p.lost + p.sendTimes.distance byte
        sendTimes := p.sendTimes.eraseThrough byte } := by
  simp only [matchEcho, hFind]

/- A matched code takes every smaller one with it. -/
theorem keys_matchEcho_of_mem
    {p : MasterPinger}
    {recvTime : Int}
    {byte : Byte}
    (hMem : byte ∈ p.sendTimes.keys) :
    (p.matchEcho recvTime byte).sendTimes.keys =
      p.sendTimes.keys.filter fun key => byte < key := by
  rcases (p.sendTimes.mem_keys_iff byte).mp hMem with
    ⟨sendTime, hFind⟩
  simp only [matchEcho, hFind]
  exact p.sendTimes.keys_eraseThrough byte

@[simp] theorem matchEcho_stopRequested
    (p : MasterPinger)
    (recvTime : Int)
    (byte : Byte) :
    (p.matchEcho recvTime byte).stopRequested =
      p.stopRequested := by
  unfold matchEcho
  split <;> rfl

/- What no echo changes, the handler's loop keeps. -/
theorem handleBytes_induction
    {P : MasterPinger → Prop}
    (hEcho : ∀ p recvTime byte, P p →
      P (matchEcho p recvTime byte))
    (recvTime : Int)
    (bytes : List Byte)
    {p : MasterPinger}
    (hStart : P p) :
    P (handleBytes recvTime p bytes).1 := by
  induction bytes generalizing p with
  | nil => exact hStart
  | cons byte bytes ih =>
      simp only [handleBytes]
      split
      · apply ih
        exact hEcho p recvTime byte hStart
      · split
        · exact hStart
        · exact ih hStart

/- Handling one byte that was read without error. -/
theorem handleReceive_singleton
    (p : MasterPinger)
    (recvTime : Int)
    (byte : Byte) :
    (p.handleReceive 0 recvTime [byte]).1 =
      if IsStandardCode byte then p.matchEcho recvTime byte
      else p := by
  simp only [handleReceive, handleBytes, if_true]
  split
  · rfl
  · cases commandOf byte <;> rfl

end MasterPinger

------------------------------------------------------------
-- The Send Loop
------------------------------------------------------------

/-
  Where the loop stands: at its test, or after the write,
  after `_sent++`, after `_sendTimes[byte] = now()`, after
  the next code is chosen, or inside the reachability check
  with one of the two counters read.
-/
inductive LoopPoint where
  | top
  | written
  | counted
  | recorded
  | waiting
  | readReceived (received : Nat)
  | readLost (lost : Nat)
  deriving DecidableEq, Repr

structure PingerLoop where
  pinger : MasterPinger
  byte : Byte
  point : LoopPoint

/- The steps of the loop, and what may run between them. -/
inductive PingerLabel where
  | write
  | countSent
  | record (now : Int)
  | advance
  | readReceived
  | readLost
  | check
  | receive (ec : Nat) (now : Int) (bytes : List Byte)
  | requestStop
  deriving DecidableEq, Repr

namespace PingerLoop

/- `nbCodes`. -/
def nbCodes : Nat :=
  endStandardCodes.val - beginStandardCodes.val

/- `(byte + 1 - BeginStandardCodes) % nbCodes + ...`. -/
def nextCode (byte : Byte) : Byte :=
  Fin.ofNat 256
    ((byte.val + 1 - beginStandardCodes.val) % nbCodes +
      beginStandardCodes.val)

def start : PingerLoop where
  pinger := MasterPinger.initial
  byte := beginStandardCodes
  point := .top

/- The reachability check on the values read. -/
def setReachable
    (l : PingerLoop)
    (received lost : Nat) : PingerLoop :=
  { l with
    pinger :=
      { l.pinger with
        reachable := decide
          (MasterPinger.inFlight l.pinger.sent received lost ≤
            availThreshold) }
    point := .top }

def step (l : PingerLoop) : PingerLabel → Option PingerLoop
  | .write =>
      if l.point = .top ∧ l.pinger.stopRequested = false then
        some { l with point := .written }
      else
        none
  | .countSent =>
      if l.point = .written then
        some
          { l with
            pinger :=
              { l.pinger with sent := l.pinger.sent + 1 }
            point := .counted }
      else
        none
  | .record now =>
      if l.point = .counted then
        some
          { l with
            pinger :=
              { l.pinger with
                sendTimes :=
                  l.pinger.sendTimes.assign l.byte now }
            point := .recorded }
      else
        none
  | .advance =>
      if l.point = .recorded then
        some
          { l with
            byte := nextCode l.byte
            point := .waiting }
      else
        none
  | .readReceived =>
      if l.point = .waiting then
        some { l with point := .readReceived l.pinger.received }
      else
        none
  | .readLost =>
      if l.point = .waiting then
        some { l with point := .readLost l.pinger.lost }
      else
        none
  | .check =>
      match l.point with
      | .readReceived received =>
          some (l.setReachable received l.pinger.lost)
      | .readLost lost =>
          some (l.setReachable l.pinger.received lost)
      | _ => none
  | .receive ec now bytes =>
      some
        { l with
          pinger := (l.pinger.handleReceive ec now bytes).1 }
  | .requestStop =>
      some
        { l with
          pinger := { l.pinger with stopRequested := true } }

theorem nextCode_val
    (byte : Byte) :
    (nextCode byte).val = (byte.val + 1) % nbCodes := by
  have hCodes : nbCodes = 240 := rfl
  simp only [nextCode, beginStandardCodes, Fin.val_ofNat,
    Fin.val_zero, Nat.sub_zero, Nat.add_zero, hCodes] at *
  omega

/- Bytes below 240 are standard codes. -/
theorem isStandardCode_of_lt
    {byte : Byte}
    (hLt : byte.val < nbCodes) :
    IsStandardCode byte :=
  ⟨Fin.zero_le _, le_of_lt hLt⟩

end PingerLoop

end ModemTester
