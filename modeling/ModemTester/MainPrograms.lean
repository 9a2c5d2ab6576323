import ModemTester.Link.PingPath
import ModemTester.Process

/-
  The two programs as `main` starts them.

  The master program runs a `MasterPinger` and nothing else:
  `MasterFSM` and `MasterController` are left out, so that no
  mode command is ever written. The remote program starts
  `RemoteFSM`, whose `RemoteIdle` reads one byte and arms no
  further read unless the byte makes a transition.

  A byte that completes the read of the remote waits in its
  buffer until `HandleReadEvt` runs. The line may delay and
  lose bytes; errors on the streams are left out.

  Key definitions include:
    * `MainPrograms`
    * `MainPrograms.step`

  Main declarations:
    * `MainPrograms.never_answered`
-/

------------------------------------------------------------
-- The Programs
------------------------------------------------------------

namespace ModemTester

/- `handled` is the number of bytes the remote has handled. -/
structure MainPrograms where
  pinger : PingerLoop
  toRemote : List Byte
  remote : Process RemoteState
  buffer : List Byte
  toMaster : List Byte
  handled : Nat

inductive MainLabel where
  /- The master's thread, or `stop()` from `main`. -/
  | pinger (label : PingerLabel)
  /- The handler of the master reads a byte. -/
  | masterReads (now : Int)
  | readCompletes
  | handleReadEvt
  | timerExpires (timer : Nat)
  | dispatchTimeout (timer : Nat)
  | loseToRemote (index : Nat)
  | loseToMaster (index : Nat)
  deriving DecidableEq, Repr

namespace MainPrograms

def start : MainPrograms where
  pinger := PingerLoop.start
  toRemote := []
  remote := Process.start remoteFsm
  buffer := []
  toMaster := []
  handled := 0

/- The byte that a step of the master's thread writes. -/
def written (s : MainPrograms) : PingerLabel → List Byte
  | .write => [s.pinger.byte]
  | _ => []

/- What the remote writes when it dispatches an event. -/
def remoteWrites
    (s : MainPrograms)
    (event : Option Event) : List Byte :=
  match event with
  | none => []
  | some event =>
      (remoteFsm.dispatch s.remote.current event).1

def step (s : MainPrograms) :
    MainLabel → Option MainPrograms
  | .pinger (.receive _ _ _) => none
  | .pinger label =>
      (s.pinger.step label).map fun pinger =>
        { s with
          pinger := pinger
          toRemote := s.toRemote ++ s.written label }
  | .masterReads now =>
      match s.toMaster with
      | [] => none
      | byte :: rest =>
          (s.pinger.step (.receive 0 now [byte])).map
            fun pinger =>
              { s with pinger := pinger, toMaster := rest }
  | .readCompletes =>
      match s.toRemote with
      | [] => none
      | byte :: rest =>
          (s.remote.step remoteFsm .readCompletes).map
            fun remote =>
              { s with
                toRemote := rest
                remote := remote
                buffer := s.buffer ++ [byte] }
  | .handleReadEvt =>
      match s.buffer with
      | [] => none
      | byte :: rest =>
          (s.remote.step remoteFsm (.handleReadEvt byte)).map
            fun remote =>
              { s with
                remote := remote
                buffer := rest
                toMaster := s.toMaster ++
                  s.remoteWrites (readEvt byte)
                handled := s.handled + 1 }
  | .timerExpires timer =>
      (s.remote.step remoteFsm (.timerExpires timer)).map
        fun remote => { s with remote := remote }
  | .dispatchTimeout timer =>
      (s.remote.step remoteFsm (.dispatchTimeout timer)).map
        fun remote =>
          { s with
            remote := remote
            toMaster := s.toMaster ++
              s.remoteWrites (some .timeout) }
  | .loseToRemote index =>
      if index < s.toRemote.length then
        some { s with toRemote := s.toRemote.eraseIdx index }
      else
        none
  | .loseToMaster index =>
      if index < s.toMaster.length then
        some { s with toMaster := s.toMaster.eraseIdx index }
      else
        none

------------------------------------------------------------
-- The Invariant
------------------------------------------------------------

/- Bytes of the test, which are no identifiers of events. -/
def Codes (bytes : List Byte) : Prop :=
  ∀ byte ∈ bytes, byte.val < PingerLoop.nbCodes

theorem Codes.readEvt
    {bytes : List Byte}
    {byte : Byte}
    (hCodes : Codes bytes)
    (hByte : byte ∈ bytes) :
    ModemTester.readEvt byte = none :=
  readEvt_eq_none_of_isStandardCode
    (PingerLoop.isStandardCode_of_lt (hCodes byte hByte))

/-
  The remote is idle, has no timer and makes one read; the
  master has booked nothing.
-/
structure Unheard (s : MainPrograms) : Prop where
  byte : s.pinger.byte.val < PingerLoop.nbCodes
  toRemote : Codes s.toRemote
  buffer : Codes s.buffer
  current : s.remote.current = .remoteIdle
  waits : s.remote.waits = []
  reads : s.remote.pendingReads + s.remote.completedReads +
    s.handled = 1
  toMaster : s.toMaster = []
  silent : PingerLoop.Silent PingerLoop.start s.pinger
  received : s.pinger.pinger.received = 0
  lost : s.pinger.pinger.lost = 0

theorem unheard_start : Unheard start where
  byte := by decide
  toRemote := by simp [Codes, start]
  buffer := by simp [Codes, start]
  current := rfl
  waits := rfl
  reads := rfl
  toMaster := rfl
  silent := by
    refine ⟨le_rfl, le_rfl, ⟨le_rfl, le_rfl⟩,
      PingerLoop.readingsOld_of_none rfl, ?_⟩
    intro _ _ _ hMany
    exact absurd hMany (by decide)
  received := rfl
  lost := rfl

variable {s s' : MainPrograms}

theorem Unheard.pinger
    {label : PingerLabel}
    (hUnheard : Unheard s)
    (hStep : step s (.pinger label) = some s') :
    Unheard s' := by
  have hReceive : ∀ ec now bytes,
      label ≠ .receive ec now bytes := by
    rintro ec now bytes rfl
    simp [step] at hStep
  have hLoop : (s.pinger.step label).map (fun pinger =>
      { s with
        pinger := pinger
        toRemote := s.toRemote ++ s.written label }) =
      some s' := by
    cases label <;> first
      | exact hStep
      | exact absurd rfl (hReceive _ _ _)
  rcases Option.map_eq_some_iff.mp hLoop with
    ⟨pinger, hTaken, rfl⟩
  rcases PingerLoop.counters_of_step hReceive hTaken with
    ⟨hReceived, hLost, -⟩
  refine ⟨PingPath.byte_lt_of_step hUnheard.byte hTaken, ?_,
    hUnheard.buffer, hUnheard.current, hUnheard.waits,
    hUnheard.reads, hUnheard.toMaster,
    hUnheard.silent.step hTaken,
    hReceived.trans hUnheard.received,
    hLost.trans hUnheard.lost⟩
  intro byte hByte
  rcases List.mem_append.mp hByte with hOld | hNew
  · exact hUnheard.toRemote byte hOld
  · cases label <;> simp [written] at hNew
    rw [hNew]
    exact hUnheard.byte

/- The one read of the remote takes a byte. -/
theorem Unheard.readCompletes
    (hUnheard : Unheard s)
    (hStep : step s .readCompletes = some s') :
    Unheard s' := by
  have hCodes := hUnheard.toRemote
  have hReads := hUnheard.reads
  simp only [step] at hStep
  split at hStep
  · cases hStep
  · rename_i byte rest hLine
    rw [hLine] at hCodes
    simp only [Process.step, Option.map_eq_some_iff] at hStep
    rcases hStep with ⟨remote, hTaken, rfl⟩
    split at hTaken
    · rename_i hPending
      cases hTaken
      refine ⟨hUnheard.byte, ?_, ?_, hUnheard.current,
        hUnheard.waits, ?_, hUnheard.toMaster,
        hUnheard.silent, hUnheard.received, hUnheard.lost⟩
      · intro other hOther
        exact hCodes other (List.mem_cons_of_mem _ hOther)
      · intro other hOther
        rcases List.mem_append.mp hOther with hOld | hNew
        · exact hUnheard.buffer other hOld
        · rw [List.mem_singleton.mp hNew]
          exact hCodes byte List.mem_cons_self
      · simp only
        omega
    · cases hTaken

/- A code makes the remote do nothing, and read no more. -/
theorem Unheard.handleReadEvt
    (hUnheard : Unheard s)
    (hStep : step s .handleReadEvt = some s') :
    Unheard s' := by
  have hCodes := hUnheard.buffer
  have hReads := hUnheard.reads
  simp only [step] at hStep
  split at hStep
  · cases hStep
  · rename_i byte rest hBuffer
    rw [hBuffer] at hCodes
    have hNone := hCodes.readEvt List.mem_cons_self
    simp only [Process.step, Process.handleReadEvt, hNone,
      Option.map_eq_some_iff] at hStep
    rcases hStep with ⟨remote, hTaken, rfl⟩
    split at hTaken
    · rename_i hCompleted
      cases hTaken
      refine ⟨hUnheard.byte, hUnheard.toRemote, ?_,
        hUnheard.current, hUnheard.waits, ?_, ?_,
        hUnheard.silent, hUnheard.received, hUnheard.lost⟩
      · intro other hOther
        exact hCodes other (List.mem_cons_of_mem _ hOther)
      · simp only
        omega
      · rw [hUnheard.toMaster]
        rfl
    · cases hTaken

theorem Unheard.step
    {label : MainLabel}
    (hUnheard : Unheard s)
    (hStep : MainPrograms.step s label = some s') :
    Unheard s' := by
  cases label with
  | pinger label => exact hUnheard.pinger hStep
  | readCompletes => exact hUnheard.readCompletes hStep
  | handleReadEvt => exact hUnheard.handleReadEvt hStep
  | masterReads now =>
      simp only [MainPrograms.step, hUnheard.toMaster] at hStep
      cases hStep
  | timerExpires timer =>
      simp only [MainPrograms.step, Process.step,
        Option.map_some, Option.some.injEq] at hStep
      subst hStep
      refine ⟨hUnheard.byte, hUnheard.toRemote,
        hUnheard.buffer, hUnheard.current, ?_,
        hUnheard.reads, hUnheard.toMaster, hUnheard.silent,
        hUnheard.received, hUnheard.lost⟩
      simp only [hUnheard.waits, List.map_nil]
  | dispatchTimeout timer =>
      have hNone : s.remote.queuedWait? timer = none := by
        rw [Process.queuedWait?, hUnheard.waits]
        rfl
      simp only [MainPrograms.step, Process.step, hNone,
        Option.map_none] at hStep
      cases hStep
  | loseToRemote index =>
      simp only [MainPrograms.step] at hStep
      split at hStep
      · cases hStep
        refine ⟨hUnheard.byte, ?_, hUnheard.buffer,
          hUnheard.current, hUnheard.waits, hUnheard.reads,
          hUnheard.toMaster, hUnheard.silent,
          hUnheard.received, hUnheard.lost⟩
        intro byte hByte
        exact hUnheard.toRemote byte
          ((List.eraseIdx_sublist _ _).subset hByte)
      · cases hStep
  | loseToMaster index =>
      simp only [MainPrograms.step, hUnheard.toMaster] at hStep
      cases hStep

/-
  Whatever the line does, the remote never leaves its idle
  state and writes nothing; with the first byte handled its
  event loop has neither a read nor a timer to wait for. The
  master books nothing, and from the fourth transmission on
  every check finds the remote unreachable.
-/
theorem never_answered
    {labels : List MainLabel}
    (hRun : StepSystem.run step start labels = some s) :
    s.remote.current = .remoteIdle ∧
      s.toMaster = [] ∧
      s.handled ≤ 1 ∧
      (s.handled = 1 → s.remote.pendingReads = 0 ∧
        s.remote.completedReads = 0 ∧ s.remote.waits = []) ∧
      s.pinger.pinger.received = 0 ∧
      s.pinger.pinger.lost = 0 ∧
      (s.pinger.point = .top → 4 ≤ s.pinger.pinger.sent →
        s.pinger.pinger.sent < ulongModulus →
          s.pinger.pinger.reachable = false) := by
  have hUnheard : Unheard s :=
    StepSystem.run_invariant
      (fun _ _ _ hUnheard hStep => hUnheard.step hStep)
      unheard_start hRun
  have hReads := hUnheard.reads
  refine ⟨hUnheard.current, hUnheard.toMaster, by omega, ?_,
    hUnheard.received, hUnheard.lost, ?_⟩
  · intro hHandled
    exact ⟨by omega, by omega, hUnheard.waits⟩
  · intro hTop hMany hSent
    exact hUnheard.silent.verdict hUnheard.received
      hUnheard.lost hSent hMany hTop

/- A byte arrives and is handled; the next one is not read. -/
theorem never_answered_after_byte :
    ∃ s, StepSystem.run step start
        [.pinger .write, .pinger .countSent, .readCompletes,
          .pinger (.record 0), .handleReadEvt, .pinger .advance,
          .pinger .readReceived, .pinger .check,
          .pinger .write] = some s ∧
      s.pinger.pinger.reachable = true ∧
      s.toRemote = [1] ∧
      s.remote.pendingReads = 0 := by
  refine ⟨_, rfl, rfl, rfl, ?_⟩
  exact ((@never_answered _
    [.pinger .write, .pinger .countSent, .readCompletes,
      .pinger (.record 0), .handleReadEvt, .pinger .advance,
      .pinger .readReceived, .pinger .check,
      .pinger .write] rfl).2.2.2.1 rfl).1

end MainPrograms

end ModemTester
