import ModemTester.Library.StepSystem
import ModemTester.Master.MasterThroughput
import ModemTester.Remote.RemoteActivities

/-
  Who reads the stream in an activity mode (`BaseFSM.h`,
  `AISO.h`, and the four activities).

  `ActivityState::entry` starts the runnable's thread and
  then arms a read of `HandleReadEvt`. The runnable cancels
  all reads and then arms its own. Reads that are pending
  are served in the order in which they were armed; a byte
  that a read has been given stays with it when the stream
  is cancelled.

  The activity owns the stream exactly in the runs in which
  the cancel comes after the read of the entry was armed and
  before it was given a byte. In `RemoteAvailabilityMode`
  the remote then writes back what it should.

  Key definitions include:
    * `StreamRun`
    * `StreamRun.step`
    * `StreamRun.TakenStep`
    * `StreamRun.Owned`
    * `StreamRun.Ordered`

  Main declarations:
    * `StreamRun.owned_iff_ordered`
    * `StreamRun.byte_lost`
-/

------------------------------------------------------------
-- Modes
------------------------------------------------------------

namespace ModemTester

inductive ActivityMode where
  | availabilityMode
  | throughputMode
  | remoteAvailabilityMode
  | remoteThroughputMode
  deriving DecidableEq, Repr

namespace ActivityMode

/- What `handleReceive` of the activity does with a byte. -/
def handleByte (mode : ActivityMode) (byte : Byte) : Handling :=
  let ofRead (read : Option Event) : Handling :=
    match read with
    | some event => .dispatch event
    | none => .ignore
  match mode with
  | .availabilityMode =>
      ofRead (MasterState.readByte .availabilityMode byte)
  | .throughputMode =>
      ofRead (MasterState.readByte .throughputMode byte)
  | .remoteAvailabilityMode =>
      RemoteState.handleByte .remoteAvailabilityMode byte
  | .remoteThroughputMode =>
      RemoteState.handleByte .remoteThroughputMode byte

/- The event ends the mode, or enters it again. -/
def leaves (mode : ActivityMode) (event : Event) : Bool :=
  match mode with
  | .availabilityMode =>
      (masterFsm.dispatch .availabilityMode event).2 ≠ .stays
  | .throughputMode =>
      (masterFsm.dispatch .throughputMode event).2 ≠ .stays
  | .remoteAvailabilityMode =>
      (remoteFsm.dispatch .remoteAvailabilityMode event).2 ≠
        .stays
  | .remoteThroughputMode =>
      (remoteFsm.dispatch .remoteThroughputMode event).2 ≠
        .stays

/-
  The size of the reads that `handleReceive` arms. The first
  read of an activity is of one byte in all modes.
-/
def bufferSize : ActivityMode → Nat
  | .remoteThroughputMode => 255
  | _ => 1

end ActivityMode

------------------------------------------------------------
-- Reads
------------------------------------------------------------

inductive ReadHandler where
  | handleReadEvt
  | handleReceive
  | receiveResults
  deriving DecidableEq, Repr

/- A read that is pending. -/
structure StreamRead where
  handler : ReadHandler
  size : Nat
  deriving DecidableEq, Repr

/- `async_read` waits for all its bytes. -/
def StreamRead.takes (read : StreamRead) (count : Nat) : Prop :=
  match read.handler with
  | .receiveResults => count = read.size
  | _ => 1 ≤ count ∧ count ≤ read.size

instance (read : StreamRead) : DecidablePred read.takes := by
  intro count
  unfold StreamRead.takes
  split
  · infer_instance
  · infer_instance

/- A handler that is queued; a cancelled read has no bytes. -/
structure ReadCompletion where
  handler : ReadHandler
  bytes : Option (List Byte)
  deriving DecidableEq, Repr

/- How far the thread of the runnable is. -/
inductive RunnablePhase where
  | started
  | cancelled
  | armed
  | inResults
  deriving DecidableEq, Repr

/-
  `unread` are the bytes that no read has been given,
  `received` all that have come, `taken` those given to the
  read of `HandleReadEvt`, and `echoed` those that
  `RemotePinger` has written back.
-/
structure StreamRun where
  mode : ActivityMode
  entryArmed : Bool
  runnable : RunnablePhase
  ioInResults : Bool
  resultsReady : Bool
  pending : List StreamRead
  ready : List ReadCompletion
  unread : List Byte
  received : List Byte
  taken : List Byte
  echoed : List Byte
  ended : Bool
  deriving DecidableEq, Repr

------------------------------------------------------------
-- Handlers
------------------------------------------------------------

namespace StreamRun

/-
  The thread of the runnable has been started. The bytes
  `unread` came before.
-/
def start (mode : ActivityMode) (unread : List Byte) :
    StreamRun where
  mode := mode
  entryArmed := false
  runnable := .started
  ioInResults := false
  resultsReady := false
  pending := []
  ready := []
  unread := unread
  received := unread
  taken := []
  echoed := []
  ended := false

/- `_ioStream->cancel()`. -/
def cancelReads (s : StreamRun) : StreamRun :=
  { s with
    pending := []
    ready := s.ready ++
      s.pending.map fun read => ⟨read.handler, none⟩ }

def armRead
    (handler : ReadHandler)
    (size : Nat)
    (s : StreamRun) : StreamRun :=
  { s with pending := s.pending ++ [⟨handler, size⟩] }

/-
  The loop of `handleReceive`. It returns on a dispatch, and
  otherwise arms the next read.
-/
def handleReceive (s : StreamRun) : List Byte → StreamRun
  | [] => s.armRead .handleReceive s.mode.bufferSize
  | byte :: bytes =>
      match s.mode.handleByte byte with
      | .dispatch event => { s with ended := s.mode.leaves event }
      | .echo =>
          handleReceive { s with echoed := s.echoed ++ [byte] }
            bytes
      | .sendResults => handleReceive s bytes
      | .ignore => handleReceive s bytes

/- `HandleReadEvt`, which arms no other read. -/
def handleReadEvt (s : StreamRun) : List Byte → StreamRun
  | [] => s
  | byte :: bytes =>
      match readEvt byte with
      | some event =>
          handleReadEvt
            { s with ended := s.ended || s.mode.leaves event }
            bytes
      | none => handleReadEvt s bytes

/- A handler does nothing when its read was cancelled. -/
def runHandler
    (s : StreamRun)
    (completion : ReadCompletion) : StreamRun :=
  match completion.bytes with
  | none => s
  | some bytes =>
      match completion.handler with
      | .handleReadEvt => s.handleReadEvt bytes
      | .handleReceive => s.handleReceive bytes
      | .receiveResults => { s with resultsReady := true }

/- `getResults` cancels all reads and arms its own. -/
def getResults (s : StreamRun) : StreamRun :=
  { s.cancelReads.armRead .receiveResults 8 with
    resultsReady := false }

/- A read is given the next bytes. -/
def giveBytes
    (s : StreamRun)
    (read : StreamRead)
    (count : Nat) : StreamRun :=
  { s with
    ready := s.ready ++
      [⟨read.handler, some (s.unread.take count)⟩]
    unread := s.unread.drop count
    taken :=
      if read.handler = .handleReadEvt then
        s.taken ++ s.unread.take count
      else
        s.taken }

end StreamRun

------------------------------------------------------------
-- Steps
------------------------------------------------------------

inductive StreamLabel where
  /- `BaseFSM::entry` arms its read. -/
  | entry
  /- The first steps of the runnable. -/
  | cancel
  | arm
  /- `getResults` on the runnable's thread, and its end. -/
  | getResults
  | resumeRead
  /- `getResults` on the io thread, which does not return. -/
  | reportResults
  /- A byte comes; the first pending read is given some. -/
  | receive (byte : Byte)
  | complete (count : Nat)
  /- The io thread runs the next handler. -/
  | handle
  deriving DecidableEq, Repr

namespace StreamRun

/- A step in the mode; when that is over there is none. -/
def modeStep (s : StreamRun) : StreamLabel → Option StreamRun
  | .entry =>
      if s.entryArmed = false then
        some
          { s.armRead .handleReadEvt 1 with entryArmed := true }
      else none
  | .cancel =>
      if s.runnable = .started then
        some { s.cancelReads with runnable := .cancelled }
      else none
  | .arm =>
      if s.runnable = .cancelled then
        some
          { s.armRead .handleReceive 1 with runnable := .armed }
      else none
  | .getResults =>
      if s.mode = .throughputMode ∧ s.runnable = .armed then
        some { s.getResults with runnable := .inResults }
      else none
  | .resumeRead =>
      if s.runnable = .inResults ∧ s.resultsReady = true then
        some
          { s.armRead .handleReceive 1 with runnable := .armed }
      else none
  | .reportResults =>
      if s.mode = .throughputMode ∧ s.ioInResults = false ∧
          (s.runnable = .armed ∨ s.runnable = .inResults) then
        some { s.getResults with ioInResults := true }
      else none
  | .receive byte =>
      some
        { s with
          unread := s.unread ++ [byte]
          received := s.received ++ [byte] }
  | .complete count =>
      match s.pending with
      | read :: pending =>
          if read.takes count ∧ count ≤ s.unread.length then
            some
              (giveBytes { s with pending := pending } read
                count)
          else none
      | [] => none
  | .handle =>
      match s.ioInResults, s.ready with
      | false, completion :: ready =>
          some (runHandler { s with ready := ready } completion)
      | _, _ => none

def step
    (s : StreamRun)
    (label : StreamLabel) : Option StreamRun :=
  if s.ended = true then none else s.modeStep label

------------------------------------------------------------
-- Ownership
------------------------------------------------------------

/- The entry and the runnable have armed their reads. -/
def BothDone (s : StreamRun) : Prop :=
  s.entryArmed = true ∧
    (s.runnable = .armed ∨ s.runnable = .inResults)

instance (s : StreamRun) : Decidable s.BothDone := by
  unfold BothDone
  infer_instance

def IsEnd (byte : Byte) : Prop :=
  byte = endModeCommandId ∨ byte = endTestId

instance : DecidablePred IsEnd := by
  unfold IsEnd
  infer_instance

def standardCodes (bytes : List Byte) : List Byte :=
  bytes.filter fun byte => IsStandardCode byte

/-
  What is to be written back: the standard codes before the
  first `EndModeCommand` or `EndTest`.
-/
def echo (bytes : List Byte) : List Byte :=
  standardCodes (bytes.takeWhile fun byte => ¬ IsEnd byte)

/-
  What has been written back is a part of that, and all of
  it when the mode is over or nothing is left to handle;
  while something is left, a read or a handler goes on.
-/
structure EchoLaw (s : StreamRun) : Prop where
  isPrefix : s.echoed <+: echo s.received
  complete :
    s.ended = true ∨ s.unread = [] ∧ s.ready = [] →
      s.echoed = echo s.received
  goesOn :
    s.ended = false → s.unread ≠ [] ∨ s.ready ≠ [] →
      (s.step .handle).isSome = true ∨
        (s.step (.complete 1)).isSome = true

/-
  The activity owns the stream: no pending read is of
  `HandleReadEvt`, which has been given no byte; and what
  comes is written back in `RemoteAvailabilityMode`.
-/
def Owned (s : StreamRun) : Prop :=
  s.BothDone →
    (∀ read ∈ s.pending, read.handler ≠ .handleReadEvt) ∧
      s.taken = [] ∧
      (s.mode = .remoteAvailabilityMode → s.EchoLaw)

/-
  The runnable cancels the read of the entry: it has been
  armed, and given no byte.
-/
def Ordered (s : StreamRun) : StreamLabel → Prop
  | .cancel => s.entryArmed = true ∧ s.taken = []
  | _ => True

instance (s : StreamRun) : DecidablePred s.Ordered
  | .cancel => inferInstanceAs (Decidable (_ ∧ _))
  | .entry => .isTrue trivial
  | .arm => .isTrue trivial
  | .getResults => .isTrue trivial
  | .resumeRead => .isTrue trivial
  | .reportResults => .isTrue trivial
  | .receive _ => .isTrue trivial
  | .complete _ => .isTrue trivial
  | .handle => .isTrue trivial

end StreamRun

end ModemTester

------------------------------------------------------------
-- What Is Written Back
------------------------------------------------------------

namespace ModemTester

namespace StreamRun

@[simp] theorem standardCodes_nil : standardCodes [] = [] := rfl

theorem standardCodes_append (front rest : List Byte) :
    standardCodes (front ++ rest) =
      standardCodes front ++ standardCodes rest :=
  List.filter_append ..

theorem standardCodes_of_standard
    {byte : Byte}
    (hStandard : IsStandardCode byte) :
    standardCodes [byte] = [byte] := by
  simp [standardCodes, hStandard]

theorem standardCodes_of_not_standard
    {byte : Byte}
    (hNot : ¬ IsStandardCode byte) :
    standardCodes [byte] = [] := by
  simp [standardCodes, hNot]

/- Bytes that do not end the mode are filtered only. -/
theorem echo_append_of_not_end
    {front : List Byte}
    (hNot : ∀ byte ∈ front, ¬ IsEnd byte)
    (rest : List Byte) :
    echo (front ++ rest) = standardCodes front ++ echo rest := by
  have hAll : ∀ byte ∈ front, decide (¬ IsEnd byte) = true := by
    intro byte hMem
    exact decide_eq_true (hNot byte hMem)
  rw [echo, List.takeWhile_append_of_pos hAll,
    standardCodes_append, echo]

/- What comes after the end is not written back. -/
theorem echo_append_of_end
    {bytes : List Byte}
    (hEnd : ∃ byte ∈ bytes, IsEnd byte)
    (rest : List Byte) :
    echo (bytes ++ rest) = echo bytes := by
  induction bytes with
  | nil =>
      rcases hEnd with ⟨byte, hMem, -⟩
      cases hMem
  | cons first bytes ih =>
      by_cases hFirst : IsEnd first
      · simp [echo, hFirst]
      · have hRest : ∃ byte ∈ bytes, IsEnd byte := by
          rcases hEnd with ⟨byte, hMem, hByte⟩
          rcases List.mem_cons.mp hMem with rfl | hMem
          · exact absurd hByte hFirst
          · exact ⟨byte, hMem, hByte⟩
        have hNot : ∀ byte ∈ [first], ¬ IsEnd byte := by
          simpa using hFirst
        have hFront := echo_append_of_not_end hNot
        rw [List.cons_append, ← List.singleton_append,
          hFront, ih hRest, ← hFront, List.singleton_append]

/- The three things `RemotePinger` does with a byte. -/
theorem handleByte_remoteAvailabilityMode (byte : Byte) :
    (IsStandardCode byte ∧ ¬ IsEnd byte ∧
      ActivityMode.remoteAvailabilityMode.handleByte byte =
        .echo) ∨
    (IsEnd byte ∧ ∃ event,
      ActivityMode.remoteAvailabilityMode.leaves event = true ∧
      ActivityMode.remoteAvailabilityMode.handleByte byte =
        .dispatch event) ∨
    (¬ IsStandardCode byte ∧ ¬ IsEnd byte ∧
      ActivityMode.remoteAvailabilityMode.handleByte byte =
        .ignore) := by
  simp only [ActivityMode.handleByte, RemoteState.handleByte,
    RemotePinger.handleByte]
  by_cases hStandard : IsStandardCode byte
  · refine .inl ⟨hStandard, ?_, if_pos hStandard⟩
    rintro (rfl | rfl)
    · exact absurd hStandard (by decide)
    · exact absurd hStandard (by decide)
  · rw [if_neg hStandard]
    by_cases hTest : byte = endTestId
    · rw [if_pos hTest]
      exact .inr (.inl ⟨.inr hTest, _, by decide, rfl⟩)
    · rw [if_neg hTest]
      by_cases hEnd : byte = endModeCommandId
      · rw [if_pos hEnd]
        exact .inr (.inl ⟨.inl hEnd, _, by decide, rfl⟩)
      · rw [if_neg hEnd]
        refine .inr (.inr ⟨hStandard, ?_, rfl⟩)
        rintro (hSame | hSame)
        · exact hEnd hSame
        · exact hTest hSame

theorem handleReceive_of_echo
    {s : StreamRun}
    {byte : Byte}
    (hByte : s.mode.handleByte byte = .echo)
    (bytes : List Byte) :
    s.handleReceive (byte :: bytes) =
      handleReceive { s with echoed := s.echoed ++ [byte] }
        bytes := by
  simp only [handleReceive, hByte]

theorem handleReceive_of_dispatch
    {s : StreamRun}
    {byte : Byte}
    {event : Event}
    (hByte : s.mode.handleByte byte = .dispatch event)
    (bytes : List Byte) :
    s.handleReceive (byte :: bytes) =
      { s with ended := s.mode.leaves event } := by
  simp only [handleReceive, hByte]

theorem handleReceive_of_ignore
    {s : StreamRun}
    {byte : Byte}
    (hByte : s.mode.handleByte byte = .ignore)
    (bytes : List Byte) :
    s.handleReceive (byte :: bytes) =
      s.handleReceive bytes := by
  simp only [handleReceive, hByte]

/- The loop of `RemotePinger::handleReceive`. -/
theorem handleReceive_remoteAvailabilityMode
    {s : StreamRun}
    (hMode : s.mode = .remoteAvailabilityMode)
    (bytes : List Byte) :
    ((∀ byte ∈ bytes, ¬ IsEnd byte) ∧
      s.handleReceive bytes =
        armRead .handleReceive 1
          { s with
            echoed := s.echoed ++ standardCodes bytes }) ∨
    ((∃ byte ∈ bytes, IsEnd byte) ∧
      s.handleReceive bytes =
        { s with
          echoed := s.echoed ++ echo bytes
          ended := true }) := by
  induction bytes generalizing s with
  | nil =>
      refine .inl ⟨by simp, ?_⟩
      have hSize : s.mode.bufferSize = 1 := by rw [hMode]; rfl
      rw [handleReceive, hSize, standardCodes_nil,
        List.append_nil]
  | cons byte bytes ih =>
      have hCodes : standardCodes (byte :: bytes) =
          standardCodes [byte] ++ standardCodes bytes :=
        standardCodes_append [byte] bytes
      have hEcho : ¬ IsEnd byte → echo (byte :: bytes) =
          standardCodes [byte] ++ echo bytes := by
        intro hNot
        have hOne : ∀ other ∈ [byte], ¬ IsEnd other := by
          simpa using hNot
        exact echo_append_of_not_end hOne bytes
      rcases handleByte_remoteAvailabilityMode byte with
        ⟨hStandard, hNot, hByte⟩ | ⟨hEnd, event, hLeaves, hByte⟩ |
          ⟨hOther, hNot, hByte⟩
      · rw [← hMode] at hByte
        rw [handleReceive_of_echo hByte, hCodes, hEcho hNot,
          standardCodes_of_standard hStandard,
          ← List.append_assoc, ← List.append_assoc]
        rcases ih
          (s := { s with echoed := s.echoed ++ [byte] }) hMode
          with ⟨hNone, hSame⟩ | ⟨hSome, hSame⟩
        · exact .inl
            ⟨List.forall_mem_cons.mpr ⟨hNot, hNone⟩, hSame⟩
        · exact .inr
            ⟨List.exists_mem_cons_of_exists hSome, hSame⟩
      · rw [← hMode] at hByte hLeaves
        refine .inr ⟨⟨byte, List.mem_cons_self, hEnd⟩, ?_⟩
        have hNothing : echo (byte :: bytes) = [] := by
          simp [echo, hEnd]
        rw [handleReceive_of_dispatch hByte, hLeaves, hNothing,
          List.append_nil]
      · rw [← hMode] at hByte
        rw [handleReceive_of_ignore hByte, hCodes, hEcho hNot,
          standardCodes_of_not_standard hOther,
          List.nil_append, List.nil_append]
        rcases ih hMode with ⟨hNone, hSame⟩ | ⟨hSome, hSame⟩
        · exact .inl
            ⟨List.forall_mem_cons.mpr ⟨hNot, hNone⟩, hSame⟩
        · exact .inr
            ⟨List.exists_mem_cons_of_exists hSome, hSame⟩

end StreamRun

end ModemTester

------------------------------------------------------------
-- What Handlers Leave As It Is
------------------------------------------------------------

namespace ModemTester

namespace StreamRun

variable {s s' : StreamRun}
variable {label : StreamLabel}

/- A handler arms a read of the activity at most. -/
structure Kept (s s' : StreamRun) : Prop where
  mode : s'.mode = s.mode
  entryArmed : s'.entryArmed = s.entryArmed
  runnable : s'.runnable = s.runnable
  ready : s'.ready = s.ready
  taken : s'.taken = s.taken
  keeps : ∀ read ∈ s.pending, read ∈ s'.pending
  reads : ∀ read ∈ s'.pending,
    read ∈ s.pending ∨ read.handler = .handleReceive

theorem kept_refl (s : StreamRun) : Kept s s :=
  ⟨rfl, rfl, rfl, rfl, rfl, fun _ hMem => hMem,
    fun _ hMem => .inl hMem⟩

theorem kept_handleReceive
    (s : StreamRun)
    (bytes : List Byte) :
    Kept s (s.handleReceive bytes) := by
  fun_induction handleReceive s bytes with
  | case1 s =>
      refine ⟨rfl, rfl, rfl, rfl, rfl, ?_, ?_⟩
      · intro read hMem
        exact List.mem_append_left _ hMem
      · intro read hMem
        rcases List.mem_append.mp hMem with hOld | hNew
        · exact .inl hOld
        · rw [List.mem_singleton.mp hNew]
          exact .inr rfl
  | case2 s byte bytes event hByte =>
      exact ⟨rfl, rfl, rfl, rfl, rfl, fun _ hMem => hMem,
        fun _ hMem => .inl hMem⟩
  | case3 s byte bytes hByte ih =>
      exact ⟨ih.mode, ih.entryArmed, ih.runnable, ih.ready,
        ih.taken, ih.keeps, ih.reads⟩
  | case4 s byte bytes hByte ih => exact ih
  | case5 s byte bytes hByte ih => exact ih

theorem kept_handleReadEvt
    (s : StreamRun)
    (bytes : List Byte) :
    Kept s (s.handleReadEvt bytes) := by
  fun_induction handleReadEvt s bytes with
  | case1 s => exact kept_refl s
  | case2 s byte bytes event hEvent ih =>
      exact ⟨ih.mode, ih.entryArmed, ih.runnable, ih.ready,
        ih.taken, ih.keeps, ih.reads⟩
  | case3 s byte bytes hNone ih => exact ih

theorem kept_runHandler
    (s : StreamRun)
    (completion : ReadCompletion) :
    Kept s (runHandler s completion) := by
  unfold runHandler
  split
  · exact kept_refl s
  · split
    · exact kept_handleReadEvt s _
    · exact kept_handleReceive s _
    · exact ⟨rfl, rfl, rfl, rfl, rfl, fun _ hMem => hMem,
        fun _ hMem => .inl hMem⟩

/- A step with its guard, one case for each thing done. -/
inductive TakenStep
    (s : StreamRun) : StreamLabel → StreamRun → Prop where
  | entry
      (hFirst : s.entryArmed = false) :
      TakenStep s .entry
        { s.armRead .handleReadEvt 1 with entryArmed := true }
  | cancel
      (hRunnable : s.runnable = .started) :
      TakenStep s .cancel
        { s.cancelReads with runnable := .cancelled }
  | arm
      (hRunnable : s.runnable = .cancelled) :
      TakenStep s .arm
        { s.armRead .handleReceive 1 with runnable := .armed }
  | getResults
      (hMode : s.mode = .throughputMode)
      (hRunnable : s.runnable = .armed) :
      TakenStep s .getResults
        { s.getResults with runnable := .inResults }
  | resumeRead
      (hRunnable : s.runnable = .inResults)
      (hReady : s.resultsReady = true) :
      TakenStep s .resumeRead
        { s.armRead .handleReceive 1 with runnable := .armed }
  | reportResults
      (hMode : s.mode = .throughputMode)
      (hIo : s.ioInResults = false)
      (hRunnable : s.runnable = .armed ∨
        s.runnable = .inResults) :
      TakenStep s .reportResults
        { s.getResults with ioInResults := true }
  | receive
      (byte : Byte) :
      TakenStep s (.receive byte)
        { s with
          unread := s.unread ++ [byte]
          received := s.received ++ [byte] }
  | complete
      (count : Nat)
      (read : StreamRead)
      (pending : List StreamRead)
      (hPending : s.pending = read :: pending)
      (hTakes : read.takes count)
      (hCount : count ≤ s.unread.length) :
      TakenStep s (.complete count)
        (giveBytes { s with pending := pending } read count)
  | handle
      (completion : ReadCompletion)
      (ready : List ReadCompletion)
      (hIo : s.ioInResults = false)
      (hReady : s.ready = completion :: ready) :
      TakenStep s .handle
        (runHandler { s with ready := ready } completion)

theorem takenStep_of_step
    (hStep : step s label = some s') :
    s.ended = false ∧ TakenStep s label s' := by
  unfold step at hStep
  split at hStep
  · cases hStep
  rename_i hRunning
  refine ⟨Bool.eq_false_iff.mpr hRunning, ?_⟩
  cases label with
  | entry =>
      simp only [modeStep, Option.ite_none_right_eq_some,
        Option.some.injEq] at hStep
      rcases hStep with ⟨hFirst, rfl⟩
      exact .entry hFirst
  | cancel =>
      simp only [modeStep, Option.ite_none_right_eq_some,
        Option.some.injEq] at hStep
      rcases hStep with ⟨hRunnable, rfl⟩
      exact .cancel hRunnable
  | arm =>
      simp only [modeStep, Option.ite_none_right_eq_some,
        Option.some.injEq] at hStep
      rcases hStep with ⟨hRunnable, rfl⟩
      exact .arm hRunnable
  | getResults =>
      simp only [modeStep, Option.ite_none_right_eq_some,
        Option.some.injEq] at hStep
      rcases hStep with ⟨⟨hMode, hRunnable⟩, rfl⟩
      exact .getResults hMode hRunnable
  | resumeRead =>
      simp only [modeStep, Option.ite_none_right_eq_some,
        Option.some.injEq] at hStep
      rcases hStep with ⟨⟨hRunnable, hReady⟩, rfl⟩
      exact .resumeRead hRunnable hReady
  | reportResults =>
      simp only [modeStep, Option.ite_none_right_eq_some,
        Option.some.injEq] at hStep
      rcases hStep with ⟨⟨hMode, hIo, hRunnable⟩, rfl⟩
      exact .reportResults hMode hIo hRunnable
  | receive byte =>
      cases hStep
      exact .receive byte
  | complete count =>
      simp only [modeStep] at hStep
      split at hStep
      · rename_i read pending hPending
        rw [Option.ite_none_right_eq_some,
          Option.some.injEq] at hStep
        rcases hStep with ⟨⟨hTakes, hCount⟩, rfl⟩
        exact .complete count read pending hPending hTakes
          hCount
      · cases hStep
  | handle =>
      simp only [modeStep] at hStep
      split at hStep
      · rename_i completion ready hIo hReady
        cases hStep
        exact .handle completion ready hIo hReady
      · cases hStep

------------------------------------------------------------
-- Before The Cancel
------------------------------------------------------------

/-
  Until the read of the entry is given a byte, it is the
  only one there may be.
-/
structure Untouched (s : StreamRun) : Prop where
  entry : s.entryArmed = false → s.pending = []
  reads : ∀ read ∈ s.pending,
    read.handler = .handleReadEvt
  ready : s.ready = []
  unread : s.unread = s.received
  echoed : s.echoed = []
  ioInResults : s.ioInResults = false

def Early (s : StreamRun) : Prop :=
  s.runnable = .started ∧ (s.taken = [] → s.Untouched)

theorem early_start (mode : ActivityMode) (unread : List Byte) :
    Early (start mode unread) := by
  refine ⟨rfl, fun _ => ⟨fun _ => rfl, ?_, rfl, rfl, rfl, rfl⟩⟩
  simp [start]

/- A read that is given bytes is given one at least. -/
theorem take_ne_nil
    {read : StreamRead}
    {count : Nat}
    {bytes : List Byte}
    (hHandler : read.handler = .handleReadEvt)
    (hTakes : read.takes count)
    (hCount : count ≤ bytes.length) :
    bytes.take count ≠ [] := by
  simp only [StreamRead.takes, hHandler] at hTakes
  intro hNone
  have hLength := congrArg List.length hNone
  rw [List.length_take_of_le hCount, List.length_nil]
    at hLength
  omega

/- The reads, while the runnable has not cancelled them. -/
theorem Early.step
    (hEarly : s.Early)
    (hNot : label ≠ .cancel)
    (hStep : step s label = some s') :
    s'.Early := by
  rcases takenStep_of_step hStep with ⟨hRunning, hTaken⟩
  rcases hEarly with ⟨hStarted, hUntouched⟩
  cases hTaken with
  | cancel hRunnable => exact absurd rfl hNot
  | entry hFirst =>
      refine ⟨hStarted, fun hTaken => ?_⟩
      have hSo := hUntouched hTaken
      refine ⟨by simp, ?_, hSo.ready, hSo.unread, hSo.echoed,
        hSo.ioInResults⟩
      simp [armRead, hSo.entry hFirst]
  | arm hRunnable => simp [hStarted] at hRunnable
  | getResults hMode hRunnable =>
      simp [hStarted] at hRunnable
  | resumeRead hRunnable hReady =>
      simp [hStarted] at hRunnable
  | reportResults hMode hIo hRunnable =>
      simp [hStarted] at hRunnable
  | receive byte =>
      refine ⟨hStarted, fun hTaken => ?_⟩
      have hSo := hUntouched hTaken
      exact ⟨hSo.entry, hSo.reads, hSo.ready,
        by simp [hSo.unread], hSo.echoed, hSo.ioInResults⟩
  | complete count read pending hPending hTakes hCount =>
      refine ⟨hStarted, fun hTaken => ?_⟩
      -- The read of the entry is the one that is served.
      exfalso
      by_cases hHandler : read.handler = .handleReadEvt
      · simp only [giveBytes, hHandler, if_true,
          List.append_eq_nil_iff] at hTaken
        exact take_ne_nil hHandler hTakes hCount hTaken.2
      · simp only [giveBytes, hHandler, if_false] at hTaken
        have hReads := (hUntouched hTaken).reads
        rw [hPending] at hReads
        exact hHandler (hReads read List.mem_cons_self)
  | handle completion ready hIo hReady =>
      have hKept := kept_runHandler { s with ready := ready }
        completion
      refine ⟨hKept.runnable.trans hStarted, fun hTaken => ?_⟩
      rw [hKept.taken] at hTaken
      rw [(hUntouched hTaken).ready] at hReady
      cases hReady

------------------------------------------------------------
-- After The Cancel
------------------------------------------------------------

/- The bytes that wait for their handler. -/
def queued (s : StreamRun) : List Byte :=
  s.ready.flatMap fun completion => completion.bytes.getD []

/-
  In `RemoteAvailabilityMode` all bytes go through the reads
  of `RemotePinger`: those handled have been written back or
  skipped, and until one of them ended the mode there is
  always a read or a handler that goes on.
-/
structure Echoing (s : StreamRun) : Prop where
  ioInResults : s.ioInResults = false
  runnable : s.runnable = .cancelled ∨ s.runnable = .armed
  reads : ∀ read ∈ s.pending, read = ⟨.handleReceive, 1⟩
  handlers : ∀ completion ∈ s.ready,
    completion.bytes ≠ none →
      completion.handler = .handleReceive
  goesOn : s.ended = false → s.runnable = .armed →
    s.pending ≠ [] ∨
      ∃ completion ∈ s.ready, completion.bytes ≠ none
  ended : s.ended = true → s.echoed = echo s.received
  running : s.ended = false → ∃ handled,
    s.received = handled ++ s.queued ++ s.unread ∧
      (∀ byte ∈ handled, ¬ IsEnd byte) ∧
      s.echoed = standardCodes handled

/-
  After the cancel, if it came when it should: no read is of
  `HandleReadEvt`, and none of its handlers has a byte.
-/
structure Later (s : StreamRun) : Prop where
  runnable : s.runnable ≠ .started
  entryArmed : s.entryArmed = true
  taken : s.taken = []
  reads : ∀ read ∈ s.pending, read.handler ≠ .handleReadEvt
  echoing : s.mode = .remoteAvailabilityMode → s.Echoing

/- The cancel of the runnable that comes when it should. -/
theorem later_of_cancel
    (hEarly : s.Early)
    (hOrdered : s.Ordered .cancel)
    (hStep : step s .cancel = some s') :
    s'.Later := by
  rcases takenStep_of_step hStep with ⟨hRunning, hCancel⟩
  rcases hEarly with ⟨hStarted, hUntouched⟩
  rcases hOrdered with ⟨hArmed, hTaken⟩
  have hSo := hUntouched hTaken
  cases hCancel
  have hAborted : ∀ completion ∈ s.cancelReads.ready,
      completion.bytes = none := by
    intro completion hMem
    rw [cancelReads, hSo.ready] at hMem
    rcases List.mem_map.mp hMem with ⟨read, -, rfl⟩
    rfl
  refine ⟨by simp, hArmed, hTaken, by simp [cancelReads], ?_⟩
  intro hMode
  refine ⟨hSo.ioInResults, .inl rfl, by simp [cancelReads],
    ?_, by simp, ?_, ?_⟩
  · intro completion hMem hBytes
    exact absurd (hAborted completion hMem) hBytes
  · intro hEnd
    exact absurd (hEnd.symm.trans hRunning) (by simp)
  · intro _
    refine ⟨[], ?_, by simp, hSo.echoed⟩
    have hQueued : queued
        { s.cancelReads with runnable := .cancelled } = [] := by
      apply List.flatMap_eq_nil_iff.mpr
      intro completion hMem
      rw [hAborted completion hMem, Option.getD_none]
    rw [hQueued]
    exact hSo.unread.symm

theorem echoing_arm
    (hEchoing : s.Echoing) :
    Echoing
      { s.armRead .handleReceive 1 with runnable := .armed } := by
  refine ⟨hEchoing.ioInResults, .inr rfl, ?_,
    hEchoing.handlers, ?_, hEchoing.ended, hEchoing.running⟩
  · intro read hMem
    rcases List.mem_append.mp hMem with hOld | hNew
    · exact hEchoing.reads read hOld
    · exact List.mem_singleton.mp hNew
  · intro _ _
    exact .inl (by simp [armRead])

theorem echoing_receive
    (hEchoing : s.Echoing)
    (hRunning : s.ended = false)
    (byte : Byte) :
    Echoing
      { s with
        unread := s.unread ++ [byte]
        received := s.received ++ [byte] } := by
  refine ⟨hEchoing.ioInResults, hEchoing.runnable,
    hEchoing.reads, hEchoing.handlers, hEchoing.goesOn, ?_, ?_⟩
  · intro hEnd
    exact absurd (hEnd.symm.trans hRunning) (by simp)
  · intro _
    rcases hEchoing.running hRunning with
      ⟨handled, hReceived, hRest⟩
    refine ⟨handled, ?_, hRest⟩
    simp only [hReceived, queued, List.append_assoc]

theorem echoing_complete
    {read : StreamRead}
    {pending : List StreamRead}
    {count : Nat}
    (hEchoing : s.Echoing)
    (hRunning : s.ended = false)
    (hPending : s.pending = read :: pending) :
    Echoing
      (giveBytes { s with pending := pending } read count) := by
  have hReads := hEchoing.reads
  rw [hPending] at hReads
  refine ⟨hEchoing.ioInResults, hEchoing.runnable, ?_, ?_, ?_,
    hEchoing.ended, ?_⟩
  · intro other hMem
    exact hReads other (List.mem_cons_of_mem _ hMem)
  · intro completion hMem hBytes
    rcases List.mem_append.mp hMem with hOld | hNew
    · exact hEchoing.handlers completion hOld hBytes
    · rw [List.mem_singleton.mp hNew]
      rw [hReads read List.mem_cons_self]
  · intro _ _
    exact .inr ⟨_, List.mem_append_right _
      List.mem_cons_self, by simp⟩
  · intro _
    rcases hEchoing.running hRunning with
      ⟨handled, hReceived, hRest⟩
    refine ⟨handled, ?_, hRest⟩
    simp only [giveBytes, queued, List.flatMap_append,
      List.flatMap_singleton, Option.getD_some,
      List.append_assoc, List.take_append_drop]
    rw [hReceived, queued, List.append_assoc]

/- A byte is written back, skipped, or ends the mode. -/
theorem echoing_handle
    {completion : ReadCompletion}
    {ready : List ReadCompletion}
    (hEchoing : s.Echoing)
    (hMode : s.mode = .remoteAvailabilityMode)
    (hRunning : s.ended = false)
    (hReady : s.ready = completion :: ready) :
    Echoing
      (runHandler { s with ready := ready } completion) := by
  have hHandlers := hEchoing.handlers
  have hGoesOn := hEchoing.goesOn hRunning
  rcases hEchoing.running hRunning with
    ⟨handled, hReceived, hNotEnd, hEchoed⟩
  rw [hReady] at hHandlers hGoesOn
  have hQueued : s.queued = completion.bytes.getD [] ++
      queued { s with ready := ready } := by
    rw [queued, hReady, List.flatMap_cons]
    rfl
  rw [hQueued] at hReceived
  have hRest : ∀ other ∈ ready, other.bytes ≠ none →
      other.handler = .handleReceive := by
    intro other hMem
    exact hHandlers other (List.mem_cons_of_mem _ hMem)
  cases hBytes : completion.bytes with
  | none =>
      simp only [runHandler, hBytes]
      rw [hBytes, Option.getD_none, List.nil_append]
        at hReceived
      refine ⟨hEchoing.ioInResults, hEchoing.runnable,
        hEchoing.reads, hRest, ?_, hEchoing.ended, fun _ =>
          ⟨handled, hReceived, hNotEnd, hEchoed⟩⟩
      intro _ hArmed
      rcases hGoesOn hArmed with hPending | ⟨other, hMem, hSome⟩
      · exact .inl hPending
      · refine .inr ⟨other, ?_, hSome⟩
        rcases List.mem_cons.mp hMem with rfl | hOther
        · exact absurd hBytes hSome
        · exact hOther
  | some bytes =>
      have hHandler := hHandlers completion List.mem_cons_self
        (by simp [hBytes])
      simp only [runHandler, hBytes, hHandler]
      rw [hBytes, Option.getD_some] at hReceived
      rcases handleReceive_remoteAvailabilityMode
        (s := { s with ready := ready }) hMode bytes with
        ⟨hNone, hSame⟩ | ⟨hSome, hSame⟩
      · rw [hSame]
        refine ⟨hEchoing.ioInResults, hEchoing.runnable, ?_,
          hRest, ?_, ?_, ?_⟩
        · intro read hMem
          rcases List.mem_append.mp hMem with hOld | hNew
          · exact hEchoing.reads read hOld
          · exact List.mem_singleton.mp hNew
        · intro _ _
          exact .inl (by simp [armRead])
        · intro hEnd
          exact absurd (hEnd.symm.trans hRunning) (by simp)
        · intro _
          refine ⟨handled ++ bytes, ?_, ?_, ?_⟩
          · simp only [armRead, hReceived, queued,
              List.append_assoc]
          · intro byte hMem
            rcases List.mem_append.mp hMem with hOld | hNew
            · exact hNotEnd byte hOld
            · exact hNone byte hNew
          · rw [standardCodes_append, ← hEchoed]
            rfl
      · rw [hSame]
        refine ⟨hEchoing.ioInResults, hEchoing.runnable,
          hEchoing.reads, hRest, by simp, ?_, by simp⟩
        intro _
        change s.echoed ++ echo bytes = echo s.received
        rw [hReceived, hEchoed, List.append_assoc,
          List.append_assoc, echo_append_of_not_end hNotEnd,
          echo_append_of_end hSome]

theorem Later.step
    (hLater : s.Later)
    (hStep : StreamRun.step s label = some s') :
    s'.Later := by
  rcases takenStep_of_step hStep with ⟨hRunning, hTaken⟩
  cases hTaken with
  | entry hFirst => simp [hLater.entryArmed] at hFirst
  | cancel hRunnable => exact absurd hRunnable hLater.runnable
  | arm hRunnable =>
      refine ⟨by simp, hLater.entryArmed, hLater.taken, ?_,
        fun hMode => echoing_arm (hLater.echoing hMode)⟩
      intro read hMem
      rcases List.mem_append.mp hMem with hOld | hNew
      · exact hLater.reads read hOld
      · rw [List.mem_singleton.mp hNew]
        simp
  | getResults hMode hRunnable =>
      refine ⟨by simp, hLater.entryArmed, hLater.taken,
        by simp [StreamRun.getResults, armRead, cancelReads],
        ?_⟩
      intro hOther
      exact absurd (hMode.symm.trans hOther) (by simp)
  | resumeRead hIn hReady =>
      refine ⟨by simp, hLater.entryArmed, hLater.taken, ?_, ?_⟩
      · intro read hMem
        rcases List.mem_append.mp hMem with hOld | hNew
        · exact hLater.reads read hOld
        · rw [List.mem_singleton.mp hNew]
          simp
      · intro hMode
        have hRunnable := (hLater.echoing hMode).runnable
        simp [hIn] at hRunnable
  | reportResults hMode hIo hRunnable =>
      refine ⟨hLater.runnable, hLater.entryArmed,
        hLater.taken,
        by simp [StreamRun.getResults, armRead, cancelReads],
        ?_⟩
      intro hOther
      exact absurd (hMode.symm.trans hOther) (by simp)
  | receive byte =>
      exact ⟨hLater.runnable, hLater.entryArmed, hLater.taken,
        hLater.reads, fun hMode =>
          echoing_receive (hLater.echoing hMode) hRunning byte⟩
  | complete count read pending hPending hTakes hCount =>
      have hReads := hLater.reads
      rw [hPending] at hReads
      have hOther := hReads read List.mem_cons_self
      refine ⟨hLater.runnable, hLater.entryArmed, ?_, ?_,
        fun hMode => echoing_complete
          (hLater.echoing hMode) hRunning hPending⟩
      · simp [giveBytes, hOther, hLater.taken]
      · intro other hMem
        exact hReads other (List.mem_cons_of_mem _ hMem)
  | handle completion ready hIo hReady =>
      have hKept := kept_runHandler { s with ready := ready }
        completion
      refine ⟨fun hSame =>
          hLater.runnable (hKept.runnable.symm.trans hSame),
        hKept.entryArmed.trans hLater.entryArmed,
        hKept.taken.trans hLater.taken, ?_, ?_⟩
      · intro read hMem
        rcases hKept.reads read hMem with hOld | hNew
        · exact hLater.reads read hOld
        · simp [hNew]
      · intro hMode
        rw [hKept.mode] at hMode
        exact echoing_handle (hLater.echoing hMode) hMode
          hRunning hReady

------------------------------------------------------------
-- Ownership In Ordered Runs
------------------------------------------------------------

theorem Echoing.echoLaw
    (hEchoing : s.Echoing)
    (hArmed : s.runnable = .armed) :
    s.EchoLaw := by
  cases hEnded : s.ended with
  | true =>
      have hAll := hEchoing.ended hEnded
      refine ⟨by rw [hAll], fun _ => hAll, ?_⟩
      intro hRunning
      exact absurd (hEnded.symm.trans hRunning) (by simp)
  | false =>
      rcases hEchoing.running hEnded with
        ⟨handled, hReceived, hNotEnd, hEchoed⟩
      refine ⟨?_, ?_, ?_⟩
      · rw [hReceived, hEchoed, List.append_assoc,
          echo_append_of_not_end hNotEnd]
        exact List.prefix_append _ _
      · rintro (hEnd | ⟨hUnread, hReady⟩)
        · exact absurd (hEnded.symm.trans hEnd) (by simp)
        · have hQueued : s.queued = [] := by
            simp [queued, hReady]
          rw [hReceived, hEchoed, hQueued, hUnread,
            List.append_assoc, echo_append_of_not_end hNotEnd]
          simp [echo]
      · intro _ hLeft
        cases hReady : s.ready with
        | cons completion ready =>
            left
            simp [StreamRun.step, modeStep, hEnded,
              hEchoing.ioInResults, hReady]
        | nil =>
            right
            have hUnread : s.unread ≠ [] :=
              hLeft.resolve_right (fun hNot => hNot hReady)
            have hPending := hEchoing.goesOn hEnded hArmed
            simp only [hReady, List.not_mem_nil, false_and,
              exists_false, or_false] at hPending
            rcases List.exists_cons_of_ne_nil hPending with
              ⟨read, pending, hRead⟩
            have hOne := hEchoing.reads read
              (by rw [hRead]; exact List.mem_cons_self)
            have hLength : 1 ≤ s.unread.length :=
              List.length_pos_iff.mpr hUnread
            simp [StreamRun.step, modeStep, hEnded, hRead, hOne,
              StreamRead.takes, hLength]

theorem Early.owned
    (hEarly : s.Early) :
    s.Owned := by
  rintro ⟨-, hDone⟩
  simp [hEarly.1] at hDone

theorem Later.owned
    (hLater : s.Later) :
    s.Owned := by
  rintro ⟨-, hDone⟩
  refine ⟨hLater.reads, hLater.taken, fun hMode => ?_⟩
  have hEchoing := hLater.echoing hMode
  refine hEchoing.echoLaw (hEchoing.runnable.resolve_left ?_)
  intro hCancelled
  simp [hCancelled] at hDone

theorem early_or_later_step
    (hInv : s.Early ∨ s.Later)
    (hOrdered : s.Ordered label)
    (hStep : StreamRun.step s label = some s') :
    s'.Early ∨ s'.Later := by
  rcases hInv with hEarly | hLater
  · by_cases hCancel : label = .cancel
    · subst hCancel
      exact .inr (later_of_cancel hEarly hOrdered hStep)
    · exact .inl (hEarly.step hCancel hStep)
  · exact .inr (hLater.step hStep)

theorem owned_of_ordered
    {mode : ActivityMode}
    {unread : List Byte}
    {labels : List StreamLabel}
    (hOrdered : StepSystem.Along StreamRun.step Ordered
      (start mode unread) labels) :
    StepSystem.Throughout StreamRun.step Owned
      (start mode unread) labels := by
  refine StepSystem.throughout_of_along
    (I := fun s => s.Early ∨ s.Later)
    (fun s label s' hInv hOrdered hStep =>
      early_or_later_step hInv hOrdered hStep)
    ?_ (.inl (early_start mode unread)) hOrdered
  rintro s (hEarly | hLater)
  · exact hEarly.owned
  · exact hLater.owned

end StreamRun

end ModemTester

------------------------------------------------------------
-- Runs That Are Not Ordered
------------------------------------------------------------

namespace ModemTester

namespace StreamRun

variable {s s' : StreamRun}
variable {label : StreamLabel}

/-
  The cancel has missed the read of the entry: it was given
  a byte, has still to be armed, or is pending before the
  runnable arms its own.
-/
def Disowned (s : StreamRun) : Prop :=
  s.runnable ≠ .started ∧
    (s.taken ≠ [] ∨ s.entryArmed = false ∨
      s.runnable = .cancelled ∧
        ∃ read ∈ s.pending, read.handler = .handleReadEvt)

theorem disowned_of_not_ordered
    (hNot : ¬ s.Ordered label)
    (hStep : step s label = some s') :
    s'.Disowned := by
  cases (takenStep_of_step hStep).2 with
  | cancel hRunnable =>
      refine ⟨by simp, ?_⟩
      by_cases hTaken : s.taken = []
      · right
        left
        by_contra hArmed
        exact hNot ⟨Bool.eq_true_of_not_eq_false hArmed, hTaken⟩
      · exact .inl hTaken
  | _ => exact absurd trivial hNot

/- A read of `HandleReadEvt` survives for a while. -/
theorem not_owned_of_pending
    {read : StreamRead}
    (hDone : s.BothDone)
    (hMem : read ∈ s.pending)
    (hHandler : read.handler = .handleReadEvt) :
    ¬ s.Owned := by
  intro hOwned
  exact (hOwned hDone).1 read hMem hHandler

/- Once the runnable has armed its read nothing helps. -/
theorem Disowned.missed
    (hDisowned : s.Disowned)
    (hRunnable : s.runnable ≠ .cancelled) :
    s.taken ≠ [] ∨ s.entryArmed = false := by
  rcases hDisowned.2 with hTaken | hFirst | ⟨hCancelled, -⟩
  · exact .inl hTaken
  · exact .inr hFirst
  · exact absurd hCancelled hRunnable

theorem disowned_of_missed
    (hMissed : s.taken ≠ [] ∨ s.entryArmed = false)
    (hStarted : s'.runnable ≠ .started)
    (hTaken : s'.taken = s.taken)
    (hEntry : s'.entryArmed = s.entryArmed) :
    s'.Disowned := by
  refine ⟨hStarted, ?_⟩
  rw [hTaken, hEntry]
  exact hMissed.imp_right .inl

theorem Disowned.step
    (hDisowned : s.Disowned)
    (hStep : StreamRun.step s label = some s')
    (hOwned : s'.Owned) :
    s'.Disowned := by
  have hStarted := hDisowned.1
  have hCases := hDisowned.2
  cases (takenStep_of_step hStep).2 with
  | entry hFirst =>
      refine ⟨hStarted, ?_⟩
      have hNew : (⟨.handleReadEvt, 1⟩ : StreamRead) ∈
          (s.armRead .handleReadEvt 1).pending := by
        simp [armRead]
      cases hRunnable : s.runnable with
      | started => exact absurd hRunnable hStarted
      | cancelled => exact .inr (.inr ⟨hRunnable, _, hNew, rfl⟩)
      | armed =>
          exact absurd hOwned (not_owned_of_pending
            ⟨rfl, .inl hRunnable⟩ hNew rfl)
      | inResults =>
          exact absurd hOwned (not_owned_of_pending
            ⟨rfl, .inr hRunnable⟩ hNew rfl)
  | cancel hRunnable => exact absurd hRunnable hStarted
  | arm hRunnable =>
      refine ⟨by simp, ?_⟩
      rcases hCases with hTaken | hFirst | ⟨-, read, hMem, hRead⟩
      · exact .inl hTaken
      · exact .inr (.inl hFirst)
      · cases hArmed : s.entryArmed with
        | false => exact .inr (.inl hArmed)
        | true =>
            exact absurd hOwned (not_owned_of_pending
              ⟨hArmed, .inl rfl⟩
              (List.mem_append_left _ hMem) hRead)
  | getResults hMode hRunnable =>
      have hMissed := hDisowned.missed (by simp [hRunnable])
      exact disowned_of_missed hMissed (by simp) rfl rfl
  | resumeRead hRunnable hReady =>
      have hMissed := hDisowned.missed (by simp [hRunnable])
      exact disowned_of_missed hMissed (by simp) rfl rfl
  | reportResults hMode hIo hRunnable =>
      have hMissed := hDisowned.missed (by
        intro hCancelled
        simp [hCancelled] at hRunnable)
      exact disowned_of_missed hMissed hStarted rfl rfl
  | receive byte => exact ⟨hStarted, hCases⟩
  | complete count first pending hPending hTakes hCount =>
      refine ⟨hStarted, ?_⟩
      rcases hCases with hTaken | hFirst |
        ⟨hCancelled, read, hMem, hRead⟩
      · left
        simp only [giveBytes]
        split
        · simp [hTaken]
        · exact hTaken
      · exact .inr (.inl hFirst)
      · rw [hPending] at hMem
        rcases List.mem_cons.mp hMem with rfl | hRest
        · left
          simp only [giveBytes, hRead, if_true]
          intro hNone
          exact take_ne_nil hRead hTakes hCount
            (List.append_eq_nil_iff.mp hNone).2
        · exact .inr (.inr ⟨hCancelled, read, hRest, hRead⟩)
  | handle completion ready hIo hReady =>
      have hKept := kept_runHandler { s with ready := ready }
        completion
      unfold Disowned
      rw [hKept.runnable, hKept.taken, hKept.entryArmed]
      refine ⟨hStarted, ?_⟩
      rcases hCases with hTaken | hFirst |
        ⟨hCancelled, read, hMem, hRead⟩
      · exact .inl hTaken
      · exact .inr (.inl hFirst)
      · exact .inr (.inr
          ⟨hCancelled, read, hKept.keeps read hMem, hRead⟩)

theorem not_disowned
    (hDone : s.BothDone)
    (hOwned : s.Owned) :
    ¬ s.Disowned := by
  rintro ⟨-, hTaken | hFirst | ⟨hCancelled, -⟩⟩
  · exact hTaken (hOwned hDone).2.1
  · exact absurd (hDone.1.symm.trans hFirst) (by simp)
  · have hRunnable := hDone.2
    simp [hCancelled] at hRunnable

/-
  The activity owns the stream from the moment on at which
  the entry and the runnable have armed their reads, exactly
  if the runnable's cancel comes after the read of the entry
  was armed and before it was given a byte.
-/
theorem owned_iff_ordered
    {mode : ActivityMode}
    {unread : List Byte}
    {labels : List StreamLabel}
    (hRun : StepSystem.run StreamRun.step (start mode unread)
      labels = some s)
    (hDone : s.BothDone) :
    StepSystem.Throughout StreamRun.step Owned
        (start mode unread) labels ↔
      StepSystem.Along StreamRun.step Ordered
        (start mode unread) labels := by
  constructor
  · intro hOwned
    refine StepSystem.along_of_throughout
      (I := fun s => s.Early ∨ s.Later) (D := Disowned)
      (fun s label s' hInv hOrdered hStep =>
        early_or_later_step hInv hOrdered hStep)
      (fun s label s' _ hNot hStep _ =>
        disowned_of_not_ordered hNot hStep)
      (fun s label s' hDisowned hStep hOwned =>
        hDisowned.step hStep hOwned)
      (.inl (early_start mode unread)) hOwned hRun ?_
    exact not_disowned hDone
      (StepSystem.throughout_last hRun hOwned)
  · exact owned_of_ordered

/- An `EndModeCommand` after a byte that is written back. -/
theorem owned_in_remoteAvailabilityMode :
    StepSystem.Throughout StreamRun.step Owned
      (start .remoteAvailabilityMode [])
      [.entry, .cancel, .arm, .receive 7, .complete 1, .handle,
        .handle, .receive endModeCommandId, .complete 1,
        .handle] := by
  have hRun : StepSystem.run StreamRun.step
      (start .remoteAvailabilityMode [])
      [.entry, .cancel, .arm, .receive 7, .complete 1, .handle,
        .handle, .receive endModeCommandId, .complete 1,
        .handle] = some _ := rfl
  exact (owned_iff_ordered hRun (by decide)).mpr (by decide)

/-
  The runnable is faster than the entry: the second byte is
  given to `HandleReadEvt`, and is not written back.
-/
theorem byte_lost :
    ∃ s, StepSystem.run StreamRun.step
        (start .remoteAvailabilityMode [])
        [.cancel, .arm, .entry, .receive 7, .receive 8,
          .complete 1, .complete 1, .handle, .handle] = some s ∧
      s.BothDone ∧ s.unread = [] ∧ s.ready = [] ∧
      s.taken = [8] ∧ s.echoed = [7] ∧ echo s.received = [7, 8] ∧
      ¬ s.Owned := by
  have hRun : StepSystem.run StreamRun.step
      (start .remoteAvailabilityMode [])
      [.cancel, .arm, .entry, .receive 7, .receive 8,
        .complete 1, .complete 1, .handle, .handle] =
      some _ := rfl
  refine ⟨_, hRun, ?_⟩
  refine ⟨by decide, rfl, rfl, rfl, rfl, by decide, ?_⟩
  intro hOwned
  have hTaken := (hOwned (by decide)).2.1
  exact absurd hTaken (by decide)

end StreamRun

end ModemTester
