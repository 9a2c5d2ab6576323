import ModemTester.Library.Framing
import ModemTester.Link.Composition

/-
  The throughput activity of the master on the link
  (`MasterThroughput.cpp`).

  The worker of `ThroughputMode` writes test data, asks for
  the results and waits for them in `getResults`: from then
  on the next eight bytes go to `receiveResults`, whatever
  they are, and a timer repeats the request. Before and
  after that a read of one byte is armed. `exit` joins the
  worker: a transition out of the mode (or into it again)
  that the io thread dispatches while the worker still needs
  that thread blocks both for ever, and one that another
  thread dispatches waits until the results are reported.

  As on the link, a read and the handling of its bytes are
  one step; in particular `cancel` leaves no completed read
  behind. The link loses nothing, but `RemoteThroughput`
  reads up to 255 bytes and drops what it has read behind an
  `EndModeCommand`.

  Key definitions include:
    * `Worker`
    * `Exchange`
    * `Exchange.step`
    * `Exchange.Advances`

  Main declarations:
    * `Exchange.exists_link_run`
    * `Exchange.framed_of_run`
-/

------------------------------------------------------------
-- Configurations
------------------------------------------------------------

namespace ModemTester

/- What `MasterThroughput` is at. -/
inductive Worker where
  /- The master is not in `ThroughputMode`. -/
  | absent
  /- It writes test data or waits for it to arrive. -/
  | sending
  /- `getResults` has opened its read; these bytes are in. -/
  | waiting (recvBuf : List Uplink)
  /- The results are reported. -/
  | reported
  /- Worker and io thread wait for each other. -/
  | blocked
  deriving DecidableEq, Repr

/- One call of the reporting function with `valid`. -/
structure Report where
  /- The number of sessions the master had started. -/
  session : Nat
  recvBuf : List Uplink
  totalReceived : Word
  totalUsec : Word
  deriving DecidableEq, Repr

structure Exchange where
  link : Link
  worker : Worker
  reports : List Report
  /- The bytes on which the master dispatched an event. -/
  dispatched : List Uplink
  deriving DecidableEq, Repr

inductive ExchangeLabel where
  /- A mode command dispatched by another thread. -/
  | command (event : Event)
  | masterTimeout
  | remoteTimeout
  | payload (byte : Byte)
  | toRemote (totalReceived totalUsec : Word)
  /- The one-byte read that is armed. -/
  | toMaster
  | getResults
  /- `timeoutReceiveResults`. -/
  | resend
  /- One more byte for `receiveResults`. -/
  | receive
  /- `handleTimerReportStats`, on the io thread. -/
  | reportTimer
  /- The next byte came in one read with `EndModeCommand`. -/
  | dropToRemote
  deriving DecidableEq, Repr

/- `_recvBuf.size()`. -/
def recvBufSize : Nat := 8

namespace Worker

/- A one-byte read is armed. -/
def ReadsByte (worker : Worker) : Prop :=
  worker = .absent ∨ worker = .sending ∨ worker = .reported

/-
  The worker still writes test data; a blocked one also gets
  to write its request.
-/
def Writes (worker : Worker) : Prop :=
  worker = .sending ∨ worker = .blocked

/- The bytes that `receiveResults` already has. -/
def received : Worker → List Uplink
  | .waiting recvBuf => recvBuf
  | _ => []

/- A transition to `ThroughputMode` starts a new worker. -/
def after
    (worker : Worker)
    (outcome : Outcome MasterState) : Worker :=
  match outcome with
  | .stays => worker
  | .transits .throughputMode => .sending
  | _ => .absent

instance (worker : Worker) : Decidable worker.ReadsByte := by
  unfold ReadsByte
  infer_instance

instance (worker : Worker) : Decidable worker.Writes := by
  unfold Writes
  infer_instance

end Worker

------------------------------------------------------------
-- Steps
------------------------------------------------------------

namespace Exchange

def start : Exchange where
  link := Link.start
  worker := .absent
  reports := []
  dispatched := []

/- `exit` has to wait for the worker. -/
def Joins
    (s : Exchange)
    (state : MasterState)
    (event : Event) : Prop :=
  state = .throughputMode ∧
    masterFsm.Accepts state event ∧ s.worker ≠ .reported

instance
    (s : Exchange)
    (state : MasterState)
    (event : Event) :
    Decidable (s.Joins state event) := by
  unfold Joins
  infer_instance

/- The master, in `state`, dispatches `event`. -/
def dispatch
    (s : Exchange)
    (state : MasterState)
    (event : Event) : Exchange :=
  { s with
    link := s.link.masterDispatch state event
    worker :=
      s.worker.after (masterFsm.dispatch state event).2 }

/- The master, in `state`, handles a byte on the io thread. -/
def masterRead
    (s : Exchange)
    (state : MasterState)
    (sent : Uplink) : Exchange :=
  match state.readByte sent.byte with
  | some event =>
      let logged :=
        { s with dispatched := s.dispatched ++ [sent] }
      if s.Joins state event then
        { logged with worker := .blocked }
      else
        logged.dispatch state event
  | none => s

/- The worker writes a byte. -/
def write (s : Exchange) (byte : Byte) : Exchange :=
  { s with
    link :=
      { s.link with
        toRemote := s.link.toRemote ++
          [⟨byte, s.link.masterSessions.length⟩] } }

/- What `makeReport` reports of a full buffer. -/
def makeReport
    (s : Exchange)
    (order : ByteOrder)
    (recvBuf : List Uplink) : Report :=
  let totals := decodeResults order (recvBuf.map Uplink.byte)
  ⟨s.link.masterSessions.length, recvBuf, totals.1, totals.2⟩

/- Its totals are those of the loops of `receiveResults`. -/
theorem makeReport_eq_receiveResults
    (s : Exchange)
    (order : ByteOrder)
    (data : Word)
    (buffer : ResultBuf)
    {recvBuf : List Uplink}
    (hBuffer : buffer.bytes = recvBuf.map Uplink.byte) :
    buffer.receiveResults order.host data 8 =
      some ((s.makeReport order recvBuf).totalReceived,
        (s.makeReport order recvBuf).totalUsec) := by
  rw [ResultBuf.receiveResults_host, hBuffer]
  rfl

/- `receiveResults` is called once the buffer is full. -/
def receive
    (order : ByteOrder)
    (s : Exchange)
    (recvBuf : List Uplink) : Exchange :=
  if recvBuf.length = recvBufSize then
    { s with
      worker := .reported
      reports := s.reports ++ [s.makeReport order recvBuf] }
  else
    { s with worker := .waiting recvBuf }

/- The queue to the master without its head. -/
def takeHead
    (s : Exchange)
    (rest : List Uplink) : Exchange :=
  { s with link := { s.link with toMaster := rest } }

def step
    (order : ByteOrder)
    (s : Exchange) : ExchangeLabel → Option Exchange
  | .command event =>
      match s.link.master with
      | some state =>
          if IsModeCommand event ∧ ¬ s.Joins state event then
            some (s.dispatch state event)
          else
            none
      | none => none
  | .masterTimeout =>
      match s.link.master with
      | some state =>
          if state.kind = .timerBased then
            some (s.dispatch state .timeout)
          else
            none
      | none => none
  | .remoteTimeout =>
      (s.link.step .remoteTimeout).map
        fun link => { s with link := link }
  | .payload byte =>
      match s.link.master with
      | some state =>
          if (state = .availabilityMode ∨
              (state = .throughputMode ∧ s.worker.Writes)) ∧
            IsStandardCode byte ∧
              (byte = endStandardCodes →
                s.worker = .blocked) then
            some (s.write byte)
          else
            none
      | none => none
  | .toRemote totalReceived totalUsec =>
      (s.link.step (.toRemote totalReceived totalUsec)).map
        fun link => { s with link := link }
  | .toMaster =>
      match s.link.master, s.link.toMaster with
      | some state, sent :: rest =>
          if s.worker.ReadsByte then
            some ((s.takeHead rest).masterRead state sent)
          else
            none
      | _, _ => none
  | .getResults =>
      if s.link.master = some .throughputMode ∧
          s.worker = .sending then
        some
          { s.write endStandardCodes with
            worker := .waiting [] }
      else
        none
  | .resend =>
      match s.worker with
      | .waiting _ => some (s.write endStandardCodes)
      | _ => none
  | .receive =>
      match s.worker, s.link.toMaster with
      | .waiting recvBuf, sent :: rest =>
          some
            ((s.takeHead rest).receive order
              (recvBuf ++ [sent]))
      | _, _ => none
  | .reportTimer =>
      -- `getResults` waits on the thread that should read.
      if s.link.master = some .throughputMode ∧
          s.worker = .sending then
        some
          { s.write endStandardCodes with
            worker := .blocked }
      else
        none
  | .dropToRemote =>
      if s.link.remote = some .endModeReceived ∧
          s.link.remoteSessions.getLast? =
            some .throughput then
        (s.link.step (.loseToRemote 0)).map
          fun link => { s with link := link }
      else
        none

------------------------------------------------------------
-- What A Step Does
------------------------------------------------------------

/- The steps, one constructor for each way to advance. -/
inductive Advances
    (order : ByteOrder)
    (s : Exchange) : ExchangeLabel → Exchange → Prop where
  | command
      {state : MasterState}
      {event : Event}
      (hState : s.link.master = some state)
      (hCommand : IsModeCommand event)
      (hFree : ¬ s.Joins state event) :
      Advances order s (.command event)
        (s.dispatch state event)
  | masterTimeout
      {state : MasterState}
      (hState : s.link.master = some state)
      (hKind : state.kind = .timerBased) :
      Advances order s .masterTimeout
        (s.dispatch state .timeout)
  | remoteTimeout
      {state : RemoteState}
      (hState : s.link.remote = some state)
      (hKind : state.kind = .timerBased) :
      Advances order s .remoteTimeout
        { s with
          link := s.link.remoteDispatch state .timeout 0 }
  | payload
      {state : MasterState}
      {byte : Byte}
      (hState : s.link.master = some state)
      (hKind : state.kind = .activity)
      (hStandard : IsStandardCode byte) :
      Advances order s (.payload byte) (s.write byte)
  | toRemote
      {state : RemoteState}
      {sent : Downlink}
      {rest : List Downlink}
      {totalReceived totalUsec : Word}
      (hState : s.link.remote = some state)
      (hHead : s.link.toRemote = sent :: rest) :
      Advances order s (.toRemote totalReceived totalUsec)
        { s with
          link :=
            Link.remoteRead { s.link with toRemote := rest }
              state sent totalReceived totalUsec }
  | toMaster
      {state : MasterState}
      {sent : Uplink}
      {rest : List Uplink}
      (hState : s.link.master = some state)
      (hHead : s.link.toMaster = sent :: rest)
      (hReads : s.worker.ReadsByte) :
      Advances order s .toMaster
        ((s.takeHead rest).masterRead state sent)
  | getResults
      (hMode : s.link.master = some .throughputMode)
      (hSending : s.worker = .sending) :
      Advances order s .getResults
        { s.write endStandardCodes with worker := .waiting [] }
  | resend
      {recvBuf : List Uplink}
      (hWaiting : s.worker = .waiting recvBuf) :
      Advances order s .resend (s.write endStandardCodes)
  | receive
      {recvBuf : List Uplink}
      {sent : Uplink}
      {rest : List Uplink}
      (hWaiting : s.worker = .waiting recvBuf)
      (hHead : s.link.toMaster = sent :: rest) :
      Advances order s .receive
        ((s.takeHead rest).receive order (recvBuf ++ [sent]))
  | reportTimer
      (hMode : s.link.master = some .throughputMode)
      (hSending : s.worker = .sending) :
      Advances order s .reportTimer
        { s.write endStandardCodes with worker := .blocked }
  | dropToRemote
      (hIndex : 0 < s.link.toRemote.length) :
      Advances order s .dropToRemote
        { s with
          link :=
            { s.link with
              toRemote := s.link.toRemote.eraseIdx 0 } }

theorem advances_of_step
    {order : ByteOrder}
    {s s' : Exchange}
    {label : ExchangeLabel}
    (hStep : step order s label = some s') :
    Advances order s label s' := by
  cases label with
  | command event =>
      simp only [step] at hStep
      split at hStep
      · rename_i state hState
        split at hStep
        · rename_i hEnabled
          cases hStep
          exact .command hState hEnabled.1 hEnabled.2
        · cases hStep
      · cases hStep
  | masterTimeout =>
      simp only [step] at hStep
      split at hStep
      · rename_i state hState
        split at hStep
        · rename_i hKind
          cases hStep
          exact .masterTimeout hState hKind
        · cases hStep
      · cases hStep
  | remoteTimeout =>
      rcases Option.map_eq_some_iff.mp hStep with
        ⟨link, hLink, rfl⟩
      cases Link.moves_of_step hLink with
      | remoteTimeout hState hKind =>
          exact .remoteTimeout hState hKind
  | payload byte =>
      simp only [step] at hStep
      split at hStep
      · rename_i state hState
        split at hStep
        · rename_i hEnabled
          cases hStep
          refine .payload hState ?_ hEnabled.2.1
          rcases hEnabled.1 with rfl | ⟨rfl, -⟩ <;> rfl
        · cases hStep
      · cases hStep
  | toRemote totalReceived totalUsec =>
      rcases Option.map_eq_some_iff.mp hStep with
        ⟨link, hLink, rfl⟩
      cases Link.moves_of_step hLink with
      | toRemote hState hHead => exact .toRemote hState hHead
  | toMaster =>
      simp only [step] at hStep
      split at hStep
      · rename_i state sent rest hState hHead
        split at hStep
        · rename_i hReads
          cases hStep
          exact .toMaster hState hHead hReads
        · cases hStep
      · cases hStep
  | getResults =>
      simp only [step] at hStep
      split at hStep
      · rename_i hEnabled
        cases hStep
        exact .getResults hEnabled.1 hEnabled.2
      · cases hStep
  | resend =>
      simp only [step] at hStep
      split at hStep
      · rename_i recvBuf hWaiting
        cases hStep
        exact .resend hWaiting
      · cases hStep
  | receive =>
      simp only [step] at hStep
      split at hStep
      · rename_i recvBuf sent rest hWaiting hHead
        cases hStep
        exact .receive hWaiting hHead
      · cases hStep
  | reportTimer =>
      simp only [step] at hStep
      split at hStep
      · rename_i hEnabled
        cases hStep
        exact .reportTimer hEnabled.1 hEnabled.2
      · cases hStep
  | dropToRemote =>
      simp only [step] at hStep
      split at hStep
      · rcases Option.map_eq_some_iff.mp hStep with
          ⟨link, hLink, rfl⟩
        cases Link.moves_of_step hLink with
        | loseToRemote hIndex => exact .dropToRemote hIndex
      · cases hStep

------------------------------------------------------------
-- The Worker And The Mode
------------------------------------------------------------

section MasterRead

variable {s : Exchange}
variable {state : MasterState}
variable {sent : Uplink}
variable {event : Event}

theorem masterRead_of_none
    (hRead : state.readByte sent.byte = none) :
    s.masterRead state sent = s := by
  unfold masterRead
  rw [hRead]

theorem masterRead_of_joins
    (hRead : state.readByte sent.byte = some event)
    (hJoins : s.Joins state event) :
    s.masterRead state sent =
      { s with
        dispatched := s.dispatched ++ [sent]
        worker := .blocked } := by
  unfold masterRead
  rw [hRead]
  exact if_pos hJoins

theorem masterRead_of_free
    (hRead : state.readByte sent.byte = some event)
    (hFree : ¬ s.Joins state event) :
    s.masterRead state sent =
      { s.dispatch state event with
        dispatched := s.dispatched ++ [sent] } := by
  unfold masterRead
  rw [hRead]
  exact if_neg hFree

end MasterRead

/- What a one-byte read leaves alone. -/
theorem masterRead_frame
    (s : Exchange)
    (state : MasterState)
    (sent : Uplink) :
    (s.masterRead state sent).link.replies = s.link.replies ∧
      (s.masterRead state sent).reports = s.reports := by
  cases hRead : state.readByte sent.byte with
  | none =>
      rw [masterRead_of_none hRead]
      exact ⟨rfl, rfl⟩
  | some event =>
      by_cases hJoins : s.Joins state event
      · rw [masterRead_of_joins hRead hJoins]
        exact ⟨rfl, rfl⟩
      · rw [masterRead_of_free hRead hJoins]
        exact ⟨rfl, rfl⟩

/- A dispatch opens no read. -/
theorem waiting_of_after
    {worker : Worker}
    {outcome : Outcome MasterState}
    {recvBuf : List Uplink}
    (hAfter : worker.after outcome = .waiting recvBuf) :
    outcome = .stays ∧ worker = .waiting recvBuf := by
  cases outcome with
  | stays => exact ⟨rfl, hAfter⟩
  | exits => cases hAfter
  | transits target => cases target <;> cases hAfter

/- There is a worker in `ThroughputMode` only. -/
def InMode (s : Exchange) : Prop :=
  s.worker ≠ .absent → s.link.master = some .throughputMode

theorem inMode_start : InMode start :=
  fun h => absurd rfl h

theorem inMode_dispatch
    {s : Exchange}
    {state : MasterState}
    (event : Event)
    (hState : s.link.master = some state)
    (hInMode : InMode s) :
    InMode (s.dispatch state event) := by
  intro hWorker
  simp only [dispatch, Link.masterDispatch] at hWorker ⊢
  cases hOutcome : (masterFsm.dispatch state event).2 with
  | stays =>
      rw [hOutcome] at hWorker
      exact hState.symm.trans (hInMode hWorker)
  | exits =>
      rw [hOutcome] at hWorker
      exact absurd rfl hWorker
  | transits target =>
      rw [hOutcome] at hWorker
      cases target <;> first
        | rfl
        | exact absurd rfl hWorker

theorem inMode_masterRead
    {s : Exchange}
    {state : MasterState}
    (sent : Uplink)
    (hState : s.link.master = some state)
    (hInMode : InMode s) :
    InMode (s.masterRead state sent) := by
  cases hRead : state.readByte sent.byte with
  | none =>
      rw [masterRead_of_none hRead]
      exact hInMode
  | some event =>
      by_cases hJoins : s.Joins state event
      · rw [masterRead_of_joins hRead hJoins]
        intro _
        rw [← hJoins.1]
        exact hState
      · rw [masterRead_of_free hRead hJoins]
        exact inMode_dispatch event hState hInMode

theorem inMode_step
    (order : ByteOrder)
    (s : Exchange)
    (label : ExchangeLabel)
    (s' : Exchange)
    (hInMode : InMode s)
    (hStep : step order s label = some s') :
    InMode s' := by
  cases advances_of_step hStep with
  | command hState hCommand hFree =>
      exact inMode_dispatch _ hState hInMode
  | masterTimeout hState hKind =>
      exact inMode_dispatch _ hState hInMode
  | remoteTimeout hState hKind => exact hInMode
  | payload hState hKind hStandard => exact hInMode
  | toRemote hState hHead =>
      intro hWorker
      simp only [Link.remoteRead_master]
      exact hInMode hWorker
  | toMaster hState hHead hReads =>
      exact inMode_masterRead _ hState hInMode
  | getResults hMode hSending => exact fun _ => hMode
  | resend hWaiting => exact hInMode
  | receive hWaiting hHead =>
      intro _
      have hMode := hInMode (by rw [hWaiting]; simp)
      unfold receive
      split <;> exact hMode
  | reportTimer hMode hSending => exact fun _ => hMode
  | dropToRemote hIndex => exact hInMode

/- A command cannot interrupt a worker that is not done. -/
theorem dispatch_of_busy
    {s : Exchange}
    {state : MasterState}
    {event : Event}
    (hInMode : InMode s)
    (hBusy : s.worker ≠ .absent ∧ s.worker ≠ .reported)
    (hState : s.link.master = some state)
    (hCommand : IsModeCommand event)
    (hFree : ¬ s.Joins state event) :
    (masterFsm.dispatch state event).2 = .stays := by
  rw [hInMode hBusy.1, Option.some.injEq] at hState
  subst hState
  rcases hCommand with rfl | rfl | rfl
  · rfl
  · rfl
  · exact absurd ⟨rfl, rfl, hBusy.2⟩ hFree

theorem no_masterTimeout
    {s : Exchange}
    {state : MasterState}
    (hInMode : InMode s)
    (hWorker : s.worker ≠ .absent)
    (hState : s.link.master = some state) :
    state.kind ≠ .timerBased := by
  rw [hInMode hWorker, Option.some.injEq] at hState
  subst hState
  decide

------------------------------------------------------------
-- Steps Of The Link
------------------------------------------------------------

/-
  Every step is one of the link, where a byte that
  `receiveResults` gets, or one on which the master blocks,
  is lost.
-/
theorem exists_link_step
    (order : ByteOrder)
    (s : Exchange)
    (label : ExchangeLabel)
    (s' : Exchange)
    (hInMode : InMode s)
    (hStep : step order s label = some s') :
    ∃ label', s.link.step label' = some s'.link := by
  have hLost {sent : Uplink} {rest : List Uplink}
      (hHead : s.link.toMaster = sent :: rest) :
      s.link.step (.loseToMaster 0) =
        some { s.link with toMaster := rest } := by
    simp [Link.step, hHead]
  have hRequest (hMode : s.link.master =
      some .throughputMode) :
      s.link.step (.payload endStandardCodes) =
        some (s.write endStandardCodes).link :=
    Link.step_of_moves (.payload hMode rfl (by decide))
  cases advances_of_step hStep with
  | command hState hCommand hFree =>
      exact ⟨_, Link.step_of_moves (.command hState hCommand)⟩
  | masterTimeout hState hKind =>
      exact ⟨_, Link.step_of_moves
        (.masterTimeout hState hKind)⟩
  | remoteTimeout hState hKind =>
      exact ⟨_, Link.step_of_moves
        (.remoteTimeout hState hKind)⟩
  | payload hState hKind hStandard =>
      exact ⟨_, Link.step_of_moves
        (.payload hState hKind hStandard)⟩
  | toRemote hState hHead =>
      exact ⟨_, Link.step_of_moves (.toRemote hState hHead)⟩
  | @toMaster state sent rest hState hHead hReads =>
      cases hRead : state.readByte sent.byte with
      | none =>
          rw [masterRead_of_none hRead]
          exact ⟨_, hLost hHead⟩
      | some event =>
          by_cases hJoins : (s.takeHead rest).Joins state event
          · rw [masterRead_of_joins hRead hJoins]
            exact ⟨_, hLost hHead⟩
          · rw [masterRead_of_free hRead hJoins]
            refine ⟨.toMaster, ?_⟩
            rw [Link.step_toMaster hState hHead]
            simp only [Link.masterRead, hRead]
            rfl
  | getResults hMode hSending => exact ⟨_, hRequest hMode⟩
  | resend hWaiting =>
      have hMode := hInMode (by rw [hWaiting]; simp)
      exact ⟨_, hRequest hMode⟩
  | receive hWaiting hHead =>
      refine ⟨.loseToMaster 0, ?_⟩
      rw [hLost hHead]
      unfold receive
      split <;> rfl
  | reportTimer hMode hSending => exact ⟨_, hRequest hMode⟩
  | dropToRemote hIndex =>
      exact ⟨_, Link.step_of_moves (.loseToRemote hIndex)⟩

/- Whatever holds on every run of the link holds here. -/
theorem exists_link_run
    {order : ByteOrder}
    {labels : List ExchangeLabel}
    {s : Exchange}
    (hRun : StepSystem.run (step order) start labels =
      some s) :
    ∃ labels', StepSystem.run Link.step Link.start labels' =
      some s.link := by
  refine StepSystem.run_simulation Exchange.link
    (I := InMode) (inMode_step order) ?_
    inMode_start hRun
  intro s label s' hInMode hStep
  rcases exists_link_step order s label s' hInMode hStep with
    ⟨label', hLink⟩
  refine ⟨[label'], ?_⟩
  rw [StepSystem.run_cons_of_step hLink]
  rfl

end Exchange

------------------------------------------------------------
-- Replies As Frames
------------------------------------------------------------

namespace Link

/- The replies in the stream to the master. -/
def framing (c : Link) : Framing Uplink Nat where
  tag up :=
    match up.origin with
    | .result reply index => some (reply, index)
    | _ => none
  frame reply :=
    (c.replies[reply]?).map fun sent =>
      replyBytes reply sent.totalReceived sent.totalUsec

theorem origin_of_replyBytes
    {reply index : Nat}
    {r u : Word}
    {up : Uplink}
    (hByte : (replyBytes reply r u)[index]? = some up) :
    up.origin = .result reply index := by
  rw [replyBytes, List.getElem?_map,
    Option.map_eq_some_iff] at hByte
  rcases hByte with ⟨entry, hEntry, rfl⟩
  rw [List.getElem?_zipIdx, Option.map_eq_some_iff] at hEntry
  rcases hEntry with ⟨byte, -, rfl⟩
  simp

theorem framed_replyBytes
    {c : Link}
    {reply : Nat}
    {sent : Reply}
    (hReply : c.replies[reply]? = some sent) :
    c.framing.Framed
      (replyBytes reply sent.totalReceived
        sent.totalUsec) := by
  apply Framing.framed_frame (k := reply)
  · simp only [framing, hReply, Option.map_some]
  · intro index up hByte
    simp only [framing, origin_of_replyBytes hByte]

/- A new reply leaves the old ones as they are. -/
theorem framed_of_replies_append
    {c c' : Link}
    {replies : List Reply}
    {stream : List Uplink}
    (hReplies : c'.replies = c.replies ++ replies)
    (hFramed : c.framing.Framed stream) :
    c'.framing.Framed stream := by
  refine Framing.framed_mono (F := c.framing) rfl ?_ hFramed
  intro reply bytes hFrame
  simp only [framing, Option.map_eq_some_iff] at hFrame ⊢
  rcases hFrame with ⟨sent, hSent, rfl⟩
  refine ⟨sent, ?_, rfl⟩
  rw [hReplies]
  exact List.getElem?_append_left
    (List.getElem?_eq_some_iff.mp hSent).1 ▸ hSent

/- What the remote writes is framed. -/
theorem framed_remoteWrote
    (c : Link)
    (state : RemoteState)
    (sent : Downlink)
    (r u : Word) :
    (c.remoteRead state sent r u).framing.Framed
      (c.remoteWrote state sent.byte r u) := by
  cases hHandling : state.handleByte sent.byte with
  | dispatch event =>
      apply Framing.framed_of_untagged
      intro up hUp
      simp only [remoteWrote, hHandling, List.mem_map] at hUp
      rcases hUp with ⟨byte, -, rfl⟩
      rfl
  | echo =>
      apply Framing.framed_of_untagged
      intro up hUp
      simp only [remoteWrote, hHandling,
        List.mem_singleton] at hUp
      rw [hUp]
      rfl
  | sendResults =>
      have hReply :
          (c.remoteRead state sent r u).replies[
              c.replies.length]? =
            some ⟨c.startedSession, r, u⟩ := by
        rw [remoteRead_replies]
        simp [remoteReplied, hHandling]
      have hFramed := framed_replyBytes hReply
      simpa only [remoteWrote, hHandling] using hFramed
  | ignore =>
      simp only [remoteWrote, hHandling]
      exact Framing.framed_nil

end Link

------------------------------------------------------------
-- The Stream To The Master Is Framed
------------------------------------------------------------

namespace Exchange

/- What the master has not handled yet. -/
def stream (s : Exchange) : List Uplink :=
  s.worker.received ++ s.link.toMaster

def FramedStream (s : Exchange) : Prop :=
  s.link.framing.Framed s.stream

theorem received_of_readsByte
    {worker : Worker}
    (hReads : worker.ReadsByte) :
    worker.received = [] := by
  rcases hReads with rfl | rfl | rfl <;> rfl

theorem received_after
    (worker : Worker)
    (outcome : Outcome MasterState) :
    (worker.after outcome).received = worker.received ∨
      (worker.after outcome).received = [] := by
  cases outcome with
  | stays => exact Or.inl rfl
  | exits => exact Or.inr rfl
  | transits target =>
      right
      cases target <;> rfl

theorem framed_dispatch
    {s : Exchange}
    (state : MasterState)
    (event : Event)
    (hFramed : FramedStream s) :
    FramedStream (s.dispatch state event) := by
  have hQueue : s.link.framing.Framed s.link.toMaster :=
    Framing.framed_of_append hFramed
  rcases received_after s.worker
      (masterFsm.dispatch state event).2 with hSame | hNone
  · simp only [FramedStream, stream, dispatch, hSame]
    exact hFramed
  · simp only [FramedStream, stream, dispatch, hNone]
    exact hQueue

theorem framed_masterRead
    {s : Exchange}
    (state : MasterState)
    (sent : Uplink)
    (hFramed : FramedStream s) :
    FramedStream (s.masterRead state sent) := by
  cases hRead : state.readByte sent.byte with
  | none =>
      rw [masterRead_of_none hRead]
      exact hFramed
  | some event =>
      by_cases hJoins : s.Joins state event
      · rw [masterRead_of_joins hRead hJoins]
        exact Framing.framed_of_append hFramed
      · rw [masterRead_of_free hRead hJoins]
        exact framed_dispatch state event hFramed

theorem framed_step
    (order : ByteOrder)
    (s : Exchange)
    (label : ExchangeLabel)
    (s' : Exchange)
    (hFramed : FramedStream s)
    (hStep : step order s label = some s') :
    FramedStream s' := by
  cases advances_of_step hStep with
  | command hState hCommand hFree =>
      exact framed_dispatch _ _ hFramed
  | masterTimeout hState hKind =>
      exact framed_dispatch _ _ hFramed
  | remoteTimeout hState hKind =>
      simp only [FramedStream, stream, Link.remoteDispatch]
      rw [← List.append_assoc]
      apply Framing.framed_append hFramed
      apply Framing.framed_of_untagged
      intro up hUp
      rcases List.mem_map.mp hUp with ⟨byte, -, rfl⟩
      rfl
  | payload hState hKind hStandard => exact hFramed
  | @toRemote state sent rest r u hState hHead =>
      simp only [FramedStream, stream]
      rw [Link.remoteRead_toMaster, ← List.append_assoc]
      apply Framing.framed_append
      · exact Link.framed_of_replies_append
          (c := s.link) (Link.remoteRead_replies _ _ _ _ _)
          hFramed
      · exact Link.framed_remoteWrote _ _ _ _ _
  | @toMaster state sent rest hState hHead hReads =>
      apply framed_masterRead
      simp only [FramedStream, stream, hHead] at hFramed
      rw [received_of_readsByte hReads] at hFramed
      simp only [FramedStream, stream, takeHead,
        received_of_readsByte hReads]
      exact hFramed.2
  | getResults hMode hSending =>
      exact Framing.framed_of_append hFramed
  | resend hWaiting => exact hFramed
  | @receive recvBuf sent rest hWaiting hHead =>
      simp only [FramedStream, stream, hWaiting, hHead,
        Worker.received] at hFramed
      unfold receive
      split
      · rw [List.append_cons] at hFramed
        exact Framing.framed_of_append hFramed
      · rw [List.append_cons] at hFramed
        exact hFramed
  | reportTimer hMode hSending =>
      exact Framing.framed_of_append hFramed
  | dropToRemote hIndex => exact hFramed

/- Replies reach the master in one piece. -/
theorem framed_of_run
    {order : ByteOrder}
    {labels : List ExchangeLabel}
    {s : Exchange}
    (hRun : StepSystem.run (step order) start labels =
      some s) :
    FramedStream s :=
  StepSystem.run_invariant (framed_step order)
    (show FramedStream start from Framing.framed_nil) hRun

------------------------------------------------------------
-- Replies And Reports Are Only Added
------------------------------------------------------------

theorem replies_step
    {order : ByteOrder}
    {s s' : Exchange}
    {label : ExchangeLabel}
    (hStep : step order s label = some s') :
    ∃ replies,
      s'.link.replies = s.link.replies ++ replies := by
  cases advances_of_step hStep with
  | command hState hCommand hFree =>
      exact ⟨[], (List.append_nil _).symm⟩
  | masterTimeout hState hKind =>
      exact ⟨[], (List.append_nil _).symm⟩
  | remoteTimeout hState hKind =>
      exact ⟨[], (List.append_nil _).symm⟩
  | payload hState hKind hStandard =>
      exact ⟨[], (List.append_nil _).symm⟩
  | toRemote hState hHead =>
      exact ⟨_, Link.remoteRead_replies _ _ _ _ _⟩
  | @toMaster state sent rest hState hHead hReads =>
      refine ⟨[], ?_⟩
      rw [(masterRead_frame _ state sent).1, List.append_nil]
      rfl
  | getResults hMode hSending =>
      exact ⟨[], (List.append_nil _).symm⟩
  | resend hWaiting =>
      exact ⟨[], (List.append_nil _).symm⟩
  | receive hWaiting hHead =>
      refine ⟨[], ?_⟩
      unfold receive
      split <;> exact (List.append_nil _).symm
  | reportTimer hMode hSending =>
      exact ⟨[], (List.append_nil _).symm⟩
  | dropToRemote hIndex =>
      exact ⟨[], (List.append_nil _).symm⟩

/- Only the byte that fills the buffer makes a report. -/
theorem reports_step
    {order : ByteOrder}
    {s s' : Exchange}
    {label : ExchangeLabel}
    (hStep : step order s label = some s') :
    s'.reports = s.reports ∨
      ∃ recvBuf sent rest, s.worker = .waiting recvBuf ∧
        s.link.toMaster = sent :: rest ∧
          (recvBuf ++ [sent]).length = recvBufSize ∧
            s'.reports = s.reports ++
              [s.makeReport order (recvBuf ++ [sent])] := by
  cases advances_of_step hStep with
  | command hState hCommand hFree => exact Or.inl rfl
  | masterTimeout hState hKind => exact Or.inl rfl
  | remoteTimeout hState hKind => exact Or.inl rfl
  | payload hState hKind hStandard => exact Or.inl rfl
  | toRemote hState hHead => exact Or.inl rfl
  | @toMaster state sent rest hState hHead hReads =>
      left
      rw [(masterRead_frame _ state sent).2]
      rfl
  | getResults hMode hSending => exact Or.inl rfl
  | resend hWaiting => exact Or.inl rfl
  | @receive recvBuf sent rest hWaiting hHead =>
      unfold receive
      split
      · rename_i hFull
        right
        exact ⟨recvBuf, sent, rest, hWaiting, hHead, hFull,
          rfl⟩
      · exact Or.inl rfl
  | reportTimer hMode hSending => exact Or.inl rfl
  | dropToRemote hIndex => exact Or.inl rfl

end Exchange

end ModemTester
