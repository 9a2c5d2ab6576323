import ModemTester.Link.SessionData

/-
  The link, with the reads that take its bytes.

  A byte is read in two steps: a pending read takes it, and
  later the io thread runs the handler that was given with
  the read, `HandleReadEvt` or the `handleReceive` of an
  activity. Every transition cancels what is pending and arms
  one read of the new state; `handleReceive` arms another
  one for itself, `HandleReadEvt` does not.

  With the bytes of queued handlers put back on the line this
  is the link on which every read is atomic. But a machine
  may end up without a read. In a clean run that happens to
  the master alone, and only when it reads test data or a
  result where it waits for the end of the mode to be
  acknowledged.

  An activity owns the stream from its entry on: the read
  that its state arms for `HandleReadEvt` is left out, and so
  are the 50 ms after which `MasterPinger` begins to read and
  the read of `getResults`. Runs in which a transition finds
  a handler still queued are not considered: such a handler
  may belong to an activity that is deleted, or find the byte
  of the next read in its buffer.

  Key definitions include:
    * `ReadingLink`
    * `ReadingLink.step`
    * `ReadingLink.view`
    * `ReadingLink.Undisturbed`

  Main declarations:
    * `ReadingLink.refines_link`
    * `ReadingLink.hear_iff_of_clean`
-/

------------------------------------------------------------
-- Reads And Their Handlers
------------------------------------------------------------

namespace ModemTester

inductive Reader where
  | handleReadEvt
  | handleReceive
  deriving DecidableEq, Repr

/- The handler of the read that `entry` leaves pending. -/
def StateKind.reader : StateKind → Reader
  | .activity => .handleReceive
  | _ => .handleReadEvt

/-
  The read that is pending, and the handlers that are queued,
  each with the byte that its read has taken.
-/
structure Reads (α : Type) where
  pending : Option Reader
  queued : List (Reader × α)

namespace Reads

variable {α S : Type}

/- After a dispatch; a transition cancels and arms a read. -/
def after
    (kind : S → StateKind)
    (outcome : Outcome S)
    (reads : Reads α) : Reads α :=
  match outcome with
  | .transits target =>
      { reads with pending := some (kind target).reader }
  | _ => reads

/- `handleReceive` arms its next read. -/
def again (reads : Reads α) : Reads α :=
  { reads with pending := some .handleReceive }

/- A byte that comes will be handled. -/
def Hears (reads : Reads α) : Prop :=
  reads.pending ≠ none ∨ reads.queued ≠ []

/- The one read there is has the handler of the state. -/
def Fits (kind : StateKind) (reads : Reads α) : Prop :=
  (reads.queued = [] ∧
      ∀ reader ∈ reads.pending, reader = kind.reader) ∨
    reads.pending = none ∧
      ∃ item, reads.queued = [(kind.reader, item)]

@[simp] theorem queued_after
    (kind : S → StateKind)
    (outcome : Outcome S)
    (reads : Reads α) :
    (reads.after kind outcome).queued = reads.queued := by
  cases outcome <;> rfl

end Reads

structure ReadingLink where
  link : Link
  master : Reads Uplink
  remote : Reads Downlink

inductive ReadingLabel where
  | command (event : Event)
  | masterTimeout
  | remoteTimeout
  | payload (byte : Byte)
  | masterTakes
  | masterHandles
  | remoteTakes
  | remoteHandles (totalReceived totalUsec : Word)
  | loseToRemote (index : Nat)
  | loseToMaster (index : Nat)
  deriving DecidableEq, Repr

------------------------------------------------------------
-- Steps
------------------------------------------------------------

namespace ReadingLink

def start : ReadingLink where
  link := Link.start
  master := ⟨some .handleReadEvt, []⟩
  remote := ⟨some .handleReadEvt, []⟩

def masterDispatch
    (s : ReadingLink)
    (state : MasterState)
    (event : Event) : ReadingLink :=
  { s with
    link := s.link.masterDispatch state event
    master := s.master.after MasterState.kind
      (masterFsm.dispatch state event).2 }

def remoteDispatch
    (s : ReadingLink)
    (state : RemoteState)
    (event : Event)
    (session : Nat) : ReadingLink :=
  { s with
    link := s.link.remoteDispatch state event session
    remote := s.remote.after RemoteState.kind
      (remoteFsm.dispatch state event).2 }

/- The handler of a read of the master. -/
def masterHandle
    (s : ReadingLink)
    (state : MasterState)
    (byte : Byte) : Reader → ReadingLink
  | .handleReadEvt =>
      match readEvt byte with
      | some event => s.masterDispatch state event
      | none => s
  | .handleReceive =>
      match state.readByte byte with
      | some event => s.masterDispatch state event
      | none => { s with master := s.master.again }

/- The handler of a read of the remote. -/
def remoteHandle
    (s : ReadingLink)
    (state : RemoteState)
    (sent : Downlink)
    (totalReceived totalUsec : Word) : Reader → ReadingLink
  | .handleReadEvt =>
      match readEvt sent.byte with
      | some event => s.remoteDispatch state event sent.session
      | none => s
  | .handleReceive =>
      match state.handleByte sent.byte with
      | .dispatch event =>
          s.remoteDispatch state event sent.session
      | .echo | .sendResults | .ignore =>
          { s with
            link := s.link.remoteRead state sent totalReceived
              totalUsec
            remote := s.remote.again }

/- Other steps than reads are those of the link. -/
def elsewhere
    (s : ReadingLink)
    (label : LinkLabel) : Option ReadingLink :=
  (s.link.step label).map fun link => { s with link := link }

def step (s : ReadingLink) :
    ReadingLabel → Option ReadingLink
  | .command event =>
      match s.link.master with
      | some state =>
          if IsModeCommand event then
            some (s.masterDispatch state event)
          else
            none
      | none => none
  | .masterTimeout =>
      match s.link.master with
      | some state =>
          if state.kind = .timerBased then
            some (s.masterDispatch state .timeout)
          else
            none
      | none => none
  | .remoteTimeout =>
      match s.link.remote with
      | some state =>
          if state.kind = .timerBased then
            some (s.remoteDispatch state .timeout 0)
          else
            none
      | none => none
  | .masterTakes =>
      match s.link.master, s.master.pending,
          s.link.toMaster with
      | some _, some reader, up :: rest =>
          some
            { s with
              link := { s.link with toMaster := rest }
              master :=
                ⟨none, s.master.queued ++ [(reader, up)]⟩ }
      | _, _, _ => none
  | .masterHandles =>
      match s.link.master, s.master.queued with
      | some state, (reader, up) :: more =>
          some
            (masterHandle
              { s with master := ⟨s.master.pending, more⟩ }
              state up.byte reader)
      | _, _ => none
  | .remoteTakes =>
      match s.link.remote, s.remote.pending,
          s.link.toRemote with
      | some _, some reader, sent :: rest =>
          some
            { s with
              link := { s.link with toRemote := rest }
              remote :=
                ⟨none, s.remote.queued ++ [(reader, sent)]⟩ }
      | _, _, _ => none
  | .remoteHandles totalReceived totalUsec =>
      match s.link.remote, s.remote.queued with
      | some state, (reader, sent) :: more =>
          some
            (remoteHandle
              { s with remote := ⟨s.remote.pending, more⟩ }
              state sent totalReceived totalUsec reader)
      | _, _ => none
  | .payload byte => s.elsewhere (.payload byte)
  | .loseToRemote index => s.elsewhere (.loseToRemote index)
  | .loseToMaster index => s.elsewhere (.loseToMaster index)

/-
  A transition of the master that a command or a timer makes,
  and one of the remote that a timer makes, finds no handler
  queued.
-/
def Undisturbed (s : ReadingLink) : ReadingLabel → Prop
  | .command event =>
      ∀ state ∈ s.link.master,
        masterFsm.Accepts state event → s.master.queued = []
  | .masterTimeout => s.master.queued = []
  | .remoteTimeout => s.remote.queued = []
  | _ => True

instance (s : ReadingLink) : (label : ReadingLabel) →
    Decidable (s.Undisturbed label)
  | .command event =>
      inferInstanceAs (Decidable (∀ state ∈ s.link.master,
        masterFsm.Accepts state event → s.master.queued = []))
  | .masterTimeout =>
      inferInstanceAs (Decidable (s.master.queued = []))
  | .remoteTimeout =>
      inferInstanceAs (Decidable (s.remote.queued = []))
  | .payload _ | .masterTakes | .masterHandles | .remoteTakes
  | .remoteHandles _ _ | .loseToRemote _ | .loseToMaster _ =>
      .isTrue trivial

/- The link, with what queued handlers hold put back on it. -/
def view (s : ReadingLink) : Link :=
  { s.link with
    toRemote := s.remote.queued.map Prod.snd ++ s.link.toRemote
    toMaster :=
      s.master.queued.map Prod.snd ++ s.link.toMaster }

/- The step of the link that a step shows. -/
def shown (s : ReadingLink) : ReadingLabel → Option LinkLabel
  | .command event => some (.command event)
  | .masterTimeout => some .masterTimeout
  | .remoteTimeout => some .remoteTimeout
  | .payload byte => some (.payload byte)
  | .masterTakes => none
  | .masterHandles => some .toMaster
  | .remoteTakes => none
  | .remoteHandles totalReceived totalUsec =>
      some (.toRemote totalReceived totalUsec)
  | .loseToRemote index =>
      some (.loseToRemote (s.remote.queued.length + index))
  | .loseToMaster index =>
      some (.loseToMaster (s.master.queued.length + index))

end ReadingLink

end ModemTester

------------------------------------------------------------
-- One Read At A Time
------------------------------------------------------------

namespace ModemTester

namespace Reads

variable {α S : Type}
variable {reads : Reads α}
variable {kind : StateKind}
variable {kindOf : S → StateKind}
variable {state next : S}
variable {outcome : Outcome S}

/- A dispatch that finds no handler queued. -/
theorem fits_after
    (hQueued : reads.queued = [])
    (hFits : reads.Fits (kindOf state))
    (hNext : outcome.after state = some next) :
    (reads.after kindOf outcome).Fits (kindOf next) := by
  cases outcome with
  | stays =>
      cases hNext
      exact hFits
  | transits target =>
      cases hNext
      refine .inl ⟨hQueued, ?_⟩
      intro reader hReader
      exact (Option.some.inj hReader).symm
  | exits => cases hNext

/- The read that is pending takes an item. -/
theorem fits_take
    {reader : Reader}
    {item : α}
    (hFits : reads.Fits kind)
    (hPending : reads.pending = some reader) :
    (⟨none, reads.queued ++ [(reader, item)]⟩ :
      Reads α).Fits kind := by
  rcases hFits with ⟨hQueued, hReader⟩ | ⟨hNone, -⟩
  · rw [hQueued, hReader reader hPending]
    exact .inr ⟨rfl, item, rfl⟩
  · rw [hNone] at hPending
    cases hPending

/- The handler that is queued is that of the state. -/
theorem eq_of_fits
    {reader : Reader}
    {item : α}
    {more : List (Reader × α)}
    (hFits : reads.Fits kind)
    (hQueued : reads.queued = (reader, item) :: more) :
    reader = kind.reader ∧ more = [] ∧
      reads.pending = none := by
  rcases hFits with ⟨hNone, -⟩ | ⟨hPending, item', hOne⟩
  · rw [hNone] at hQueued
    cases hQueued
  · rw [hOne, List.cons.injEq, Prod.mk.injEq] at hQueued
    exact ⟨hQueued.1.1.symm, hQueued.2.symm, hPending⟩

theorem fits_none :
    (⟨none, []⟩ : Reads α).Fits kind :=
  .inl ⟨rfl, by simp⟩

end Reads

namespace ReadingLink

variable {s s' : ReadingLink}
variable {label : ReadingLabel}

/- On both sides, while the process runs. -/
structure Single (s : ReadingLink) : Prop where
  master : ∀ state, s.link.master = some state →
    s.master.Fits state.kind
  remote : ∀ state, s.link.remote = some state →
    s.remote.Fits state.kind

theorem single_start : Single start where
  master := by
    rintro state hState
    cases hState
    exact .inl ⟨rfl, by simp [start, StateKind.reader,
      masterFsm, MasterState.kind]⟩
  remote := by
    rintro state hState
    cases hState
    exact .inl ⟨rfl, by simp [start, StateKind.reader,
      remoteFsm, RemoteState.kind]⟩

theorem Single.masterDispatch
    {state : MasterState}
    {event : Event}
    (hSingle : Single s)
    (hState : s.link.master = some state)
    (hQueued : masterFsm.Accepts state event →
      s.master.queued = []) :
    Single (s.masterDispatch state event) := by
  refine ⟨?_, hSingle.remote⟩
  intro next hNext
  have hFits := hSingle.master state hState
  by_cases hAccepts : masterFsm.Accepts state event
  · exact Reads.fits_after (hQueued hAccepts) hFits hNext
  · have hOutcome : (masterFsm.dispatch state event).2 =
        .stays := by
      unfold Fsm.Accepts at hAccepts
      cases hCase : (masterFsm.dispatch state event).2 with
      | stays => rfl
      | transits target =>
          rw [hCase] at hAccepts
          exact absurd rfl hAccepts
      | exits =>
          simp only [ReadingLink.masterDispatch,
            Link.masterDispatch, hCase] at hNext
          cases hNext
    simp only [ReadingLink.masterDispatch,
      Link.masterDispatch, hOutcome] at hNext ⊢
    cases hNext
    exact hFits

theorem Single.remoteDispatch
    {state : RemoteState}
    {event : Event}
    {session : Nat}
    (hSingle : Single s)
    (hState : s.link.remote = some state)
    (hQueued : s.remote.queued = []) :
    Single (s.remoteDispatch state event session) := by
  refine ⟨hSingle.master, ?_⟩
  intro next hNext
  exact Reads.fits_after hQueued
    (hSingle.remote state hState) hNext

/- The steps, one constructor for each way to move. -/
inductive Moves (s : ReadingLink) :
    ReadingLabel → ReadingLink → Prop where
  | command
      {state : MasterState}
      {event : Event}
      (hState : s.link.master = some state)
      (hCommand : IsModeCommand event) :
      Moves s (.command event) (s.masterDispatch state event)
  | masterTimeout
      {state : MasterState}
      (hState : s.link.master = some state)
      (hKind : state.kind = .timerBased) :
      Moves s .masterTimeout (s.masterDispatch state .timeout)
  | remoteTimeout
      {state : RemoteState}
      (hState : s.link.remote = some state)
      (hKind : state.kind = .timerBased) :
      Moves s .remoteTimeout
        (s.remoteDispatch state .timeout 0)
  | masterTakes
      {state : MasterState}
      {reader : Reader}
      {up : Uplink}
      {rest : List Uplink}
      (hState : s.link.master = some state)
      (hPending : s.master.pending = some reader)
      (hHead : s.link.toMaster = up :: rest) :
      Moves s .masterTakes
        { s with
          link := { s.link with toMaster := rest }
          master :=
            ⟨none, s.master.queued ++ [(reader, up)]⟩ }
  | masterHandles
      {state : MasterState}
      {reader : Reader}
      {up : Uplink}
      {more : List (Reader × Uplink)}
      (hState : s.link.master = some state)
      (hQueued : s.master.queued = (reader, up) :: more) :
      Moves s .masterHandles
        (masterHandle
          { s with master := ⟨s.master.pending, more⟩ }
          state up.byte reader)
  | remoteTakes
      {state : RemoteState}
      {reader : Reader}
      {sent : Downlink}
      {rest : List Downlink}
      (hState : s.link.remote = some state)
      (hPending : s.remote.pending = some reader)
      (hHead : s.link.toRemote = sent :: rest) :
      Moves s .remoteTakes
        { s with
          link := { s.link with toRemote := rest }
          remote :=
            ⟨none, s.remote.queued ++ [(reader, sent)]⟩ }
  | remoteHandles
      {state : RemoteState}
      {reader : Reader}
      {sent : Downlink}
      {more : List (Reader × Downlink)}
      {totalReceived totalUsec : Word}
      (hState : s.link.remote = some state)
      (hQueued : s.remote.queued = (reader, sent) :: more) :
      Moves s (.remoteHandles totalReceived totalUsec)
        (remoteHandle
          { s with remote := ⟨s.remote.pending, more⟩ }
          state sent totalReceived totalUsec reader)
  | payload
      {state : MasterState}
      {byte : Byte}
      (hState : s.link.master = some state)
      (hKind : state.kind = .activity)
      (hStandard : IsStandardCode byte) :
      Moves s (.payload byte)
        { s with
          link :=
            { s.link with
              toRemote := s.link.toRemote ++
                [⟨byte, s.link.masterSessions.length⟩] } }
  | loseToRemote
      {index : Nat}
      (hIndex : index < s.link.toRemote.length) :
      Moves s (.loseToRemote index)
        { s with
          link :=
            { s.link with
              toRemote := s.link.toRemote.eraseIdx index } }
  | loseToMaster
      {index : Nat}
      (hIndex : index < s.link.toMaster.length) :
      Moves s (.loseToMaster index)
        { s with
          link :=
            { s.link with
              toMaster := s.link.toMaster.eraseIdx index } }

theorem moves_of_step
    (hStep : step s label = some s') :
    Moves s label s' := by
  cases label with
  | command event =>
      simp only [step] at hStep
      split at hStep
      · rename_i state hState
        split at hStep
        · rename_i hCommand
          cases hStep
          exact .command hState hCommand
        · cases hStep
      · cases hStep
  | masterTimeout =>
      simp only [step] at hStep
      split at hStep
      · rename_i state hState
        split at hStep
        · rename_i hKind
          cases hStep
          exact .masterTimeout hState hKind
        · cases hStep
      · cases hStep
  | remoteTimeout =>
      simp only [step] at hStep
      split at hStep
      · rename_i state hState
        split at hStep
        · rename_i hKind
          cases hStep
          exact .remoteTimeout hState hKind
        · cases hStep
      · cases hStep
  | masterTakes =>
      simp only [step] at hStep
      split at hStep
      · rename_i state reader up rest hState hPending hHead
        cases hStep
        exact .masterTakes hState hPending hHead
      · cases hStep
  | masterHandles =>
      simp only [step] at hStep
      split at hStep
      · rename_i state reader up more hState hQueued
        cases hStep
        exact .masterHandles hState hQueued
      · cases hStep
  | remoteTakes =>
      simp only [step] at hStep
      split at hStep
      · rename_i state reader sent rest hState hPending hHead
        cases hStep
        exact .remoteTakes hState hPending hHead
      · cases hStep
  | remoteHandles totalReceived totalUsec =>
      simp only [step] at hStep
      split at hStep
      · rename_i state reader sent more hState hQueued
        cases hStep
        exact .remoteHandles hState hQueued
      · cases hStep
  | payload byte =>
      rcases Option.map_eq_some_iff.mp hStep with
        ⟨link, hTaken, rfl⟩
      cases Link.moves_of_step hTaken with
      | payload hState hKind hStandard =>
          exact .payload hState hKind hStandard
  | loseToRemote index =>
      rcases Option.map_eq_some_iff.mp hStep with
        ⟨link, hTaken, rfl⟩
      cases Link.moves_of_step hTaken with
      | loseToRemote hIndex => exact .loseToRemote hIndex
  | loseToMaster index =>
      rcases Option.map_eq_some_iff.mp hStep with
        ⟨link, hTaken, rfl⟩
      cases Link.moves_of_step hTaken with
      | loseToMaster hIndex => exact .loseToMaster hIndex

/- A handler runs when no other one is queued. -/
theorem Single.masterHandle
    {state : MasterState}
    {byte : Byte}
    (hSingle : Single s)
    (hState : s.link.master = some state)
    (hQueued : s.master.queued = []) :
    Single (s.masterHandle state byte state.kind.reader) := by
  have hDispatch : ∀ event,
      Single (s.masterDispatch state event) := fun event =>
    hSingle.masterDispatch hState fun _ => hQueued
  cases hReader : state.kind.reader with
  | handleReadEvt =>
      simp only [ReadingLink.masterHandle]
      split
      · exact hDispatch _
      · exact hSingle
  | handleReceive =>
      simp only [ReadingLink.masterHandle]
      split
      · exact hDispatch _
      · refine ⟨?_, hSingle.remote⟩
        intro next hNext
        obtain rfl : state = next :=
          Option.some.inj (hState.symm.trans hNext)
        refine .inl ⟨hQueued, ?_⟩
        intro reader hAgain
        rw [hReader]
        exact (Option.some.inj hAgain).symm

theorem Single.remoteHandle
    {state : RemoteState}
    {sent : Downlink}
    {totalReceived totalUsec : Word}
    (hSingle : Single s)
    (hState : s.link.remote = some state)
    (hQueued : s.remote.queued = []) :
    Single (s.remoteHandle state sent totalReceived totalUsec
      state.kind.reader) := by
  have hDispatch : ∀ event session,
      Single (s.remoteDispatch state event session) :=
    fun event session => hSingle.remoteDispatch hState hQueued
  cases hReader : state.kind.reader with
  | handleReadEvt =>
      simp only [ReadingLink.remoteHandle]
      split
      · exact hDispatch _ _
      · exact hSingle
  | handleReceive =>
      have hAgain : ∀ next, state = next →
          s.remote.again.Fits next.kind := by
        rintro next rfl
        refine .inl ⟨hQueued, ?_⟩
        intro reader hPending
        rw [hReader]
        exact (Option.some.inj hPending).symm
      simp only [ReadingLink.remoteHandle]
      cases hHandling : state.handleByte sent.byte with
      | dispatch event => exact hDispatch _ _
      | echo | sendResults | ignore =>
          refine ⟨?_, ?_⟩
          · rw [Link.remoteRead_master]
            exact hSingle.master
          · intro next hNext
            apply hAgain
            simp only [Link.remoteRead, hHandling,
              Link.sendResults, hState] at hNext
            exact Option.some.inj hNext

theorem Single.step
    (hSingle : Single s)
    (hOk : s.Undisturbed label)
    (hStep : ReadingLink.step s label = some s') :
    Single s' := by
  cases moves_of_step hStep with
  | command hState hCommand =>
      exact hSingle.masterDispatch hState (hOk _ hState)
  | masterTimeout hState hKind =>
      exact hSingle.masterDispatch hState fun _ => hOk
  | remoteTimeout hState hKind =>
      exact hSingle.remoteDispatch hState hOk
  | masterTakes hState hPending hHead =>
      refine ⟨?_, hSingle.remote⟩
      intro next hNext
      exact Reads.fits_take (hSingle.master next hNext)
        hPending
  | @masterHandles state reader up more hState hQueued =>
      rcases Reads.eq_of_fits (hSingle.master state hState)
          hQueued with
        ⟨rfl, rfl, hNone⟩
      rw [hNone]
      have hIdle : Single { s with master := ⟨none, []⟩ } :=
        ⟨fun _ _ => Reads.fits_none, hSingle.remote⟩
      exact hIdle.masterHandle hState rfl
  | remoteTakes hState hPending hHead =>
      refine ⟨hSingle.master, ?_⟩
      intro next hNext
      exact Reads.fits_take (hSingle.remote next hNext)
        hPending
  | @remoteHandles state reader sent more _ _ hState
      hQueued =>
      rcases Reads.eq_of_fits (hSingle.remote state hState)
          hQueued with
        ⟨rfl, rfl, hNone⟩
      rw [hNone]
      have hIdle : Single { s with remote := ⟨none, []⟩ } :=
        ⟨hSingle.master, fun _ _ => Reads.fits_none⟩
      exact hIdle.remoteHandle hState rfl
  | payload hState hKind hStandard =>
      exact ⟨hSingle.master, hSingle.remote⟩
  | loseToRemote hIndex =>
      exact ⟨hSingle.master, hSingle.remote⟩
  | loseToMaster hIndex =>
      exact ⟨hSingle.master, hSingle.remote⟩

------------------------------------------------------------
-- What The Link Sees
------------------------------------------------------------

theorem view_masterDispatch
    (s : ReadingLink)
    (state : MasterState)
    (event : Event) :
    (s.masterDispatch state event).view =
      s.view.masterDispatch state event := by
  simp [view, masterDispatch, Link.masterDispatch]

theorem view_remoteDispatch
    (s : ReadingLink)
    (state : RemoteState)
    (event : Event)
    (session : Nat) :
    (s.remoteDispatch state event session).view =
      s.view.remoteDispatch state event session := by
  simp [view, remoteDispatch, Link.remoteDispatch]

/- Outside of the activities every byte goes to the machine. -/
theorem readByte_of_handleReadEvt
    {state : MasterState}
    (hReader : state.kind.reader = .handleReadEvt)
    (byte : Byte) :
    state.readByte byte = readEvt byte := by
  cases state <;> first
    | rfl
    | cases hReader

theorem handleByte_of_handleReadEvt
    {state : RemoteState}
    (hReader : state.kind.reader = .handleReadEvt)
    (byte : Byte) :
    state.handleByte byte =
      match readEvt byte with
      | some event => .dispatch event
      | none => .ignore := by
  cases state <;> first
    | rfl
    | cases hReader

/- The handler of the state dispatches what the state reads. -/
theorem masterHandle_of_readByte
    {state : MasterState}
    {byte : Byte}
    {event : Event}
    (hRead : state.readByte byte = some event) :
    s.masterHandle state byte state.kind.reader =
      s.masterDispatch state event := by
  cases hReader : state.kind.reader with
  | handleReadEvt =>
      rw [readByte_of_handleReadEvt hReader] at hRead
      simp only [masterHandle, hRead]
  | handleReceive => simp only [masterHandle, hRead]

theorem remoteHandle_of_handleByte
    {state : RemoteState}
    {sent : Downlink}
    {event : Event}
    (totalReceived totalUsec : Word)
    (hHandling : state.handleByte sent.byte =
      .dispatch event) :
    s.remoteHandle state sent totalReceived totalUsec
        state.kind.reader =
      s.remoteDispatch state event sent.session := by
  cases hReader : state.kind.reader with
  | handleReadEvt =>
      rw [handleByte_of_handleReadEvt hReader] at hHandling
      simp only [remoteHandle]
      cases hRead : readEvt sent.byte with
      | none =>
          rw [hRead] at hHandling
          cases hHandling
      | some read =>
          rw [hRead] at hHandling
          cases hHandling
          rfl
  | handleReceive => simp only [remoteHandle, hHandling]

/- The handler of the state reads as the link does. -/
theorem view_masterHandle
    (s : ReadingLink)
    (state : MasterState)
    (byte : Byte) :
    (s.masterHandle state byte state.kind.reader).view =
      s.view.masterRead state byte := by
  cases hRead : state.readByte byte with
  | some event =>
      rw [masterHandle_of_readByte hRead, view_masterDispatch]
      simp only [Link.masterRead, hRead]
  | none =>
      simp only [Link.masterRead, hRead]
      cases hReader : state.kind.reader with
      | handleReadEvt =>
          rw [readByte_of_handleReadEvt hReader] at hRead
          simp only [masterHandle, hRead]
      | handleReceive =>
          simp only [masterHandle, hRead]
          rfl

theorem view_remoteHandle
    (s : ReadingLink)
    (state : RemoteState)
    (sent : Downlink)
    (totalReceived totalUsec : Word) :
    (s.remoteHandle state sent totalReceived totalUsec
        state.kind.reader).view =
      s.view.remoteRead state sent totalReceived
        totalUsec := by
  cases hReader : state.kind.reader with
  | handleReadEvt =>
      simp only [remoteHandle, Link.remoteRead,
        handleByte_of_handleReadEvt hReader]
      cases readEvt sent.byte with
      | some event => exact s.view_remoteDispatch state event _
      | none => rfl
  | handleReceive =>
      simp only [remoteHandle, Link.remoteRead]
      cases state.handleByte sent.byte with
      | dispatch event => exact s.view_remoteDispatch state event _
      | ignore => rfl
      | echo => simp [view, Reads.again]
      | sendResults => simp [view, Reads.again, Link.sendResults]

/- A step that takes a byte shows nothing. -/
theorem view_step
    (hSingle : Single s)
    (hStep : step s label = some s') :
    (s.shown label = none ∧ s'.view = s.view) ∨
      ∃ linkLabel, s.shown label = some linkLabel ∧
        s.view.step linkLabel = some s'.view := by
  cases moves_of_step hStep with
  | @command state event hState hCommand =>
      refine .inr ⟨_, rfl, ?_⟩
      rw [view_masterDispatch]
      exact Link.step_of_moves (.command hState hCommand)
  | masterTimeout hState hKind =>
      refine .inr ⟨_, rfl, ?_⟩
      rw [view_masterDispatch]
      exact Link.step_of_moves (.masterTimeout hState hKind)
  | remoteTimeout hState hKind =>
      refine .inr ⟨_, rfl, ?_⟩
      rw [view_remoteDispatch]
      exact Link.step_of_moves (.remoteTimeout hState hKind)
  | masterTakes hState hPending hHead =>
      refine .inl ⟨rfl, ?_⟩
      simp [view, hHead]
  | remoteTakes hState hPending hHead =>
      refine .inl ⟨rfl, ?_⟩
      simp [view, hHead]
  | @masterHandles state reader up more hState hQueued =>
      rcases Reads.eq_of_fits (hSingle.master state hState)
          hQueued with
        ⟨rfl, rfl, -⟩
      refine .inr ⟨_, rfl, ?_⟩
      rw [view_masterHandle]
      have hHead : s.view.toMaster = up :: s.link.toMaster := by
        simp [view, hQueued]
      rw [Link.step_toMaster (c := s.view) hState hHead]
      rfl
  | @remoteHandles state reader sent more _ _ hState
      hQueued =>
      rcases Reads.eq_of_fits (hSingle.remote state hState)
          hQueued with
        ⟨rfl, rfl, -⟩
      refine .inr ⟨_, rfl, ?_⟩
      rw [view_remoteHandle]
      have hHead : s.view.toRemote =
          sent :: s.link.toRemote := by
        simp [view, hQueued]
      rw [Link.step_toRemote (c := s.view) hState hHead]
      rfl
  | @payload state byte hState hKind hStandard =>
      refine .inr ⟨_, rfl, ?_⟩
      rw [Link.step_of_moves (c := s.view)
        (.payload hState hKind hStandard)]
      simp [view]
  | @loseToRemote index hIndex =>
      refine .inr ⟨_, rfl, ?_⟩
      have hFound : s.remote.queued.length + index <
          s.view.toRemote.length := by
        simp [view, hIndex]
      rw [Link.step_of_moves (.loseToRemote hFound)]
      simp [view, List.eraseIdx_append_of_length_le]
  | @loseToMaster index hIndex =>
      refine .inr ⟨_, rfl, ?_⟩
      have hFound : s.master.queued.length + index <
          s.view.toMaster.length := by
        simp [view, hIndex]
      rw [Link.step_of_moves (.loseToMaster hFound)]
      simp [view, List.eraseIdx_append_of_length_le]

/-
  Reading in two steps adds nothing: what a run leads to is,
  with the bytes of queued handlers back on the line, a state
  of the link on which reads are atomic.
-/
theorem refines_link
    {labels : List ReadingLabel}
    (hUndisturbed : StepSystem.Along step Undisturbed
      start labels)
    (hRun : StepSystem.run step start labels = some s) :
    ∃ labels', StepSystem.run Link.step Link.start labels' =
      some s.view := by
  have hMatched : ∀ s c label s', Single s ∧ c = s.view →
      Undisturbed s label → step s label = some s' →
      (Single s' ∧ c = s'.view) ∨
        ∃ linkLabel c', c.step linkLabel = some c' ∧
          Single s' ∧ c' = s'.view := by
    rintro s _ label s' ⟨hSingle, rfl⟩ hOk hStep
    have hNext := hSingle.step hOk hStep
    rcases view_step hSingle hStep with
      ⟨-, hSame⟩ | ⟨linkLabel, -, hShown⟩
    · exact .inl ⟨hNext, hSame.symm⟩
    · exact .inr ⟨linkLabel, _, hShown, hNext, rfl⟩
  rcases StepSystem.run_simulation_rel hMatched
      ⟨single_start, rfl⟩ hUndisturbed hRun with
    ⟨labels', _, hRun', -, rfl⟩
  exact ⟨labels', hRun'⟩

/-
  The echo of a byte comes back when the master has already
  asked for the end of the mode.
-/
def lateEchoLabels : List ReadingLabel :=
  [.command .availabilityModeCommand,
    .remoteTakes, .remoteHandles 0 0,
    .masterTakes, .masterHandles,
    .payload 7,
    .remoteTakes, .remoteHandles 0 0,
    .remoteTakes, .remoteHandles 0 0,
    .command .endModeCommand,
    .masterTakes, .masterHandles]

theorem undisturbed_lateEchoLabels :
    StepSystem.Along step Undisturbed start
      lateEchoLabels := by
  decide

theorem refines_link_lateEchoLabels :
    ∃ s, StepSystem.run step start lateEchoLabels = some s ∧
      s.link.master = some .waitAckAfterEndMode ∧
      s.master = ⟨none, []⟩ ∧
      ∃ labels', StepSystem.run Link.step Link.start labels' =
        some s.view :=
  ⟨_, rfl, rfl, rfl,
    refines_link undisturbed_lateEchoLabels rfl⟩

end ReadingLink

end ModemTester

------------------------------------------------------------
-- Who Goes Deaf
------------------------------------------------------------

namespace ModemTester

namespace Reads

variable {α S : Type}
variable {reads : Reads α}

theorem Hears.after
    (hHears : reads.Hears)
    (kind : S → StateKind)
    (outcome : Outcome S) :
    (reads.after kind outcome).Hears := by
  cases outcome with
  | stays => exact hHears
  | transits target => exact .inl (Option.some_ne_none _)
  | exits => exact hHears

theorem hears_again (reads : Reads α) : reads.again.Hears :=
  .inl (Option.some_ne_none _)

theorem hears_transits
    (kind : S → StateKind)
    (target : S)
    (reads : Reads α) :
    (reads.after kind (.transits target)).Hears :=
  .inl (Option.some_ne_none _)

/- A byte that was taken has its handler queued. -/
theorem hears_take (reads : Reads α) (entry : Reader × α) :
    (⟨none, reads.queued ++ [entry]⟩ : Reads α).Hears :=
  .inr (by simp)

end Reads

namespace ReadingLink

open Handshake

variable {s s' : ReadingLink}
variable {label : ReadingLabel}
variable {h : Handshake}

/- The run is undisturbed, and what the link sees is clean. -/
def Clean (s : ReadingLink) (label : ReadingLabel) : Prop :=
  s.Undisturbed label ∧
    ∀ linkLabel ∈ s.shown label, s.view.Clean linkLabel

instance (s : ReadingLink) (label : ReadingLabel) :
    Decidable (s.Clean label) :=
  instDecidableAnd

/- Both machines will handle a byte that comes. -/
def Hear (s : ReadingLink) : Prop :=
  s.master.Hears ∧ s.remote.Hears

/-
  The master handles test data or a byte of a result where it
  waits for the end of the mode to be acknowledged.
-/
def ReadsLate (s : ReadingLink) : ReadingLabel → Prop
  | .masterHandles =>
      s.link.master = some .waitAckAfterEndMode ∧
        ∃ entry ∈ s.master.queued.head?,
          ¬ IsCommandByte entry.2.byte
  | _ => False

instance (s : ReadingLink) : (label : ReadingLabel) →
    Decidable (s.ReadsLate label)
  | .masterHandles => instDecidableAnd
  | .command _ | .masterTimeout | .remoteTimeout | .payload _
  | .masterTakes | .remoteTakes | .remoteHandles _ _
  | .loseToRemote _ | .loseToMaster _ => .isFalse id

/- A handler leaves the reads of the other side alone. -/
theorem remote_masterHandle
    (s : ReadingLink)
    (state : MasterState)
    (byte : Byte)
    (reader : Reader) :
    (s.masterHandle state byte reader).remote = s.remote := by
  cases reader <;> simp only [masterHandle] <;> split <;> rfl

theorem master_remoteHandle
    (s : ReadingLink)
    (state : RemoteState)
    (sent : Downlink)
    (totalReceived totalUsec : Word)
    (reader : Reader) :
    (s.remoteHandle state sent totalReceived totalUsec
      reader).master = s.master := by
  cases reader <;> simp only [remoteHandle] <;> split <;> rfl

/- The handler of the master leaves it without a read. -/
theorem masterHears_iff
    {state : MasterState}
    {up : Uplink}
    (hPhase : Link.InPhase s.view h)
    (hPlaced : Link.Placed s.view h)
    (hState : s.link.master = some state)
    (hQueued : s.master.queued = [(state.kind.reader, up)]) :
    (masterHandle { s with master := ⟨none, []⟩ } state
        up.byte state.kind.reader).master.Hears ↔
      ¬ (state = .waitAckAfterEndMode ∧
        ¬ IsCommandByte up.byte) := by
  have hHead : s.view.toMaster = up :: s.link.toMaster := by
    simp [view, hQueued]
  by_cases hCommand : IsCommandByte up.byte
  · obtain rfl : h.phase.master = state :=
      Option.some.inj (hPhase.master.symm.trans hState)
    have hFirst : h.phase.toMaster = up.byte ::
        commandsIn (s.link.toMaster.map Uplink.byte) := by
      rw [← hPhase.toMaster, hHead, List.map_cons,
        commandsIn_cons_of_isCommandByte _ hCommand]
    rcases exists_masterTurn hFirst with
      ⟨event, h', sent, -, hRead, hTurn, -⟩
    refine iff_of_true ?_ fun hLate => hLate.2 hCommand
    rw [masterHandle_of_readByte hRead, masterDispatch,
      hTurn.dispatch]
    exact Reads.hears_transits _ _ _
  · have hMem : up ∈ s.view.toMaster := by simp [hHead]
    rcases (hPlaced.keepsSession hPhase).toMaster up hMem
        hCommand with
      ⟨-, _, hSame, hWhere⟩
    obtain rfl := Option.some.inj (hState.symm.trans hSame)
    have hNone := readByte_of_not_isCommandByte state hCommand
    rcases hWhere with hKind | rfl
    · refine iff_of_true ?_ ?_
      · simp only [hKind, StateKind.reader, masterHandle, hNone]
        exact Reads.hears_again _
      · rintro ⟨rfl, -⟩
        cases hKind
    · refine iff_of_false ?_ fun hNot =>
        hNot ⟨rfl, hCommand⟩
      have hIgnored : readEvt up.byte = none := hNone
      simp [masterHandle, StateKind.reader, MasterState.kind,
        hIgnored, Reads.Hears]

/- The remote reads data in its activity only. -/
theorem remoteHears
    {state : RemoteState}
    {sent : Downlink}
    (totalReceived totalUsec : Word)
    (hPhase : Link.InPhase s.view h)
    (hPlaced : Link.Placed s.view h)
    (hState : s.link.remote = some state)
    (hQueued : s.remote.queued =
      [(state.kind.reader, sent)]) :
    (remoteHandle { s with remote := ⟨none, []⟩ } state sent
      totalReceived totalUsec state.kind.reader).remote.Hears
      := by
  have hHead : s.view.toRemote = sent :: s.link.toRemote := by
    simp [view, hQueued]
  by_cases hCommand : IsCommandByte sent.byte
  · obtain rfl : h.phase.remote = state :=
      Option.some.inj (hPhase.remote.symm.trans hState)
    have hFirst : h.phase.toRemote = sent.byte ::
        commandsIn (s.link.toRemote.map Downlink.byte) := by
      rw [← hPhase.toRemote, hHead, List.map_cons,
        commandsIn_cons_of_isCommandByte _ hCommand]
    rcases exists_remoteTurn hFirst with
      ⟨event, h', bytes, -, hHandling, hTurn, -⟩
    rw [remoteHandle_of_handleByte _ _ hHandling,
      remoteDispatch, hTurn.dispatch]
    exact Reads.hears_transits _ _ _
  · have hFront : sent ∈ s.view.toRemote.head? := by
      simp [hHead]
    rcases (hPlaced.keepsSession hPhase).read sent hFront
        hCommand with
      ⟨-, _, hSame, hKind⟩
    obtain rfl := Option.some.inj (hState.symm.trans hSame)
    simp only [hKind, StateKind.reader, remoteHandle]
    cases hHandling : state.handleByte sent.byte with
    | dispatch event =>
        exact absurd (isCommandByte_of_handleByte hHandling)
          hCommand
    | echo | sendResults | ignore =>
        exact Reads.hears_again _

/- One read at a time, and what the link sees in its phase. -/
def Follows (s : ReadingLink) : Prop :=
  Single s ∧ ∃ h, Link.InPhase s.view h ∧ Link.Placed s.view h

theorem follows_start : Follows start :=
  ⟨single_start, _, Link.inPhase_start, Link.placed_start⟩

theorem Follows.step
    (hFollows : Follows s)
    (hClean : Clean s label)
    (hStep : ReadingLink.step s label = some s') :
    Follows s' := by
  rcases hFollows with ⟨hSingle, h, hPhase, hPlaced⟩
  refine ⟨hSingle.step hClean.1 hStep, ?_⟩
  rcases view_step hSingle hStep with
    ⟨-, hSame⟩ | ⟨linkLabel, hShown, hTaken⟩
  · rw [hSame]
    exact ⟨h, hPhase, hPlaced⟩
  · rcases hPhase.exists_follows (hClean.2 _ hShown) hTaken
      with ⟨h', hNext⟩
    exact ⟨h', hPhase.follows hNext,
      hPlaced.follows hPhase hNext⟩

/- What a clean step does to the reads. -/
theorem hear_iff_of_step
    (hFollows : Follows s)
    (hHear : Hear s)
    (hClean : Clean s label)
    (hStep : ReadingLink.step s label = some s') :
    Hear s' ↔ ¬ ReadsLate s label := by
  rcases hFollows with ⟨hSingle, h, hPhase, hPlaced⟩
  rcases hHear with ⟨hMaster, hRemote⟩
  cases moves_of_step hStep with
  | masterTimeout | remoteTimeout | loseToRemote
  | loseToMaster => exact (hClean.2 _ rfl).elim
  | command hState hCommand =>
      exact iff_of_true ⟨hMaster.after _ _, hRemote⟩ id
  | payload hState hKind hStandard =>
      exact iff_of_true ⟨hMaster, hRemote⟩ id
  | masterTakes hState hPending hHead =>
      exact iff_of_true ⟨Reads.hears_take _ _, hRemote⟩ id
  | remoteTakes hState hPending hHead =>
      exact iff_of_true ⟨hMaster, Reads.hears_take _ _⟩ id
  | @masterHandles state reader up more hState hQueued =>
      rcases Reads.eq_of_fits (hSingle.master state hState)
          hQueued with
        ⟨rfl, rfl, hNone⟩
      rw [hNone]
      have hLate : ReadsLate s .masterHandles ↔
          state = .waitAckAfterEndMode ∧
            ¬ IsCommandByte up.byte := by
        simp [ReadsLate, hState, hQueued]
      rw [Hear, remote_masterHandle, hLate,
        masterHears_iff hPhase hPlaced hState hQueued]
      exact and_iff_left hRemote
  | @remoteHandles state reader sent more totalReceived
      totalUsec hState hQueued =>
      rcases Reads.eq_of_fits (hSingle.remote state hState)
          hQueued with
        ⟨rfl, rfl, hNone⟩
      rw [hNone]
      refine iff_of_true ⟨?_, ?_⟩ id
      · rw [master_remoteHandle]
        exact hMaster
      · exact remoteHears _ _ hPhase hPlaced hState hQueued

end ReadingLink

end ModemTester
