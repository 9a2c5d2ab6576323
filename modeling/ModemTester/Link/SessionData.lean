import ModemTester.Link.CleanHandshake

/-
  Test data and results keep to their session.

  The queues of the link keep order, so that the commands of
  the handshake fence off what the activities write: in a
  clean run data travels to the remote only between the
  acknowledgement that starts its session and the command
  that ends it, and back only before the acknowledgement of
  that command. Each activity therefore starts on an empty
  link, and no echo and no result is read in a later session.

  Key definitions include:
    * `Carries`
    * `Link.Placed`
    * `Link.KeepsSession`

  Main declarations:
    * `Link.keeps_session`
    * `Link.starts_afresh`
-/

------------------------------------------------------------
-- Data Between Commands
------------------------------------------------------------

namespace ModemTester

/-
  The bytes are data between `lead` and `tail`, and there is
  data only where it is allowed.
-/
def Carries
    (bytes lead tail : List Byte)
    (allowed : Prop) : Prop :=
  ∃ data, bytes = lead ++ data ++ tail ∧
    commandsIn data = [] ∧ (¬ allowed → data = [])

namespace Carries

variable {bytes lead tail : List Byte}
variable {allowed allowed' : Prop}

theorem mono
    (hCarries : Carries bytes lead tail allowed)
    (hAllowed : allowed → allowed') :
    Carries bytes lead tail allowed' := by
  rcases hCarries with ⟨data, hBytes, hData, hNone⟩
  exact ⟨data, hBytes, hData, fun hNot =>
    hNone fun hOld => hNot (hAllowed hOld)⟩

/- Where no data is allowed there are only commands. -/
theorem eq_of_not
    (hCarries : Carries bytes lead tail allowed)
    (hNot : ¬ allowed) :
    bytes = lead ++ tail := by
  rcases hCarries with ⟨data, rfl, -, hNone⟩
  rw [hNone hNot, List.append_nil]

/- Commands are written behind the data, -/
theorem append_tail
    (hCarries : Carries bytes lead [] allowed)
    (sent : List Byte) :
    Carries (bytes ++ sent) lead sent allowed := by
  rcases hCarries with ⟨data, rfl, hData, hNone⟩
  exact ⟨data, by rw [List.append_nil], hData, hNone⟩

/- and data behind data. -/
theorem append_data
    {written : List Byte}
    (hCarries : Carries bytes lead [] allowed)
    (hWritten : commandsIn written = [])
    (hAllowed : allowed) :
    Carries (bytes ++ written) lead [] allowed := by
  rcases hCarries with ⟨data, rfl, hData, -⟩
  refine ⟨data ++ written, ?_, ?_, absurd hAllowed⟩
  · simp only [List.append_nil, List.append_assoc]
  · rw [commandsIn_append, hData, hWritten]
    rfl

/- A command that is read is the first or the last. -/
theorem of_command
    {byte : Byte}
    (hCarries : Carries (byte :: bytes) lead tail allowed)
    (hCommand : IsCommandByte byte) :
    (∃ lead', lead = byte :: lead' ∧
        Carries bytes lead' tail allowed) ∨
      lead = [] ∧ tail = byte :: bytes := by
  rcases hCarries with ⟨data, hBytes, hData, hNone⟩
  cases lead with
  | cons first lead' =>
      rw [List.cons_append, List.cons_append,
        List.cons.injEq] at hBytes
      rcases hBytes with ⟨rfl, hRest⟩
      exact .inl ⟨lead', rfl, data, hRest, hData, hNone⟩
  | nil =>
      cases data with
      | nil => exact .inr ⟨rfl, hBytes.symm⟩
      | cons first data =>
          rw [List.nil_append, List.cons_append,
            List.cons.injEq] at hBytes
          rcases hBytes with ⟨rfl, -⟩
          rw [commandsIn_cons_of_isCommandByte _ hCommand]
            at hData
          cases hData

/- Data is read where it is allowed and no command leads. -/
theorem of_data
    {byte : Byte}
    (hCarries : Carries (byte :: bytes) lead tail allowed)
    (hCommands : commandsIn (lead ++ tail) = lead ++ tail)
    (hNot : ¬ IsCommandByte byte) :
    lead = [] ∧ allowed ∧ Carries bytes lead tail allowed := by
  rcases hCarries with ⟨data, hBytes, hData, hNone⟩
  have hFirst : ∀ rest, lead ++ tail ≠ byte :: rest := by
    intro rest hHead
    have hMem : byte ∈ commandsIn (lead ++ tail) := by
      rw [hCommands, hHead]
      exact List.mem_cons_self
    exact hNot (by simpa using (List.mem_filter.mp hMem).2)
  cases lead with
  | cons first lead' =>
      rw [List.cons_append, List.cons_append,
        List.cons.injEq] at hBytes
      rcases hBytes with ⟨rfl, -⟩
      exact absurd rfl (hFirst _)
  | nil =>
      cases data with
      | nil => exact absurd hBytes.symm (hFirst _)
      | cons first data =>
          rw [List.nil_append, List.cons_append,
            List.cons.injEq] at hBytes
          rcases hBytes with ⟨rfl, hRest⟩
          have hAllowed : allowed := by
            by_contra hClosed
            cases hNone hClosed
          rw [commandsIn_cons_of_not _ hNot] at hData
          exact ⟨rfl, hAllowed, data, hRest, hData,
            absurd hAllowed⟩

end Carries

------------------------------------------------------------
-- Where Each Phase Has Its Data
------------------------------------------------------------

namespace Phase

/- The commands in front of the data to the remote. -/
def lead : Phase → List Byte
  | .entered _ | .left _ | .closing | .reopened _ =>
      [masterAckId]
  | .rest | .requested _ | .granted _ | .running _
  | .ending _ | .ended => []

/- And those behind it. -/
def tail : Phase → List Byte
  | .requested mode | .reopened mode => [mode.commandId]
  | .left _ | .ending _ => [endModeCommandId]
  | .rest | .granted _ | .entered _ | .running _ | .ended
  | .closing => []

/- Data of the session may be on its way to the remote. -/
def DataDown : Phase → Prop
  | .entered _ | .running _ | .left _ | .ending _ => True
  | _ => False

/- Echoes and results may be on their way back. -/
def DataUp : Phase → Prop
  | .running _ | .ending _ | .ended => True
  | _ => False

theorem commandsIn_lead_tail (phase : Phase) :
    commandsIn (phase.lead ++ phase.tail) =
      phase.lead ++ phase.tail := by
  cases phase with
  | requested mode | entered mode | left mode | ending mode
  | reopened mode => cases mode <;> decide
  | rest | granted | running | ended | closing => rfl

theorem commandsIn_toMaster (phase : Phase) :
    commandsIn phase.toMaster = phase.toMaster := by
  cases phase <;> rfl

/- Where data comes back the remote has started all. -/
theorem ahead_of_dataUp
    {phase : Phase}
    (hUp : phase.DataUp) :
    phase.ahead = [] ∧
      (phase.master.kind = .activity ∨
        phase.master = .waitAckAfterEndMode) := by
  cases phase with
  | running mode =>
      exact ⟨rfl, .inl (by cases mode <;> rfl)⟩
  | ending | ended => exact ⟨rfl, .inr rfl⟩
  | rest | requested | granted | entered | left | closing
  | reopened => exact hUp.elim

/- Data is first on the line only in the activity. -/
theorem running_of_dataDown
    {phase : Phase}
    (hDown : phase.DataDown)
    (hLead : phase.lead = []) :
    phase.ahead = [] ∧ phase.remote.kind = .activity ∧
      phase.DataUp ∧ phase.toMaster = [] := by
  cases phase with
  | running mode | ending mode =>
      exact ⟨rfl, by cases mode <;> rfl, trivial, rfl⟩
  | entered | left => cases hLead
  | rest | requested | granted | ended | closing
  | reopened => exact hDown.elim

/- Where the master writes data it has not ended the mode. -/
theorem tail_of_activity
    {phase : Phase}
    (hKind : phase.master.kind = .activity) :
    phase.tail = [] ∧ phase.DataDown := by
  cases phase with
  | entered | running => exact ⟨rfl, trivial⟩
  | requested mode | granted mode | reopened mode =>
      cases mode <;> cases hKind
  | rest | left | ending | ended | closing => cases hKind

end Phase

namespace Handshake

variable {h h' : Handshake}
variable {event : Event}
variable {bytes : List Byte}

/- A command is written behind the data of its session. -/
theorem placed_of_command
    (hTurns : step h (.command event) = some h')
    (hTurn : MasterTurn h event h' bytes) :
    h.phase.tail = [] ∧ h'.phase.tail = bytes ∧
      h'.phase.lead = h.phase.lead ∧
      (h.phase.DataDown → h'.phase.DataDown) ∧
      (h.phase.DataUp → h'.phase.DataUp) ∧
      h'.phase.ahead = h.phase.ahead := by
  have hSent := hTurn.toRemote
  rcases h with ⟨phase, sessions⟩
  cases phase with
  | rest | closing | entered mode | running mode =>
      cases event <;> cases hTurns
      all_goals
        simp [Phase.toRemote] at hSent
        simp [Phase.tail, Phase.lead, Phase.DataDown,
          Phase.DataUp, Phase.ahead, hSent]
  | requested | granted | left | ending | ended | reopened =>
      cases hTurns

/- The remote reads the commands around the data in turn. -/
theorem carries_of_remoteReads
    {byte : Byte}
    {rest : List Byte}
    (hTurns : step h .remoteReads = some h')
    (hCarries : Carries (byte :: rest) h.phase.lead
      h.phase.tail h.phase.DataDown)
    (hCommand : IsCommandByte byte) :
    Carries rest h'.phase.lead h'.phase.tail
      h'.phase.DataDown := by
  rcases h with ⟨phase, sessions⟩
  rcases hCarries.of_command hCommand with
    ⟨lead', hLead, hRest⟩ | ⟨hLead, hTail⟩
  · cases phase with
    | entered | left | closing | reopened =>
        cases hTurns
        cases hLead
        exact hRest
    | rest | requested | granted | running | ending
    | ended => cases hLead
  · cases phase with
    | requested | ending =>
        cases hTurns
        cases hTail
        exact ⟨[], rfl, rfl, fun _ => rfl⟩
    | entered | left | closing | reopened => cases hLead
    | rest | granted | running | ended => cases hTail

/- It answers behind the data it has sent back. -/
theorem placed_of_remoteReads
    (hTurns : step h .remoteReads = some h')
    (hTurn : RemoteTurn h event h' bytes) :
    h.phase.toMaster = [] ∧ h'.phase.toMaster = bytes ∧
      (h.phase.DataUp → h'.phase.DataUp) ∧
      (h'.sessions ≠ h.sessions →
        ¬ h.phase.DataUp ∧ bytes = []) := by
  have hSent := hTurn.toMaster
  rcases h with ⟨phase, sessions⟩
  cases phase with
  | requested | entered | left | ending | closing
  | reopened =>
      cases hTurns
      simp [Phase.toMaster] at hSent
      simp [Phase.toMaster, Phase.DataUp, hSent]
  | rest | granted | running | ended => cases hTurns

/- The master finds its answer behind all data. -/
theorem placed_of_masterReads
    (hTurns : step h .masterReads = some h')
    (hTurn : MasterTurn h event h' bytes) :
    ¬ h.phase.DataDown ∧ h.phase.lead = [] ∧
      h.phase.tail = [] ∧ h.phase.toMaster = [remoteAckId] ∧
      h'.phase.lead = bytes ∧ bytes = [masterAckId] ∧
      h'.phase.tail = [] ∧ h'.phase.toMaster = [] := by
  have hSent := hTurn.toRemote
  rcases h with ⟨phase, sessions⟩
  cases phase with
  | granted | ended =>
      cases hTurns
      simp [Phase.toRemote] at hSent
      simp [Phase.toMaster, Phase.DataDown, Phase.lead,
        Phase.tail, hSent]
  | rest | requested | entered | running | left | ending
  | closing | reopened => cases hTurns

end Handshake

end ModemTester

------------------------------------------------------------
-- Data On The Link
------------------------------------------------------------

namespace ModemTester

namespace Link

open Handshake

/- Both queues carry data only where the phase has it. -/
structure Placed (c : Link) (h : Handshake) : Prop where
  toRemote : Carries (c.toRemote.map Downlink.byte)
    h.phase.lead h.phase.tail h.phase.DataDown
  toMaster : Carries (c.toMaster.map Uplink.byte)
    [] h.phase.toMaster h.phase.DataUp
  /- Data to the remote is of the session of the master. -/
  session : ∀ sent ∈ c.toRemote,
    ¬ IsCommandByte sent.byte → IsStandardCode sent.byte ∧
      sent.session = c.masterSessions.length

theorem placed_start : Placed start Handshake.start where
  toRemote := ⟨[], rfl, rfl, fun _ => rfl⟩
  toMaster := ⟨[], rfl, rfl, fun _ => rfl⟩
  session := by simp [start]

variable {c c' : Link}
variable {h h' : Handshake}
variable {label : LinkLabel}

/- What a dispatch of the master writes is no data. -/
theorem session_masterDispatch
    {state : MasterState}
    {event : Event}
    {sent : Downlink}
    (hMem : sent ∈ (c.masterDispatch state event).toRemote)
    (hNot : ¬ IsCommandByte sent.byte) :
    sent ∈ c.toRemote := by
  simp only [masterDispatch, List.mem_append,
    List.mem_map] at hMem
  rcases hMem with hOld | ⟨byte, hByte, rfl⟩
  · exact hOld
  · rw [← commandsIn_masterSent] at hByte
    exact absurd (by simpa using (List.mem_filter.mp hByte).2)
      hNot

theorem bytes_masterDispatch
    (state : MasterState)
    (event : Event) :
    (c.masterDispatch state event).toRemote.map
        Downlink.byte =
      c.toRemote.map Downlink.byte ++
        (masterFsm.dispatch state event).1 := by
  simp only [masterDispatch, List.map_append, List.map_map]
  exact congrArg _ (List.map_id _)

theorem bytes_remoteDispatch
    (state : RemoteState)
    (event : Event)
    (session : Nat) :
    (c.remoteDispatch state event session).toMaster.map
        Uplink.byte =
      c.toMaster.map Uplink.byte ++
        (remoteFsm.dispatch state event).1 := by
  simp only [remoteDispatch, List.map_append, List.map_map]
  exact congrArg _ (List.map_id _)

/- Reading data writes data. -/
theorem bytes_remoteRead_of_not
    {state : RemoteState}
    {sent : Downlink}
    {rest : List Downlink}
    {totalReceived totalUsec : Word}
    (hState : c.remote = some state)
    (hHead : c.toRemote = sent :: rest)
    (hNot : ¬ IsCommandByte sent.byte)
    (hClean : c.Clean (.toRemote totalReceived totalUsec)) :
    ∃ written,
      ({ c with toRemote := rest }.remoteRead state sent
          totalReceived totalUsec).toMaster.map Uplink.byte =
        c.toMaster.map Uplink.byte ++ written ∧
      commandsIn written = [] := by
  unfold Link.remoteRead
  cases hHandling : state.handleByte sent.byte with
  | dispatch event =>
      exact absurd (isCommandByte_of_handleByte hHandling) hNot
  | ignore => exact ⟨[], (List.append_nil _).symm, rfl⟩
  | echo =>
      exact ⟨[sent.byte], List.map_append,
        commandsIn_cons_of_not _ hNot⟩
  | sendResults =>
      rcases handleByte_eq_sendResults hHandling with
        ⟨hMode, hByte⟩
      refine ⟨resultBytes totalReceived totalUsec, ?_, ?_⟩
      · simp only [sendResults, List.map_append,
          map_byte_replyBytes]
      · refine commandsIn_eq_nil (hClean ⟨?_, ?_⟩)
        · rw [hState, hMode]
        · rw [remoteHead, hHead]
          exact congrArg some hByte

theorem Placed.masterDispatch_of_command
    {event : Event}
    {sent : List Byte}
    (hPhase : InPhase c h)
    (hPlaced : Placed c h)
    (hTurns : Handshake.step h (.command event) = some h')
    (hTurn : MasterTurn h event h' sent)
    (hSame : h'.phase.toMaster = h.phase.toMaster) :
    Placed (c.masterDispatch h.phase.master event) h' := by
  have hToRemote := hPlaced.toRemote
  rcases placed_of_command hTurns hTurn with
    ⟨hOpen, hTail, hLead, hDown, hUp, hAhead⟩
  refine ⟨?_, ?_, ?_⟩
  · rw [bytes_masterDispatch, hTurn.dispatch, hLead, hTail]
    rw [hOpen] at hToRemote
    exact (hToRemote.append_tail sent).mono hDown
  · rw [hSame]
    exact hPlaced.toMaster.mono hUp
  · intro other hMem hNot
    have hSessions :
        (c.masterDispatch h.phase.master event).masterSessions
          = c.masterSessions := by
      rw [Link.masterDispatch, hTurn.dispatch,
        hPhase.masterSessions, ← hTurn.sessions,
        hTurn.same_sessions, hAhead]
    rw [hSessions]
    exact hPlaced.session other
      (session_masterDispatch hMem hNot) hNot

theorem Placed.masterDispatch_of_read
    {sent : Uplink}
    {rest : List Uplink}
    {event : Event}
    {bytes : List Byte}
    (hPlaced : Placed c h)
    (hHead : c.toMaster = sent :: rest)
    (hCommand : IsCommandByte sent.byte)
    (hTurns : Handshake.step h .masterReads = some h')
    (hTurn : MasterTurn h event h' bytes) :
    c.toRemote = [] ∧ rest = [] ∧
      Placed
        ({ c with toMaster := rest }.masterDispatch
          h.phase.master event) h' := by
  rcases placed_of_masterReads hTurns hTurn with
    ⟨hDown, hLead, hTail, hAnswer, hLead', -, hTail', hUp'⟩
  have hToRemote := hPlaced.toRemote.eq_of_not hDown
  rw [hLead, hTail, List.append_nil, List.map_eq_nil_iff]
    at hToRemote
  have hToMaster := hPlaced.toMaster
  rw [hHead, List.map_cons, hAnswer] at hToMaster
  have hRest : rest = [] := by
    rcases hToMaster.of_command hCommand with
      ⟨lead', hNone, -⟩ | ⟨-, hLast⟩
    · cases hNone
    · rw [List.cons.injEq] at hLast
      exact List.map_eq_nil_iff.mp hLast.2.symm
  refine ⟨hToRemote, hRest, ?_, ?_, ?_⟩
  · rw [bytes_masterDispatch, hTurn.dispatch, hLead', hTail',
      hToRemote]
    exact ⟨[], by simp, rfl, fun _ => rfl⟩
  · rw [hUp', hRest]
    exact ⟨[], rfl, rfl, fun _ => rfl⟩
  · intro other hMem hNot
    have hOld := session_masterDispatch hMem hNot
    rw [hToRemote] at hOld
    cases hOld

theorem Placed.remoteDispatch
    {sent : Downlink}
    {rest : List Downlink}
    {event : Event}
    {bytes : List Byte}
    (hPlaced : Placed c h)
    (hHead : c.toRemote = sent :: rest)
    (hCommand : IsCommandByte sent.byte)
    (hTurns : Handshake.step h .remoteReads = some h')
    (hTurn : RemoteTurn h event h' bytes) :
    Placed
      ({ c with toRemote := rest }.remoteDispatch
        h.phase.remote event sent.session) h' := by
  have hToRemote := hPlaced.toRemote
  have hToMaster := hPlaced.toMaster
  rw [hHead, List.map_cons] at hToRemote
  rcases placed_of_remoteReads hTurns hTurn with
    ⟨hNone, hAnswer, hUp, -⟩
  refine ⟨carries_of_remoteReads hTurns hToRemote hCommand,
    ?_, ?_⟩
  · rw [hNone] at hToMaster
    rw [bytes_remoteDispatch, hTurn.dispatch, hAnswer]
    exact (hToMaster.append_tail bytes).mono hUp
  · intro other hMem hNot
    refine hPlaced.session other ?_ hNot
    rw [hHead]
    exact List.mem_cons_of_mem _ hMem

/- Data is read by the activity, and answered with data. -/
theorem Placed.remoteRead
    {sent : Downlink}
    {rest : List Downlink}
    {totalReceived totalUsec : Word}
    (hPhase : InPhase c h)
    (hPlaced : Placed c h)
    (hHead : c.toRemote = sent :: rest)
    (hNot : ¬ IsCommandByte sent.byte)
    (hClean : c.Clean (.toRemote totalReceived totalUsec)) :
    Placed
      ({ c with toRemote := rest }.remoteRead h.phase.remote
        sent totalReceived totalUsec) h := by
  have hToRemote := hPlaced.toRemote
  have hToMaster := hPlaced.toMaster
  rw [hHead, List.map_cons] at hToRemote
  rcases hToRemote.of_data h.phase.commandsIn_lead_tail hNot
    with ⟨hLead, hDown, hRest⟩
  rcases Phase.running_of_dataDown hDown hLead with
    ⟨-, -, hUp, hNone⟩
  rcases bytes_remoteRead_of_not hPhase.remote hHead hNot
    hClean with ⟨written, hBytes, hWritten⟩
  refine ⟨?_, ?_, ?_⟩
  · rw [remoteRead_toRemote]
    exact hRest
  · rw [hNone] at hToMaster ⊢
    rw [hBytes]
    exact hToMaster.append_data hWritten hUp
  · intro other hMem hOther
    rw [remoteRead_toRemote] at hMem
    rw [remoteRead_masterSessions]
    refine hPlaced.session other ?_ hOther
    rw [hHead]
    exact List.mem_cons_of_mem _ hMem

theorem Placed.follows
    (hPhase : InPhase c h)
    (hPlaced : Placed c h)
    (hFollows : Follows c h label c' h') :
    Placed c' h' := by
  cases hFollows with
  | refused => exact hPlaced
  | command hTurns hTurn hSame =>
      exact hPlaced.masterDispatch_of_command hPhase hTurns
        hTurn hSame
  | @payload byte hKind hStandard =>
      rcases Phase.tail_of_activity hKind with ⟨hOpen, hDown⟩
      have hToRemote := hPlaced.toRemote
      have hNot := not_isCommandByte_of_isStandardCode hStandard
      rw [hOpen] at hToRemote
      refine ⟨?_, hPlaced.toMaster, ?_⟩
      · rw [List.map_append, hOpen]
        exact hToRemote.append_data
          (commandsIn_cons_of_not [] hNot) hDown
      · intro other hMem hOther
        rcases List.mem_append.mp hMem with hOld | hNew
        · exact hPlaced.session other hOld hOther
        · rw [List.mem_singleton.mp hNew]
          exact ⟨hStandard, rfl⟩
  | remoteTurn _ _ hHead hCommand hTurns hTurn hRest =>
      exact hPlaced.remoteDispatch hHead hCommand hTurns hTurn
  | remoteData hHead hNot hClean =>
      exact hPlaced.remoteRead hPhase hHead hNot hClean
  | masterTurn hHead hCommand hTurns hTurn hRest =>
      exact (hPlaced.masterDispatch_of_read hHead hCommand
        hTurns hTurn).2.2
  | masterData hHead hNot =>
      have hToMaster := hPlaced.toMaster
      rw [hHead, List.map_cons] at hToMaster
      exact ⟨hPlaced.toRemote,
        (hToMaster.of_data h.phase.commandsIn_toMaster
          hNot).2.2,
        hPlaced.session⟩

------------------------------------------------------------
-- Sessions Do Not Mix
------------------------------------------------------------

/-
  The data to the remote is of the session the master is in,
  and the remote reads it in the activity of that session.
  The data to the master comes from that session too, and is
  read in its activity or while it is ended.
-/
structure KeepsSession (c : Link) : Prop where
  toRemote : ∀ sent ∈ c.toRemote,
    ¬ IsCommandByte sent.byte →
      sent.session = c.masterSessions.length
  read : ∀ sent ∈ c.toRemote.head?,
    ¬ IsCommandByte sent.byte →
      c.remoteSessions = c.masterSessions ∧
        ∃ state, c.remote = some state ∧
          state.kind = .activity
  toMaster : ∀ sent ∈ c.toMaster,
    ¬ IsCommandByte sent.byte →
      c.remoteSessions = c.masterSessions ∧
        ∃ state, c.master = some state ∧
          (state.kind = .activity ∨
            state = .waitAckAfterEndMode)

/-
  The master starts a session with nothing on the link but
  its acknowledgement, and the remote with nothing on its
  way back.
-/
def StartsAfresh (c c' : Link) : Prop :=
  (c'.masterSessions ≠ c.masterSessions →
      c'.toRemote.map Downlink.byte = [masterAckId] ∧
        c'.toMaster = []) ∧
    (c'.remoteSessions ≠ c.remoteSessions →
      c'.toMaster = [])

theorem InPhase.same_sessions
    (hPhase : InPhase c h)
    (hAhead : h.phase.ahead = []) :
    c.remoteSessions = c.masterSessions := by
  rw [hPhase.remoteSessions, hPhase.masterSessions, hAhead,
    List.append_nil]

theorem Placed.keepsSession
    (hPhase : InPhase c h)
    (hPlaced : Placed c h) :
    c.KeepsSession := by
  refine ⟨?_, ?_, ?_⟩
  · intro sent hSent hNot
    exact (hPlaced.session sent hSent hNot).2
  · intro sent hSent hNot
    rcases List.head?_eq_some_iff.mp hSent with ⟨rest, hHead⟩
    have hToRemote := hPlaced.toRemote
    rw [hHead, List.map_cons] at hToRemote
    rcases hToRemote.of_data h.phase.commandsIn_lead_tail hNot
      with ⟨hLead, hDown, -⟩
    rcases Phase.running_of_dataDown hDown hLead with
      ⟨hAhead, hKind, -⟩
    exact ⟨hPhase.same_sessions hAhead, _, hPhase.remote,
      hKind⟩
  · intro sent hSent hNot
    have hUp : h.phase.DataUp := by
      by_contra hClosed
      have hBytes := hPlaced.toMaster.eq_of_not hClosed
      have hMem : sent.byte ∈ commandsIn h.phase.toMaster := by
        rw [Phase.commandsIn_toMaster, ← List.nil_append
          h.phase.toMaster, ← hBytes]
        exact List.mem_map_of_mem hSent
      exact hNot (by simpa using (List.mem_filter.mp hMem).2)
    rcases Phase.ahead_of_dataUp hUp with ⟨hAhead, hState⟩
    exact ⟨hPhase.same_sessions hAhead, _, hPhase.master,
      hState⟩

theorem Placed.startsAfresh
    (hPhase : InPhase c h)
    (hPlaced : Placed c h)
    (hFollows : Follows c h label c' h') :
    StartsAfresh c c' := by
  have hNext := hPhase.follows hFollows
  cases hFollows with
  | refused | payload | masterData =>
      exact ⟨absurd rfl, absurd rfl⟩
  | @command event h' sent hTurns hTurn hSame =>
      rcases placed_of_command hTurns hTurn with
        ⟨-, -, -, -, -, hAhead⟩
      refine ⟨absurd ?_, absurd rfl⟩
      rw [hNext.masterSessions, hPhase.masterSessions,
        hTurn.same_sessions, hAhead]
  | @remoteTurn sent rest event h' bytes _ _ hHead hCommand
      hTurns hTurn hRest =>
      rcases placed_of_remoteReads hTurns hTurn with
        ⟨hNone, -, -, hStarts⟩
      refine ⟨absurd rfl, ?_⟩
      intro hNew
      rw [hNext.remoteSessions, hPhase.remoteSessions] at hNew
      rcases hStarts hNew with ⟨hUp, hBytes⟩
      have hToMaster := hPlaced.toMaster.eq_of_not hUp
      rw [hNone, List.append_nil, List.map_eq_nil_iff]
        at hToMaster
      simp only [Link.remoteDispatch, hTurn.dispatch, hBytes,
        hToMaster, List.map_nil, List.append_nil]
  | remoteData hHead hNot hClean =>
      refine ⟨absurd ?_, absurd ?_⟩
      · rw [remoteRead_masterSessions]
      · rw [hNext.remoteSessions, hPhase.remoteSessions]
  | @masterTurn sent rest event h' bytes hHead hCommand hTurns
      hTurn hRest =>
      rcases hPlaced.masterDispatch_of_read hHead hCommand
        hTurns hTurn with ⟨hToRemote, hEmpty, -⟩
      rcases placed_of_masterReads hTurns hTurn with
        ⟨-, -, -, -, -, hBytes, -, -⟩
      refine ⟨fun _ => ⟨?_, hEmpty⟩, absurd rfl⟩
      rw [bytes_masterDispatch, hTurn.dispatch, hBytes,
        hToRemote]
      rfl

theorem placed_of_run
    {labels : List LinkLabel}
    (hClean : StepSystem.Along step Clean start labels)
    (hRun : StepSystem.run step start labels = some c) :
    ∃ h, InPhase c h ∧ Placed c h := by
  refine StepSystem.run_invariant_along
    (I := fun c : Link => ∃ h, InPhase c h ∧ Placed c h)
    ?_ ⟨_, inPhase_start, placed_start⟩ hClean hRun
  rintro c label c' ⟨h, hPhase, hPlaced⟩ hOk hStep
  rcases hPhase.exists_follows hOk hStep with ⟨h', hFollows⟩
  exact ⟨h', hPhase.follows hFollows,
    hPlaced.follows hPhase hFollows⟩

/-
  In every state of a clean run, data on the link belongs to
  the session that both machines are in, and is read in it.
-/
theorem keeps_session
    {labels : List LinkLabel}
    (hClean : StepSystem.Along step Clean start labels)
    (hRun : StepSystem.run step start labels = some c) :
    c.KeepsSession := by
  rcases placed_of_run hClean hRun with ⟨h, hPhase, hPlaced⟩
  exact hPlaced.keepsSession hPhase

/- The reply of a session is on its way to the master. -/
theorem keeps_session_repliedLabels :
    ∃ c, StepSystem.run step start repliedLabels = some c ∧
      c.toMaster.length = 8 ∧
      c.KeepsSession := by
  refine ⟨_, rfl, rfl, ?_⟩
  exact @keeps_session _ repliedLabels clean_repliedLabels rfl

/-
  However a clean run goes on, the next session starts on an
  empty link.
-/
theorem starts_afresh
    {labels : List LinkLabel}
    {label : LinkLabel}
    (hClean : StepSystem.Along step Clean start labels)
    (hRun : StepSystem.run step start labels = some c)
    (hOk : c.Clean label)
    (hStep : step c label = some c') :
    StartsAfresh c c' := by
  rcases placed_of_run hClean hRun with ⟨h, hPhase, hPlaced⟩
  rcases hPhase.exists_follows hOk hStep with ⟨h', hFollows⟩
  exact hPlaced.startsAfresh hPhase hFollows

/- A second session, after one with data. -/
def secondSession : List LinkLabel :=
  repliedLabels ++ List.replicate 8 .toMaster ++
    [.command .endModeCommand, .toRemote 0 0, .toMaster,
      .toRemote 0 0, .command .availabilityModeCommand,
      .toRemote 0 0]

theorem starts_afresh_secondSession :
    ∃ c c', StepSystem.run step start secondSession = some c ∧
      step c .toMaster = some c' ∧
      c'.masterSessions = [.throughput, .availability] ∧
      StartsAfresh c c' := by
  refine ⟨_, _, rfl, rfl, rfl, ?_⟩
  exact @starts_afresh _ _ secondSession .toMaster
    (by decide +kernel) rfl trivial rfl

end Link

end ModemTester
