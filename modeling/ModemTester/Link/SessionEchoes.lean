import ModemTester.Link.SessionData

/-
  What a test carries through both state machines.

  Beside the link stands what the master has written, and
  what the remote and the master have read, since the master
  started its last session. In a clean run what the remote
  has read and what is on its way to it are together what
  was written, in order: nothing is lost, repeated or out of
  place, and nothing is of another session. In a test of
  availability so are the codes read back, on their way back
  and on their way there. When the master is idle again all
  of it has been read, by `HandleReadEvt` where the mode was
  being ended.

  The activity of the remote owns the stream as long as its
  state lasts. A code that `HandleReadEvt` took there would
  not be written back (`StreamOwnership.lean`).

  Key definitions include:
    * `SessionEchoes`
    * `SessionEchoes.step`

  Main declarations:
    * `SessionEchoes.data_in_order`
    * `SessionEchoes.echoes_in_order`
-/

------------------------------------------------------------
-- Written And Read Back
------------------------------------------------------------

namespace ModemTester

/- The bytes that are no identifiers of events. -/
def dataIn (bytes : List Byte) : List Byte :=
  bytes.filter fun byte => ¬ IsCommandByte byte

theorem dataIn_nil : dataIn [] = [] := rfl

theorem dataIn_append (bytes bytes' : List Byte) :
    dataIn (bytes ++ bytes') = dataIn bytes ++ dataIn bytes' :=
  List.filter_append ..

theorem dataIn_cons_of_isCommandByte
    {byte : Byte}
    (bytes : List Byte)
    (hCommand : IsCommandByte byte) :
    dataIn (byte :: bytes) = dataIn bytes := by
  simp [dataIn, hCommand]

theorem dataIn_cons_of_not
    {byte : Byte}
    (bytes : List Byte)
    (hNot : ¬ IsCommandByte byte) :
    dataIn (byte :: bytes) = byte :: dataIn bytes := by
  simp [dataIn, hNot]

theorem dataIn_eq_nil
    {bytes : List Byte}
    (hCommands : commandsIn bytes = bytes) :
    dataIn bytes = [] := by
  rw [commandsIn, List.filter_eq_self] at hCommands
  simpa [dataIn] using hCommands

/- `heard` is what the remote has read. -/
structure SessionEchoes where
  link : Link
  written : List Byte
  heard : List Byte
  readBack : List Byte

namespace SessionEchoes

def start : SessionEchoes where
  link := Link.start
  written := []
  heard := []
  readBack := []

/- The test data that a step of the master writes, -/
def writtenBy : LinkLabel → List Byte
  | .payload byte => [byte]
  | _ => []

/- that a step of the remote reads, -/
def heardBy (c : Link) : LinkLabel → List Byte
  | .toRemote _ _ => dataIn c.remoteHead.toList
  | _ => []

/- and that the master reads back. -/
def readBy (c : Link) : LinkLabel → List Byte
  | .toMaster => dataIn c.masterHead.toList
  | _ => []

/- A session that starts has written and read nothing. -/
def step
    (s : SessionEchoes)
    (label : LinkLabel) : Option SessionEchoes :=
  (s.link.step label).map fun link =>
    if link.masterSessions = s.link.masterSessions then
      { link := link
        written := s.written ++ writtenBy label
        heard := s.heard ++ heardBy s.link label
        readBack := s.readBack ++ readBy s.link label }
    else
      { start with link := link }

/- The last session is an availability test. -/
def Tests (c : Link) : Prop :=
  c.masterSessions.getLast? = some .availability

/- Read by the remote, and on the way there. -/
def arrived (s : SessionEchoes) : List Byte :=
  s.heard ++ dataIn (s.link.toRemote.map Downlink.byte)

/- Read back, on the way back, and on the way there. -/
def returned (s : SessionEchoes) : List Byte :=
  s.readBack ++
    dataIn (s.link.toMaster.map Uplink.byte) ++
      dataIn (s.link.toRemote.map Downlink.byte)

end SessionEchoes

------------------------------------------------------------
-- The Mode Of The Session
------------------------------------------------------------

namespace Handshake

/- A mode that the remote is in is that of its last session. -/
def Current (h : Handshake) : Prop :=
  ∀ mode, h.phase = .running mode ∨ h.phase = .ending mode →
    h.sessions.getLast? = some mode

theorem Current.step
    {h h' : Handshake}
    {turn : Turn}
    (hCurrent : Current h)
    (hTurns : Handshake.step h turn = some h') :
    Current h' := by
  rcases h with ⟨phase, sessions⟩
  intro mode hPhase
  cases turn with
  | command event =>
      cases phase with
      | running before =>
          cases event <;> cases hTurns
          rcases hPhase with hEmpty | hSame
          · cases hEmpty
          · cases hSame
            exact hCurrent _ (.inl rfl)
      | rest | closing | entered =>
          cases event <;> cases hTurns <;>
            rcases hPhase with hEmpty | hEmpty <;> cases hEmpty
      | requested | granted | left | ending | ended
      | reopened => cases hTurns
  | remoteReads =>
      cases phase with
      | entered before | left before =>
          cases hTurns
          rcases hPhase with hSame | hSame
          all_goals cases hSame
          all_goals exact List.getLast?_concat
      | requested | ending | closing | reopened =>
          cases hTurns
          rcases hPhase with hEmpty | hEmpty <;> cases hEmpty
      | rest | granted | running | ended => cases hTurns
  | masterReads =>
      cases phase with
      | granted | ended =>
          cases hTurns
          rcases hPhase with hEmpty | hEmpty <;> cases hEmpty
      | rest | requested | entered | running | left | ending
      | closing | reopened => cases hTurns

end Handshake

theorem Phase.mode_of_dataDown
    {phase : Phase}
    (hDown : phase.DataDown)
    (hLead : phase.lead = []) :
    ∃ mode, (phase = .running mode ∨ phase = .ending mode) ∧
      phase.remote = mode.remoteActivity := by
  cases phase with
  | running mode => exact ⟨mode, .inl rfl, rfl⟩
  | ending mode => exact ⟨mode, .inr rfl, rfl⟩
  | entered | left => cases hLead
  | rest | requested | granted | ended | closing
  | reopened => exact hDown.elim

/- In `Idle` the master has left no data behind. -/
theorem Phase.no_data_of_idle
    {phase : Phase}
    (hIdle : phase.master = .idle) :
    ¬ phase.DataDown ∧ ¬ phase.DataUp := by
  cases phase with
  | rest | closing => exact ⟨id, id⟩
  | requested mode | granted mode | entered mode
  | running mode | reopened mode =>
      cases mode <;> cases hIdle
  | left | ending | ended => cases hIdle

------------------------------------------------------------
-- Nothing Is Lost
------------------------------------------------------------

namespace SessionEchoes

open Link

variable {s s' : SessionEchoes}
variable {c c' : Link}
variable {h h' : Handshake}
variable {label : LinkLabel}
variable {labels : List LinkLabel}

/- What the remote reads leaves the line, -/
theorem arrived_of_follows
    (hFollows : Follows s.link h label c' h') :
    s.heard ++ heardBy s.link label ++
        dataIn (c'.toRemote.map Downlink.byte) =
      s.arrived ++ writtenBy label := by
  cases hFollows with
  | refused event =>
      simp [heardBy, writtenBy, arrived]
  | @command event h' sent hTurns hTurn hAnswer =>
      have hSent := commandsIn_masterSent h.phase.master event
      simp only [heardBy, writtenBy, arrived,
        bytes_masterDispatch, dataIn_append,
        dataIn_eq_nil hSent, List.append_nil]
  | @payload byte hKind hStandard =>
      have hNot := not_isCommandByte_of_isStandardCode
        hStandard
      simp only [heardBy, writtenBy, arrived, List.map_append,
        List.map_cons, List.map_nil, dataIn_append,
        dataIn_cons_of_not _ hNot, List.append_nil,
        List.append_assoc]
      rfl
  | @remoteTurn sent rest event h' bytes _ _ hHead hCommand
      hTurns hTurn hRest =>
      simp only [heardBy, writtenBy, arrived, remoteHead,
        hHead, List.head?_cons, Option.map_some,
        Option.toList_some, List.map_cons,
        dataIn_cons_of_isCommandByte _ hCommand, dataIn_nil,
        List.append_nil]
      rfl
  | @remoteData sent rest totalReceived totalUsec hHead hNot
      hClean =>
      simp only [heardBy, writtenBy, arrived, remoteHead,
        hHead, remoteRead_toRemote, List.head?_cons,
        Option.map_some, Option.toList_some, List.map_cons,
        dataIn_cons_of_not _ hNot, List.append_nil,
        List.append_assoc]
      rfl
  | @masterTurn sent rest event h' bytes hHead hCommand hTurns
      hTurn hRest =>
      have hSent := commandsIn_masterSent h.phase.master event
      simp only [heardBy, writtenBy, arrived,
        bytes_masterDispatch, dataIn_append,
        dataIn_eq_nil hSent, List.append_nil]
  | masterData hHead hNot =>
      simp only [heardBy, writtenBy, arrived, List.append_nil]

/- and in a test of availability it is written back. -/
theorem returned_of_follows
    (hPhase : InPhase s.link h)
    (hPlaced : Placed s.link h)
    (hCurrent : h.Current)
    (hFollows : Follows s.link h label c' h')
    (hTests : Tests s.link) :
    s.readBack ++ readBy s.link label ++
        dataIn (c'.toMaster.map Uplink.byte) ++
          dataIn (c'.toRemote.map Downlink.byte) =
      s.returned ++ writtenBy label := by
  cases hFollows with
  | refused event =>
      simp [readBy, writtenBy, returned]
  | @command event h' sent hTurns hTurn hAnswer =>
      have hSent := commandsIn_masterSent h.phase.master event
      simp only [readBy, writtenBy, returned,
        bytes_masterDispatch, dataIn_append,
        dataIn_eq_nil hSent, List.append_nil]
      rfl
  | @payload byte hKind hStandard =>
      have hNot := not_isCommandByte_of_isStandardCode
        hStandard
      simp only [readBy, writtenBy, returned, List.map_append,
        List.map_cons, List.map_nil, dataIn_append,
        dataIn_cons_of_not _ hNot, List.append_nil,
        List.append_assoc]
      rfl
  | @remoteTurn sent rest event h' bytes _ _ hHead hCommand
      hTurns hTurn hRest =>
      have hSent := commandsIn_remoteSent h.phase.remote event
      simp only [readBy, writtenBy, returned, hHead,
        List.map_cons, bytes_remoteDispatch, dataIn_append,
        dataIn_cons_of_isCommandByte _ hCommand,
        dataIn_eq_nil hSent, List.append_nil]
      rfl
  | @remoteData sent rest totalReceived totalUsec hHead hNot
      hClean =>
      -- the remote is in the mode of the session, and echoes
      have hToRemote := hPlaced.toRemote
      rw [hHead, List.map_cons] at hToRemote
      rcases hToRemote.of_data h.phase.commandsIn_lead_tail
        hNot with ⟨hLead, hDown, -⟩
      rcases Phase.mode_of_dataDown hDown hLead with
        ⟨mode, hMode, hRemote⟩
      have hAhead := (Phase.running_of_dataDown hDown hLead).1
      have hAvailability : mode = .availability := by
        rw [Tests, hPhase.masterSessions, hAhead,
          List.append_nil, hCurrent mode hMode] at hTests
        exact Option.some.inj hTests
      have hStandard : IsStandardCode sent.byte := by
        refine (hPlaced.session sent ?_ hNot).1
        rw [hHead]
        exact List.mem_cons_self
      have hEcho : h.phase.remote.handleByte sent.byte =
          .echo := by
        rw [hRemote, hAvailability]
        exact if_pos hStandard
      simp only [readBy, writtenBy, returned, hHead,
        Link.remoteRead, hEcho, List.map_cons, List.map_append,
        List.map_nil, dataIn_append,
        dataIn_cons_of_not _ hNot, List.append_nil,
        List.append_assoc]
      rfl
  | @masterTurn sent rest event h' bytes hHead hCommand hTurns
      hTurn hRest =>
      have hSent := commandsIn_masterSent h.phase.master event
      simp only [readBy, writtenBy, returned, masterHead,
        hHead, List.head?_cons, Option.map_some,
        Option.toList_some, List.map_cons,
        bytes_masterDispatch, dataIn_append,
        dataIn_cons_of_isCommandByte _ hCommand, dataIn_nil,
        dataIn_eq_nil hSent, List.append_nil]
      rfl
  | @masterData sent rest hHead hNot =>
      simp only [readBy, writtenBy, returned, masterHead,
        hHead, List.head?_cons, Option.map_some,
        Option.toList_some, List.map_cons,
        dataIn_cons_of_not _ hNot, List.append_nil,
        List.append_assoc]
      rfl

/- A session starts with no data on the link. -/
theorem no_data_of_started
    (hPhase : InPhase s.link h)
    (hPlaced : Placed s.link h)
    (hFollows : Follows s.link h label c' h')
    (hStarts : c'.masterSessions ≠ s.link.masterSessions) :
    dataIn (c'.toMaster.map Uplink.byte) ++
        dataIn (c'.toRemote.map Downlink.byte) = [] := by
  have hFresh := (hPlaced.startsAfresh hPhase hFollows).1
  rcases hFresh hStarts with ⟨hToRemote, hToMaster⟩
  rw [hToRemote, hToMaster]
  decide

/- The phase of the link, and the balance of its session. -/
structure Balanced (s : SessionEchoes) (h : Handshake) :
    Prop where
  phase : InPhase s.link h
  placed : Placed s.link h
  current : h.Current
  arrived : s.arrived = s.written
  returned : Tests s.link → s.returned = s.written

theorem Balanced.step
    (hBalanced : Balanced s h)
    (hClean : s.link.Clean label)
    (hStep : SessionEchoes.step s label = some s') :
    ∃ h', Balanced s' h' := by
  rcases Option.map_eq_some_iff.mp hStep with
    ⟨c', hTaken, rfl⟩
  rcases hBalanced.phase.exists_follows hClean hTaken with
    ⟨h', hFollows⟩
  have hCurrent : h'.Current := by
    rcases turns_of_follows hFollows with rfl | ⟨turn, hTurns⟩
    · exact hBalanced.current
    · exact hBalanced.current.step hTurns
  have hPhase := hBalanced.phase.follows hFollows
  have hPlaced := hBalanced.placed.follows hBalanced.phase
    hFollows
  refine ⟨h', ?_⟩
  split
  · rename_i hSame
    refine ⟨hPhase, hPlaced, hCurrent, ?_, ?_⟩
    · have hArrived := arrived_of_follows hFollows
      rw [hBalanced.arrived] at hArrived
      exact hArrived
    intro hTests
    rw [Tests, hSame] at hTests
    have hReturned := returned_of_follows hBalanced.phase
      hBalanced.placed hBalanced.current hFollows hTests
    rw [hBalanced.returned hTests] at hReturned
    exact hReturned
  · rename_i hStarts
    have hNone := no_data_of_started hBalanced.phase
      hBalanced.placed hFollows hStarts
    refine ⟨hPhase, hPlaced, hCurrent, ?_, ?_⟩
    · exact (List.append_eq_nil_iff.mp hNone).2
    · intro _
      rw [SessionEchoes.returned, List.append_assoc]
      exact hNone

theorem balanced_start : Balanced start Handshake.start where
  phase := inPhase_start
  placed := placed_start
  current := by
    intro mode hPhase
    rcases hPhase with hEmpty | hEmpty <;> cases hEmpty
  arrived := rfl
  returned := fun _ => rfl

theorem balanced_of_run
    (hClean : StepSystem.Along step
      (fun s label => s.link.Clean label) start labels)
    (hRun : StepSystem.run step start labels = some s) :
    ∃ h, Balanced s h :=
  StepSystem.run_invariant_along
    (I := fun s : SessionEchoes => ∃ h, Balanced s h)
    (fun _ _ _ hSome hOk hStep =>
      hSome.choose_spec.step hOk hStep)
    ⟨_, balanced_start⟩ hClean hRun

/- The link of an idle master carries no data. -/
theorem Balanced.no_data_of_idle
    (hBalanced : Balanced s h)
    (hIdle : s.link.master = some .idle) :
    dataIn (s.link.toRemote.map Downlink.byte) = [] ∧
      dataIn (s.link.toMaster.map Uplink.byte) = [] := by
  rw [hBalanced.phase.master, Option.some.injEq] at hIdle
  rcases Phase.no_data_of_idle hIdle with ⟨hDown, hUp⟩
  rw [hBalanced.placed.toRemote.eq_of_not hDown,
    hBalanced.placed.toMaster.eq_of_not hUp,
    List.nil_append]
  exact ⟨dataIn_eq_nil h.phase.commandsIn_lead_tail,
    dataIn_eq_nil h.phase.commandsIn_toMaster⟩

/-
  In every state of a clean run, the test data of the session
  has been read by the remote or is on its way, in the order
  in which it was written. Once the master is idle again all
  of it has been read.
-/
theorem data_in_order
    (hClean : StepSystem.Along step
      (fun s label => s.link.Clean label) start labels)
    (hRun : StepSystem.run step start labels = some s) :
    s.heard ++ dataIn (s.link.toRemote.map Downlink.byte) =
        s.written ∧
      (s.link.master = some .idle → s.heard = s.written) := by
  rcases balanced_of_run hClean hRun with ⟨h, hBalanced⟩
  have hArrived := hBalanced.arrived
  refine ⟨hArrived, ?_⟩
  intro hIdle
  rw [arrived, (hBalanced.no_data_of_idle hIdle).1,
    List.append_nil] at hArrived
  exact hArrived

/- Data, and a request behind it that is not read yet. -/
theorem data_in_order_repliedLabels :
    ∃ s, StepSystem.run step start (repliedLabels.take 8) =
        some s ∧
      s.heard = [7] ∧
      s.heard ++ dataIn (s.link.toRemote.map Downlink.byte) =
        s.written := by
  refine ⟨_, rfl, rfl, ?_⟩
  exact (@data_in_order _ (repliedLabels.take 8)
    (by decide +kernel) rfl).1

/-
  In every state of a clean run, the codes of an availability
  test are where they should be: read back, on their way
  back or on their way there, in the order in which they
  were written. Once the master is idle again, it has read
  back what it has written.
-/
theorem echoes_in_order
    (hClean : StepSystem.Along step
      (fun s label => s.link.Clean label) start labels)
    (hRun : StepSystem.run step start labels = some s)
    (hTests : Tests s.link) :
    s.readBack ++ dataIn (s.link.toMaster.map Uplink.byte) ++
          dataIn (s.link.toRemote.map Downlink.byte) =
        s.written ∧
      (s.link.master = some .idle →
        s.readBack = s.written) := by
  rcases balanced_of_run hClean hRun with ⟨h, hBalanced⟩
  have hReturned := hBalanced.returned hTests
  refine ⟨hReturned, ?_⟩
  intro hIdle
  rcases hBalanced.no_data_of_idle hIdle with
    ⟨hToRemote, hToMaster⟩
  rw [returned, hToRemote, hToMaster, List.append_nil,
    List.append_nil] at hReturned
  exact hReturned

/- A test that is ended with a code still on its way. -/
def testLabels : List LinkLabel :=
  [.command .availabilityModeCommand, .toRemote 0 0,
    .toMaster, .payload 0, .toRemote 0 0, .toRemote 0 0,
    .payload 1, .toMaster, .payload 2, .toRemote 0 0,
    .command .endModeCommand, .toRemote 0 0, .toMaster,
    .toRemote 0 0, .toMaster, .toMaster]

theorem echoes_in_order_testLabels :
    ∃ s, StepSystem.run step start testLabels = some s ∧
      s.link.master = some .idle ∧
      s.written = [0, 1, 2] ∧
      s.readBack = s.written := by
  refine ⟨_, rfl, rfl, rfl, ?_⟩
  exact (@echoes_in_order _ testLabels
    (by decide +kernel) rfl rfl).2 rfl

end SessionEchoes

end ModemTester
