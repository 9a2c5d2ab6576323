import ModemTester.Link.SessionOrder

/-
  The end of the test.

  `EndTest` makes a machine write its identifier and leave,
  in every state. It is dispatched by users and scripts, by
  an activity whose stream fails, and by every handler that
  reads the identifier. On a link that loses nothing the two
  machines therefore leave together: when one has left, the
  other has left, too, or the identifier is on its way.

  Reads bring one byte, and the machine that is left behind
  is taken to have a read pending after each of them.

  Key definitions include:
    * `StopLabel`
    * `Link.stepOrStop`
    * `Link.Announced`

  Main declarations:
    * `Link.leave_together`
-/

------------------------------------------------------------
-- Leaving
------------------------------------------------------------

namespace ModemTester

/- A step of the link, or a machine that is made to leave. -/
inductive StopLabel where
  | link (label : LinkLabel)
  /- `EndTest` from `stop()` or a script. -/
  | stopMaster
  /- `EndTest` from an activity whose stream fails. -/
  | stopRemote
  deriving DecidableEq, Repr

namespace Link

def stepOrStop (c : Link) : StopLabel → Option Link
  | .link label => c.step label
  | .stopMaster =>
      match c.master with
      | some state => some (c.masterDispatch state .endTest)
      | none => none
  | .stopRemote =>
      match c.remote with
      | some state =>
          if state.kind = .activity then
            some (c.remoteDispatch state .endTest 0)
          else
            none
      | none => none

/- Nothing that was written is lost. -/
def Delivers : StopLabel → Prop
  | .link label => ¬ Loses label
  | _ => True

instance : DecidablePred Delivers
  | .link label => inferInstanceAs (Decidable (¬ Loses label))
  | .stopMaster => .isTrue trivial
  | .stopRemote => .isTrue trivial

/- `EndTest` is on its way to the remote. -/
def StopsRemote (c : Link) : Prop :=
  ∃ sent ∈ c.toRemote, sent.byte = endTestId

/- `EndTest` is on its way to the master. -/
def StopsMaster (c : Link) : Prop :=
  ∃ sent ∈ c.toMaster, sent.byte = endTestId

/- Who has left has told the other. -/
structure Announced (c : Link) : Prop where
  toRemote : c.master = none → c.remote = none ∨ c.StopsRemote
  toMaster : c.remote = none → c.master = none ∨ c.StopsMaster

theorem announced_start : Announced start where
  toRemote := by simp [start]
  toMaster := by simp [start]

variable {c c' : Link}

------------------------------------------------------------
-- Dispatches
------------------------------------------------------------

/- Any other event leaves the master where it reads on. -/
theorem masterDispatch_master_ne_none
    (state : MasterState)
    {event : Event}
    (hEvent : event ≠ .endTest) :
    (c.masterDispatch state event).master ≠ none := by
  cases state <;> cases event <;>
    first
      | exact absurd rfl hEvent
      | exact Option.some_ne_none _

theorem remoteDispatch_remote_ne_none
    (state : RemoteState)
    {event : Event}
    (session : Nat)
    (hEvent : event ≠ .endTest) :
    (c.remoteDispatch state event session).remote ≠ none := by
  cases state <;> cases event <;>
    first
      | exact absurd rfl hEvent
      | exact Option.some_ne_none _

/- The master dispatches; it was there before. -/
theorem Announced.masterDispatch
    (state : MasterState)
    (event : Event)
    (hMaster : c.remote = none → c.StopsMaster) :
    Announced (c.masterDispatch state event) := by
  by_cases hEvent : event = .endTest
  · subst hEvent
    refine ⟨fun _ => .inr ?_, fun _ => .inl rfl⟩
    exact ⟨⟨endTestId, _⟩,
      List.mem_append_right _ List.mem_cons_self, rfl⟩
  · refine ⟨?_, fun hNone => .inr (hMaster hNone)⟩
    intro hNone
    exact absurd hNone
      (masterDispatch_master_ne_none state hEvent)

/- And the remote. -/
theorem Announced.remoteDispatch
    (state : RemoteState)
    (event : Event)
    (session : Nat)
    (hRemote : c.master = none → c.StopsRemote) :
    Announced (c.remoteDispatch state event session) := by
  by_cases hEvent : event = .endTest
  · subst hEvent
    refine ⟨fun _ => .inl rfl, fun _ => .inr ?_⟩
    exact ⟨⟨endTestId, .fsm⟩,
      List.mem_append_right _ List.mem_cons_self, rfl⟩
  · refine ⟨fun hNone => .inr (hRemote hNone), ?_⟩
    intro hNone
    exact absurd hNone
      (remoteDispatch_remote_ne_none state session hEvent)

/- In every state the identifier is read as `EndTest`. -/
theorem readByte_endTestId (state : MasterState) :
    state.readByte endTestId = some .endTest := by
  cases state <;> rfl

theorem handleByte_endTestId (state : RemoteState) :
    state.handleByte endTestId = .dispatch .endTest := by
  cases state <;> rfl

/- Reading on, the master does not miss the end. -/
theorem Announced.masterRead
    {state : MasterState}
    {sent : Uplink}
    {rest : List Uplink}
    (hAnnounced : Announced c)
    (hState : c.master = some state)
    (hHead : c.toMaster = sent :: rest) :
    Announced
      ({ c with toMaster := rest }.masterRead state
        sent.byte) := by
  by_cases hEnd : sent.byte = endTestId
  · unfold Link.masterRead
    rw [hEnd, readByte_endTestId]
    refine ⟨fun _ => .inr ?_, fun _ => .inl rfl⟩
    exact ⟨⟨endTestId, _⟩,
      List.mem_append_right _ List.mem_cons_self, rfl⟩
  · -- what is not the end leaves the end on its way
    have hStill : c.remote = none →
        StopsMaster { c with toMaster := rest } := by
      intro hNone
      rcases hAnnounced.toMaster hNone with
        hMaster | ⟨other, hOther, hByte⟩
      · rw [hState] at hMaster
        cases hMaster
      · rw [hHead] at hOther
        rcases List.mem_cons.mp hOther with rfl | hRest
        · exact absurd hByte hEnd
        · exact ⟨other, hRest, hByte⟩
    unfold Link.masterRead
    split
    · exact Announced.masterDispatch _ _ hStill
    · refine ⟨?_, fun hNone => .inr (hStill hNone)⟩
      intro hNone
      rw [hState] at hNone
      cases hNone

/- Nor does the remote. -/
theorem Announced.remoteRead
    {state : RemoteState}
    {sent : Downlink}
    {rest : List Downlink}
    (hAnnounced : Announced c)
    (hState : c.remote = some state)
    (hHead : c.toRemote = sent :: rest)
    (totalReceived totalUsec : Word) :
    Announced
      ({ c with toRemote := rest }.remoteRead state sent
        totalReceived totalUsec) := by
  by_cases hEnd : sent.byte = endTestId
  · unfold Link.remoteRead
    rw [hEnd, handleByte_endTestId]
    refine ⟨fun _ => .inl rfl, fun _ => .inr ?_⟩
    exact ⟨⟨endTestId, .fsm⟩,
      List.mem_append_right _ List.mem_cons_self, rfl⟩
  · have hStill : c.master = none →
        StopsRemote { c with toRemote := rest } := by
      intro hNone
      rcases hAnnounced.toRemote hNone with
        hRemote | ⟨other, hOther, hByte⟩
      · rw [hState] at hRemote
        cases hRemote
      · rw [hHead] at hOther
        rcases List.mem_cons.mp hOther with rfl | hRest
        · exact absurd hByte hEnd
        · exact ⟨other, hRest, hByte⟩
    have hHere : c.remote ≠ none := by
      rw [hState]
      exact Option.some_ne_none _
    unfold Link.remoteRead
    split
    · exact Announced.remoteDispatch _ _ _ hStill
    · exact ⟨fun hNone => .inr (hStill hNone),
        fun hNone => absurd hNone hHere⟩
    · exact ⟨fun hNone => .inr (hStill hNone),
        fun hNone => absurd hNone hHere⟩
    · exact ⟨fun hNone => .inr (hStill hNone),
        fun hNone => absurd hNone hHere⟩

theorem Announced.step
    {label : StopLabel}
    (hAnnounced : Announced c)
    (hDelivers : Delivers label)
    (hStep : stepOrStop c label = some c') :
    Announced c' := by
  have hMaster : ∀ state, c.master = some state →
      c.remote = none → c.StopsMaster := by
    intro state hState hNone
    refine (hAnnounced.toMaster hNone).resolve_left ?_
    rw [hState]
    exact Option.some_ne_none _
  have hRemote : ∀ state, c.remote = some state →
      c.master = none → c.StopsRemote := by
    intro state hState hNone
    refine (hAnnounced.toRemote hNone).resolve_left ?_
    rw [hState]
    exact Option.some_ne_none _
  cases label with
  | stopMaster =>
      simp only [stepOrStop] at hStep
      split at hStep
      · rename_i state hState
        cases hStep
        exact Announced.masterDispatch _ _
          (hMaster state hState)
      · cases hStep
  | stopRemote =>
      simp only [stepOrStop] at hStep
      split at hStep
      · rename_i state hState
        split at hStep
        · cases hStep
          exact Announced.remoteDispatch _ _ _
            (hRemote state hState)
        · cases hStep
      · cases hStep
  | link label =>
      cases moves_of_step hStep with
      | command hState hCommand =>
          exact Announced.masterDispatch _ _
            (hMaster _ hState)
      | masterTimeout hState hKind =>
          exact Announced.masterDispatch _ _
            (hMaster _ hState)
      | remoteTimeout hState hKind =>
          exact Announced.remoteDispatch _ _ _
            (hRemote _ hState)
      | payload hState hKind hStandard =>
          refine ⟨?_, hAnnounced.toMaster⟩
          intro hNone
          rw [hState] at hNone
          cases hNone
      | toRemote hState hHead =>
          exact hAnnounced.remoteRead hState hHead _ _
      | toMaster hState hHead =>
          exact hAnnounced.masterRead hState hHead
      | loseToRemote hIndex => exact absurd trivial hDelivers
      | loseToMaster hIndex => exact absurd trivial hDelivers

theorem announced_of_run
    {labels : List StopLabel}
    (hDelivers : ∀ label ∈ labels, Delivers label)
    (hRun : StepSystem.run stepOrStop start labels = some c) :
    Announced c := by
  have hAlong : StepSystem.Along stepOrStop
      (fun _ label => Delivers label) start labels :=
    StepSystem.along_of_forall hDelivers
  exact StepSystem.run_invariant_along
    (fun _ _ _ hAnnounced hOk hStep =>
      hAnnounced.step hOk hStep)
    announced_start hAlong hRun

------------------------------------------------------------
-- Both Leave
------------------------------------------------------------

/- What is left to read for those who have not left. -/
def unread (c : Link) : Nat :=
  (match c.master with
    | some _ => c.toMaster.length
    | none => 0) +
    match c.remote with
    | some _ => c.toRemote.length
    | none => 0

def IsRead : StopLabel → Prop
  | .link (.toRemote _ _) | .link .toMaster => True
  | _ => False

/- A remote that is left alone reads what it was sent. -/
theorem unread_toRemote
    {state : RemoteState}
    {sent : Downlink}
    {rest : List Downlink}
    (hMaster : c.master = none)
    (hState : c.remote = some state)
    (hHead : c.toRemote = sent :: rest) :
    unread
        ({ c with toRemote := rest }.remoteRead state sent
          0 0) <
      unread c := by
  simp only [unread, remoteRead_master, remoteRead_toRemote,
    hMaster, hState, hHead, List.length_cons]
  split <;> omega

theorem masterRead_toMaster
    (state : MasterState)
    (byte : Byte) :
    (c.masterRead state byte).toMaster = c.toMaster := by
  unfold Link.masterRead
  split <;> rfl

theorem unread_toMaster
    {state : MasterState}
    {sent : Uplink}
    {rest : List Uplink}
    (hState : c.master = some state)
    (hRemote : c.remote = none)
    (hHead : c.toMaster = sent :: rest) :
    unread
        ({ c with toMaster := rest }.masterRead state
          sent.byte) <
      unread c := by
  simp only [unread, masterRead_remote, masterRead_toMaster,
    hRemote, hState, hHead, List.length_cons]
  split <;> omega

/- Once one has left, the other has something to read. -/
theorem Announced.exists_read
    (hAnnounced : Announced c)
    (hLeft : c.master = none ∨ c.remote = none)
    (hNot : ¬ (c.master = none ∧ c.remote = none)) :
    ∃ label c', IsRead label ∧
      stepOrStop c label = some c' ∧
      (Announced c' ∧
        (c'.master = none ∨ c'.remote = none)) ∧
      unread c' < unread c := by
  rcases hLeft with hMaster | hRemote
  · cases hRemote : c.remote with
    | none => exact absurd ⟨hMaster, hRemote⟩ hNot
    | some state =>
        rcases (hAnnounced.toRemote hMaster).resolve_left
            (by rw [hRemote]; exact Option.some_ne_none _) with
          ⟨stop, hStop, -⟩
        cases hHead : c.toRemote with
        | nil =>
            rw [hHead] at hStop
            cases hStop
        | cons sent rest =>
            refine ⟨.link (.toRemote 0 0), _, trivial,
              step_toRemote hRemote hHead 0 0,
              ⟨hAnnounced.remoteRead hRemote hHead 0 0,
                .inl ?_⟩,
              unread_toRemote hMaster hRemote hHead⟩
            rw [remoteRead_master]
            exact hMaster
  · cases hMaster : c.master with
    | none => exact absurd ⟨hMaster, hRemote⟩ hNot
    | some state =>
        rcases (hAnnounced.toMaster hRemote).resolve_left
            (by rw [hMaster]; exact Option.some_ne_none _) with
          ⟨stop, hStop, -⟩
        cases hHead : c.toMaster with
        | nil =>
            rw [hHead] at hStop
            cases hStop
        | cons sent rest =>
            refine ⟨.link .toMaster, _, trivial,
              step_toMaster hMaster hHead,
              ⟨hAnnounced.masterRead hMaster hHead, .inr ?_⟩,
              unread_toMaster hMaster hRemote hHead⟩
            rw [masterRead_remote]
            exact hRemote

/-
  In every run without a loss, with `EndTest` from wherever
  it may come: when one machine has left, the other has, too,
  or the identifier is on its way to it; and by reading on it
  leaves.
-/
theorem leave_together
    {labels : List StopLabel}
    (hDelivers : ∀ label ∈ labels, Delivers label)
    (hRun : StepSystem.run stepOrStop start labels = some c) :
    Announced c ∧
      ((c.master = none ∨ c.remote = none) →
        ∃ labels' c',
          StepSystem.Along stepOrStop
            (fun _ label => IsRead label) c labels' ∧
          StepSystem.run stepOrStop c labels' = some c' ∧
          c'.master = none ∧ c'.remote = none) := by
  have hAnnounced := announced_of_run hDelivers hRun
  refine ⟨hAnnounced, fun hLeft => ?_⟩
  rcases StepSystem.exists_run_of_decreasing
      (I := fun c : Link =>
        Announced c ∧ (c.master = none ∨ c.remote = none))
      unread
      (fun _ hHere hNot => hHere.1.exists_read hHere.2 hNot)
      ⟨hAnnounced, hLeft⟩ with
    ⟨labels', c', hAlong, hRun', -, hBoth⟩
  exact ⟨labels', c', hAlong, hRun', hBoth⟩

/- The master stops in a mode, before the remote is in it. -/
def stoppedLabels : List StopLabel :=
  [.link (.command .availabilityModeCommand),
    .link (.toRemote 0 0), .link .toMaster,
    .link (.payload 5), .stopMaster, .link (.toRemote 0 0)]

theorem leave_together_stoppedLabels :
    ∃ c, StepSystem.run stepOrStop start stoppedLabels =
        some c ∧
      c.master = none ∧
      c.remote = some .remoteAvailabilityMode ∧
      c.StopsRemote := by
  refine ⟨_, rfl, rfl, rfl, ?_⟩
  have hBoth := @leave_together _ stoppedLabels
    (by decide) rfl
  exact (hBoth.1.toRemote rfl).resolve_left
    (Option.some_ne_none _)

end Link

end ModemTester
