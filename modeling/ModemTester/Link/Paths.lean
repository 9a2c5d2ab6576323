import ModemTester.Link.Composition

/-
  Paths of the two machines without losses.

  A path is given between views of the configurations it
  joins: the two states and the bytes of the two queues,
  without what else the link records. It consists of
  commands, timeouts and deliveries. What the remote replies
  to a request for results is not for the path to choose: the
  totals of each reply are given.

  Key definitions include:
    * `Link.IsContinuation`, `Link.Continues`
    * `View`
    * `View.Leads`

  The rules used by clients are:
    * `View.leads_command`, `View.leads_masterTimeout`,
      `View.leads_remoteTimeout`
    * `View.leads_masterEvent`, `View.leads_remoteByte`
    * `View.leads_skipMaster`, `View.leads_skipRemote`
    * `View.leads_drainMaster`, `View.leads_drainRemote`
-/

------------------------------------------------------------
-- Views
------------------------------------------------------------

namespace ModemTester

/-
  Commands, timeouts and deliveries, where the next reply is
  of the totals that are given for its number.
-/
def Link.IsContinuation
    (totals : Nat → Word × Word)
    (c : Link) : LinkLabel → Prop
  | .command _ => True
  | .masterTimeout => True
  | .remoteTimeout => True
  | .toRemote totalReceived totalUsec =>
      (totalReceived, totalUsec) = totals c.replies.length
  | .toMaster => True
  | _ => False

/- What such steps lead to. -/
def Link.Continues
    (totals : Nat → Word × Word)
    (c c' : Link) : Prop :=
  ∃ labels,
    StepSystem.Along Link.step (Link.IsContinuation totals)
        c labels ∧
      StepSystem.run Link.step c labels = some c'

namespace Link

variable {totals : Nat → Word × Word}
variable {c c₁ c₂ : Link}

theorem continues_refl (c : Link) : Continues totals c c :=
  ⟨[], trivial, rfl⟩

theorem continues_trans
    (hFirst : Continues totals c c₁)
    (hSecond : Continues totals c₁ c₂) :
    Continues totals c c₂ := by
  rcases hFirst with ⟨labels, hLabels, hRun⟩
  rcases hSecond with ⟨labels', hLabels', hRun'⟩
  refine ⟨labels ++ labels', ?_, ?_⟩
  · exact (StepSystem.along_append hRun).mpr
      ⟨hLabels, hLabels'⟩
  · rw [StepSystem.run_append hRun, hRun']

theorem continues_of_step
    {label : LinkLabel}
    (hLabel : IsContinuation totals c label)
    (hStep : step c label = some c₁) :
    Continues totals c c₁ := by
  refine ⟨[label], ?_, StepSystem.run_of_step hStep⟩
  rw [StepSystem.along_cons_of_step hStep]
  exact ⟨hLabel, trivial⟩

end Link

structure View where
  master : MasterState
  remote : RemoteState
  toRemote : List Byte
  toMaster : List Byte

namespace View

variable {totals : Nat → Word × Word}

/- The configuration is seen as the view. -/
def Shown (v : View) (c : Link) : Prop :=
  c.master = some v.master ∧ c.remote = some v.remote ∧
    c.toRemote.map Downlink.byte = v.toRemote ∧
      c.toMaster.map Uplink.byte = v.toMaster

/- Every configuration seen as `v` can get to one seen as `w`. -/
def Leads
    (totals : Nat → Word × Word)
    (v w : View) : Prop :=
  ∀ c, v.Shown c → ∃ c',
    Link.Continues totals c c' ∧ w.Shown c'

theorem leads_refl (v : View) : Leads totals v v := by
  intro c hShown
  exact ⟨c, Link.continues_refl c, hShown⟩

theorem leads_trans
    {v w x : View}
    (hFirst : Leads totals v w)
    (hSecond : Leads totals w x) :
    Leads totals v x := by
  intro c hShown
  rcases hFirst c hShown with ⟨c₁, hContinues₁, hShown₁⟩
  rcases hSecond c₁ hShown₁ with ⟨c₂, hContinues₂, hShown₂⟩
  exact ⟨c₂, Link.continues_trans hContinues₁ hContinues₂,
    hShown₂⟩

theorem leads_of_step
    {v w : View}
    (hStep : ∀ c, v.Shown c → ∃ label c',
      Link.IsContinuation totals c label ∧
        Link.step c label = some c' ∧ w.Shown c') :
    Leads totals v w := by
  intro c hShown
  rcases hStep c hShown with
    ⟨label, c', hLabel, hStep, hShown'⟩
  exact ⟨c', Link.continues_of_step hLabel hStep, hShown'⟩

------------------------------------------------------------
-- Moves Of The Master
------------------------------------------------------------

section Master

variable (totals : Nat → Word × Word)
variable {M M' : MasterState}
variable {R : RemoteState}
variable {d u sent : List Byte}
variable {event : Event}
variable {byte : Byte}

theorem shown_masterDispatch
    {c : Link}
    (hSent : (masterFsm.dispatch M event).1 = sent)
    (hAfter : (masterFsm.dispatch M event).2.after M =
      some M')
    (hRemote : c.remote = some R)
    (hToRemote : c.toRemote.map Downlink.byte = d)
    (hToMaster : c.toMaster.map Uplink.byte = u) :
    Shown ⟨M', R, d ++ sent, u⟩ (c.masterDispatch M event) := by
  refine ⟨hAfter, hRemote, ?_, hToMaster⟩
  simp only [Link.masterDispatch, List.map_append,
    List.map_map, hToRemote, hSent]
  congr 1
  exact List.map_id sent

theorem leads_command
    (hCommand : IsModeCommand event)
    (hSent : (masterFsm.dispatch M event).1 = sent)
    (hAfter : (masterFsm.dispatch M event).2.after M =
      some M') :
    Leads totals ⟨M, R, d, u⟩ ⟨M', R, d ++ sent, u⟩ := by
  apply leads_of_step
  rintro c ⟨hMaster, hRemote, hToRemote, hToMaster⟩
  exact ⟨.command event, _, trivial,
    Link.step_of_moves (.command hMaster hCommand),
    shown_masterDispatch hSent hAfter hRemote hToRemote
      hToMaster⟩

theorem leads_masterTimeout
    (hKind : M.kind = .timerBased)
    (hSent : (masterFsm.dispatch M .timeout).1 = sent)
    (hAfter : (masterFsm.dispatch M .timeout).2.after M =
      some M') :
    Leads totals ⟨M, R, d, u⟩ ⟨M', R, d ++ sent, u⟩ := by
  apply leads_of_step
  rintro c ⟨hMaster, hRemote, hToRemote, hToMaster⟩
  exact ⟨.masterTimeout, _, trivial,
    Link.step_of_moves (.masterTimeout hMaster hKind),
    shown_masterDispatch hSent hAfter hRemote hToRemote
      hToMaster⟩

/- The master reads a byte that dispatches an event. -/
theorem leads_masterEvent
    (hRead : M.readByte byte = some event)
    (hSent : (masterFsm.dispatch M event).1 = sent)
    (hAfter : (masterFsm.dispatch M event).2.after M =
      some M') :
    Leads totals ⟨M, R, d, byte :: u⟩ ⟨M', R, d ++ sent, u⟩ := by
  apply leads_of_step
  rintro c ⟨hMaster, hRemote, hToRemote, hToMaster⟩
  rcases List.map_eq_cons_iff.mp hToMaster with
    ⟨up, rest, hHead, hByte, hRest⟩
  refine ⟨.toMaster, _, trivial,
    Link.step_toMaster hMaster hHead, ?_⟩
  rw [Link.masterRead, hByte, hRead]
  exact shown_masterDispatch hSent hAfter hRemote hToRemote
    hRest

/- The master reads a byte on which it dispatches nothing. -/
theorem leads_masterIgnores
    (hRead : M.readByte byte = none) :
    Leads totals ⟨M, R, d, byte :: u⟩ ⟨M, R, d, u⟩ := by
  apply leads_of_step
  rintro c ⟨hMaster, hRemote, hToRemote, hToMaster⟩
  rcases List.map_eq_cons_iff.mp hToMaster with
    ⟨up, rest, hHead, hByte, hRest⟩
  refine ⟨.toMaster, _, trivial,
    Link.step_toMaster hMaster hHead, ?_⟩
  rw [Link.masterRead, hByte, hRead]
  exact ⟨hMaster, hRemote, hToRemote, hRest⟩

end Master

------------------------------------------------------------
-- Moves Of The Remote
------------------------------------------------------------

section Remote

variable (totals : Nat → Word × Word)
variable {M : MasterState}
variable {R R' : RemoteState}
variable {d u : List Byte}
variable {byte : Byte}

/- Test data, results without commands, acknowledgements. -/
def Quiet (bytes : List Byte) : Prop :=
  ∀ byte ∈ bytes, IsStandardCode byte ∨ byte = remoteAckId

/- What the remote writes when it reads a byte. -/
def remoteWrites
    (state : RemoteState)
    (byte : Byte)
    (totalReceived totalUsec : Word) : List Byte :=
  match state.handleByte byte with
  | .dispatch event => (remoteFsm.dispatch state event).1
  | .echo => [byte]
  | .sendResults => resultBytes totalReceived totalUsec
  | .ignore => []

theorem map_byte_remoteRead
    (c : Link)
    (state : RemoteState)
    (sent : Downlink)
    (totalReceived totalUsec : Word) :
    (c.remoteRead state sent totalReceived
        totalUsec).toMaster.map Uplink.byte =
      c.toMaster.map Uplink.byte ++
        remoteWrites state sent.byte totalReceived
          totalUsec := by
  unfold Link.remoteRead remoteWrites
  cases state.handleByte sent.byte with
  | dispatch event =>
      simp only [Link.remoteDispatch, List.map_append,
        List.map_map]
      congr 1
      exact List.map_id _
  | echo => simp
  | sendResults =>
      simp only [Link.sendResults, List.map_append,
        Link.map_byte_replyBytes]
  | ignore => simp

/- The totals matter in a reply only. -/
theorem remoteWrites_of_ne
    (totalReceived totalUsec : Word)
    (hNoReply : R.handleByte byte ≠ .sendResults) :
    remoteWrites R byte totalReceived totalUsec =
      remoteWrites R byte 0 0 := by
  unfold remoteWrites
  cases hHandling : R.handleByte byte with
  | dispatch event | echo | ignore => rfl
  | sendResults => exact absurd hHandling hNoReply

/- The remote reads a byte to which it does not reply. -/
theorem leads_remoteByte
    (hNoReply : R.handleByte byte ≠ .sendResults)
    (hAfter : (Link.readOutcome R byte).after R = some R') :
    Leads totals ⟨M, R, byte :: d, u⟩
      ⟨M, R', d, u ++ remoteWrites R byte 0 0⟩ := by
  apply leads_of_step
  rintro c ⟨hMaster, hRemote, hToRemote, hToMaster⟩
  rcases List.map_eq_cons_iff.mp hToRemote with
    ⟨sent, rest, hHead, hByte, hRest⟩
  refine ⟨.toRemote (totals c.replies.length).1
      (totals c.replies.length).2, _, rfl,
    Link.step_toRemote hRemote hHead _ _, ?_, ?_, ?_, ?_⟩
  · rw [Link.remoteRead_master]
    exact hMaster
  · rw [Link.remoteRead_remote (c := { c with toRemote := rest })
      sent _ _ hRemote]
    rw [Link.remoteAfter_some, hByte]
    exact hAfter
  · rw [Link.remoteRead_toRemote]
    exact hRest
  · rw [map_byte_remoteRead, hByte,
      remoteWrites_of_ne _ _ hNoReply]
    exact congrArg (· ++ remoteWrites R byte 0 0) hToMaster

/- A timer of the remote makes it acknowledge. -/
theorem bytes_remoteTimeout
    (c : Link)
    (hKind : R.kind = .timerBased) :
    (c.remoteDispatch R .timeout 0).toMaster.map Uplink.byte =
      c.toMaster.map Uplink.byte ++ [remoteAckId] := by
  have hSent : (remoteFsm.dispatch R .timeout).1 =
      [remoteAckId] := by
    cases R <;> first | rfl | cases hKind
  simp [Link.remoteDispatch, hSent]

theorem leads_remoteTimeout
    (hKind : R.kind = .timerBased) :
    Leads totals ⟨M, R, d, u⟩ ⟨M, R, d, u ++ [remoteAckId]⟩ := by
  apply leads_of_step
  rintro c ⟨hMaster, hRemote, hToRemote, hToMaster⟩
  refine ⟨.remoteTimeout, _, trivial,
    Link.step_of_moves (.remoteTimeout hRemote hKind),
    hMaster, ?_, hToRemote, ?_⟩
  · exact Link.remoteDispatch_timeout_remote c R
  · rw [bytes_remoteTimeout c hKind, hToMaster]

theorem quiet_append
    {front back : List Byte}
    (hFront : Quiet front)
    (hBack : Quiet back) :
    Quiet (front ++ back) :=
  List.forall_mem_append.mpr ⟨hFront, hBack⟩

theorem quiet_resultBytes_zero :
    Quiet (resultBytes 0 0) := by
  intro byte hByte
  have hZero : byte = 0 := by
    simpa [resultBytes, littleBytes] using hByte
  subst hZero
  exact Or.inl (by decide)

/- But for the end of the test the remote only acknowledges. -/
theorem quiet_remoteDispatch
    (state : RemoteState)
    {event : Event}
    (hEvent : event ≠ .endTest) :
    Quiet (remoteFsm.dispatch state event).1 := by
  intro byte hByte
  right
  cases state <;> cases event <;>
    first
      | exact List.mem_singleton.mp hByte
      | exact absurd hByte List.not_mem_nil
      | exact absurd rfl hEvent

/- With an empty result the remote writes nothing else. -/
theorem quiet_remoteWrites
    (state : RemoteState)
    {byte : Byte}
    (hByte : byte ≠ endTestId) :
    Quiet (remoteWrites state byte 0 0) := by
  unfold remoteWrites
  cases hHandling : state.handleByte byte with
  | dispatch event =>
      apply quiet_remoteDispatch
      rintro rfl
      exact hByte (Fin.ext (Int.ofNat.inj
        (RemoteState.val_of_handleByte hHandling)))
  | echo =>
      intro other hOther
      rw [List.mem_singleton.mp hOther]
      exact Or.inl (Link.handleByte_eq_echo hHandling)
  | sendResults => exact quiet_resultBytes_zero
  | ignore =>
      intro other hOther
      cases hOther

end Remote

------------------------------------------------------------
-- Emptying A Queue
------------------------------------------------------------

section Queues

variable (totals : Nat → Word × Word)
variable {M : MasterState}
variable {R : RemoteState}
variable {d u front : List Byte}

/- The bytes contain no `EndTest`. -/
def NoEnd (bytes : List Byte) : Prop :=
  ∀ byte ∈ bytes, byte ≠ endTestId

theorem noEnd_of_quiet
    {bytes : List Byte}
    (hQuiet : Quiet bytes) :
    NoEnd bytes := by
  rintro byte hByte rfl
  exact absurd (hQuiet _ hByte) (by decide)

/- Nor a request for results. -/
def Tame (bytes : List Byte) : Prop :=
  ∀ byte ∈ bytes, byte ≠ endTestId ∧ byte ≠ endStandardCodes

theorem tame_nil : Tame [] := fun _ hByte =>
  absurd hByte List.not_mem_nil

theorem tame_of_cons
    {byte : Byte}
    {bytes : List Byte}
    (hTame : Tame (byte :: bytes)) :
    Tame bytes := fun other hOther =>
  hTame other (List.mem_cons_of_mem _ hOther)

theorem ne_sendResults_of_ne
    (R : RemoteState)
    {byte : Byte}
    (hByte : byte ≠ endStandardCodes) :
    R.handleByte byte ≠ .sendResults := fun hReply =>
  hByte (Link.handleByte_eq_sendResults hReply).2

/- The remote gets past bytes that change nothing. -/
theorem leads_skipRemote
    (hStays : ∀ byte ∈ front,
      Link.readOutcome R byte = .stays)
    (hTame : Tame front) :
    ∃ wrote, Quiet wrote ∧
      Leads totals ⟨M, R, front ++ d, u⟩
        ⟨M, R, d, u ++ wrote⟩ := by
  induction front generalizing u with
  | nil =>
      refine ⟨[], by simp [Quiet], ?_⟩
      rw [List.append_nil]
      exact leads_refl _
  | cons byte front ih =>
      have hByte := hStays byte List.mem_cons_self
      have hPlain := hTame byte List.mem_cons_self
      have hFirst := leads_remoteByte totals (M := M)
        (d := front ++ d) (u := u)
        (ne_sendResults_of_ne R hPlain.2)
        (show (Link.readOutcome R byte).after R = some R by
          rw [hByte]; rfl)
      rcases ih (u := u ++ remoteWrites R byte 0 0)
          (fun other hOther =>
            hStays other (List.mem_cons_of_mem _ hOther))
          (tame_of_cons hTame) with
        ⟨wrote, hQuiet, hRest⟩
      refine ⟨remoteWrites R byte 0 0 ++ wrote,
        quiet_append (quiet_remoteWrites R hPlain.1) hQuiet,
        ?_⟩
      rw [← List.append_assoc]
      exact leads_trans hFirst hRest

/- Where a byte other than `EndTest` leaves the remote. -/
theorem exists_remoteAfter
    (R : RemoteState)
    {byte : Byte}
    (hByte : byte ≠ endTestId) :
    ∃ R', (Link.readOutcome R byte).after R = some R' := by
  unfold Link.readOutcome
  cases hHandling : R.handleByte byte with
  | dispatch event =>
      have hEvent : event ≠ .endTest := by
        rintro rfl
        exact hByte (Fin.ext (Int.ofNat.inj
          (RemoteState.val_of_handleByte hHandling)))
      cases R <;> cases event <;>
        first
          | exact ⟨_, rfl⟩
          | exact absurd rfl hEvent
  | echo => exact ⟨R, rfl⟩
  | sendResults => exact ⟨R, rfl⟩
  | ignore => exact ⟨R, rfl⟩

/- The remote reads all that is in flight to it. -/
theorem leads_drainRemote
    (hTame : Tame d) :
    ∃ R' wrote, Quiet wrote ∧
      Leads totals ⟨M, R, d, u⟩
        ⟨M, R', [], u ++ wrote⟩ := by
  induction d generalizing R u with
  | nil =>
      refine ⟨R, [], by simp [Quiet], ?_⟩
      rw [List.append_nil]
      exact leads_refl _
  | cons byte d ih =>
      have hByte := hTame byte List.mem_cons_self
      rcases exists_remoteAfter R hByte.1 with ⟨R₁, hAfter⟩
      have hFirst := leads_remoteByte totals (M := M) (d := d)
        (u := u) (ne_sendResults_of_ne R hByte.2) hAfter
      rcases ih (R := R₁) (u := u ++ remoteWrites R byte 0 0)
          (tame_of_cons hTame) with
        ⟨R', wrote, hQuiet, hRest⟩
      refine ⟨R', remoteWrites R byte 0 0 ++ wrote,
        quiet_append (quiet_remoteWrites R hByte.1) hQuiet,
        ?_⟩
      rw [← List.append_assoc]
      exact leads_trans hFirst hRest

/- The master gets past bytes that it ignores. -/
theorem leads_skipMaster
    (hIgnores : ∀ byte ∈ front, ∀ event,
      M.readByte byte = some event →
        masterFsm.dispatch M event = ([], .stays)) :
    Leads totals ⟨M, R, d, front ++ u⟩ ⟨M, R, d, u⟩ := by
  induction front with
  | nil => exact leads_refl _
  | cons byte front ih =>
      have hRest := ih fun other hOther =>
        hIgnores other (List.mem_cons_of_mem _ hOther)
      refine leads_trans ?_ hRest
      cases hRead : M.readByte byte with
      | none => exact leads_masterIgnores totals hRead
      | some event =>
          have hDispatch := hIgnores byte List.mem_cons_self
            event hRead
          have hSent : (masterFsm.dispatch M event).1 = [] := by
            rw [hDispatch]
          have hAfter :
              (masterFsm.dispatch M event).2.after M =
                some M := by
            rw [hDispatch]
            rfl
          have hFirst := leads_masterEvent totals (R := R)
            (d := d) (u := front ++ u) hRead hSent hAfter
          rw [List.append_nil] at hFirst
          exact hFirst

/- Where an event other than `EndTest` leaves the master. -/
theorem exists_masterAfter
    (M : MasterState)
    {event : Event}
    (hEvent : event ≠ .endTest) :
    Tame (masterFsm.dispatch M event).1 ∧
      ∃ M', (masterFsm.dispatch M event).2.after M =
        some M' := by
  cases M <;> cases event <;>
    first
      | exact absurd rfl hEvent
      | exact ⟨List.forall_mem_singleton.mpr (by decide),
          _, rfl⟩
      | exact ⟨fun _ hByte => absurd hByte List.not_mem_nil,
          _, rfl⟩

/- The master reads all that is in flight to it. -/
theorem leads_drainMaster
    (hNoEnd : NoEnd u) :
    ∃ M' wrote, Tame wrote ∧
      Leads totals ⟨M, R, d, u⟩ ⟨M', R, d ++ wrote, []⟩ := by
  induction u generalizing M d with
  | nil =>
      refine ⟨M, [], tame_nil, ?_⟩
      rw [List.append_nil]
      exact leads_refl _
  | cons byte u ih =>
      have hRest : NoEnd u := fun other hOther =>
        hNoEnd other (List.mem_cons_of_mem _ hOther)
      cases hRead : M.readByte byte with
      | none =>
          rcases ih (M := M) (d := d) hRest with
            ⟨M', wrote, hWrote, hLeads⟩
          exact ⟨M', wrote, hWrote,
            leads_trans (leads_masterIgnores totals hRead) hLeads⟩
      | some event =>
          have hEvent : event ≠ .endTest := by
            rintro rfl
            exact hNoEnd byte List.mem_cons_self
              (Fin.ext (Int.ofNat.inj
                (MasterState.val_of_readByte hRead)))
          rcases exists_masterAfter M hEvent with
            ⟨hSent, M₁, hAfter⟩
          have hFirst := leads_masterEvent totals (R := R)
            (d := d) (u := u) hRead rfl hAfter
          rcases ih (M := M₁)
              (d := d ++ (masterFsm.dispatch M event).1)
              hRest with
            ⟨M', wrote, hWrote, hLeads⟩
          refine ⟨M', (masterFsm.dispatch M event).1 ++ wrote,
            List.forall_mem_append.mpr ⟨hSent, hWrote⟩, ?_⟩
          rw [← List.append_assoc]
          exact leads_trans hFirst hLeads

end Queues

end View

end ModemTester
