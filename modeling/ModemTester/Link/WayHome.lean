import ModemTester.Link.Paths

/-
  The way home: both machines idle, nothing in flight.

  The paths are put together from the end. A remote at the
  end of its mode repeats its `RemoteAck`, so a waiting
  master gets one; a running remote first needs an
  `EndModeCommand`, and a master that is in another state
  first has to be brought to where it sends one. A remote in
  a state with a timer needs nothing in flight at all.

  Key definitions include:
    * `View.home`

  The rules used by clients are:
    * `View.leads_home_of_timerBased`
    * `View.leads_home_of_idle_remote`
    * `View.leads_home_of_running_remote`
    * `View.leads_home_of_ack`
-/

------------------------------------------------------------
-- The Way Home
------------------------------------------------------------

namespace ModemTester

namespace View

variable (totals : Nat → Word × Word)
variable {M : MasterState}
variable {R : RemoteState}
variable {d u : List Byte}

/- Both idle with nothing in flight. -/
def home : View := ⟨.idle, .remoteIdle, [], []⟩

theorem readByte_of_isStandardCode
    (M : MasterState)
    {byte : Byte}
    (hStandard : IsStandardCode byte) :
    M.readByte byte = none := by
  cases hRead : M.readByte byte with
  | none => rfl
  | some event =>
      have hVal := MasterState.val_of_readByte hRead
      have hLe : byte.val ≤ 240 := hStandard.2
      cases event <;> simp [Event.eventId] at hVal <;> omega

/- The states that only an acknowledgement or a timer leaves. -/
def Awaits (M : MasterState) : Prop :=
  M = .sentAvailableModeCommand ∨
    M = .sentThroughputModeCommand ∨
      M = .waitAckAfterEndMode

/- They get past all other bytes. -/
theorem ignores_of_awaits
    {byte : Byte}
    {event : Event}
    (hAwaits : Awaits M)
    (hRead : M.readByte byte = some event)
    (hAck : byte ≠ remoteAckId)
    (hEndTest : byte ≠ endTestId) :
    masterFsm.dispatch M event = ([], .stays) := by
  have hVal := MasterState.val_of_readByte hRead
  rcases hAwaits with rfl | rfl | rfl <;> cases event <;>
    first
      | rfl
      | exact absurd (Fin.ext (Int.ofNat.inj hVal)) hAck
      | exact absurd (Fin.ext (Int.ofNat.inj hVal)) hEndTest
      | cases hVal

theorem readByte_of_awaits
    (hAwaits : Awaits M) :
    M.readByte remoteAckId = some .remoteAck := by
  rcases hAwaits with rfl | rfl | rfl <;> rfl

/- They get to the next acknowledgement and act on it. -/
theorem leads_takeAck_append
    {M' : MasterState}
    (hAwaits : Awaits M)
    (hAck : masterFsm.dispatch M .remoteAck =
      ([masterAckId], .transits M'))
    (later : List Byte)
    (hNoEnd : NoEnd u)
    (hMem : remoteAckId ∈ u) :
    ∃ rest, (∀ byte ∈ rest, byte ∈ u) ∧
      Leads totals ⟨M, R, d, u ++ later⟩
        ⟨M', R, d ++ [masterAckId], rest ++ later⟩ := by
  rcases List.eq_append_cons_of_mem hMem with
    ⟨front, rest, rfl, hFront⟩
  refine ⟨rest, ?_, ?_⟩
  · intro byte hByte
    exact List.mem_append_right _ (List.mem_cons_of_mem _ hByte)
  · have hSkip : Leads totals
        ⟨M, R, d, front ++ (remoteAckId :: (rest ++ later))⟩
        ⟨M, R, d, remoteAckId :: (rest ++ later)⟩ := by
      apply leads_skipMaster totals
      intro byte hByte event hRead
      apply ignores_of_awaits hAwaits hRead
      · rintro rfl
        exact hFront hByte
      · exact hNoEnd byte (List.mem_append_left _ hByte)
    rw [List.append_assoc]
    apply leads_trans hSkip
    apply leads_masterEvent totals (readByte_of_awaits hAwaits)
    · rw [hAck]
    · rw [hAck]
      rfl

theorem leads_takeAck
    {M' : MasterState}
    (hAwaits : Awaits M)
    (hAck : masterFsm.dispatch M .remoteAck =
      ([masterAckId], .transits M'))
    (hNoEnd : NoEnd u)
    (hMem : remoteAckId ∈ u) :
    ∃ rest, (∀ byte ∈ rest, byte ∈ u) ∧
      Leads totals ⟨M, R, d, u⟩
        ⟨M', R, d ++ [masterAckId], rest⟩ := by
  rcases leads_takeAck_append totals (R := R) (d := d) hAwaits hAck []
      hNoEnd hMem with ⟨rest, hRest, hTake⟩
  rw [List.append_nil, List.append_nil] at hTake
  exact ⟨rest, hRest, hTake⟩

theorem ne_sendResults_of_idle (byte : Byte) :
    RemoteState.remoteIdle.handleByte byte ≠ .sendResults := by
  intro hReply
  cases (Link.handleByte_eq_sendResults hReply).1

/- An idle pair gets rid of repeated acknowledgements. -/
theorem leads_home_of_idle
    (hToRemote : ∀ byte ∈ d,
      IsStandardCode byte ∨ byte = masterAckId)
    (hQuiet : Quiet u) :
    Leads totals ⟨.idle, .remoteIdle, d, u⟩ home := by
  induction u generalizing d with
  | nil =>
      induction d with
      | nil => exact leads_refl _
      | cons byte d ih =>
          have hStays :
              Link.readOutcome .remoteIdle byte = .stays ∧
                remoteWrites .remoteIdle byte 0 0 = [] := by
            rcases hToRemote byte List.mem_cons_self with
              hStandard | rfl
            · have hNone :=
                readEvt_eq_none_of_isStandardCode hStandard
              simp [Link.readOutcome, remoteWrites,
                RemoteState.handleByte, hNone]
            · exact ⟨rfl, rfl⟩
          have hFirst := leads_remoteByte totals (M := .idle)
            (d := d) (u := []) (ne_sendResults_of_idle byte)
            (show (Link.readOutcome .remoteIdle byte).after
                .remoteIdle = some .remoteIdle by
              rw [hStays.1]; rfl)
          rw [hStays.2, List.append_nil] at hFirst
          exact leads_trans hFirst (ih fun other hOther =>
            hToRemote other (List.mem_cons_of_mem _ hOther))
  | cons byte u ih =>
      have hRest : Quiet u := fun other hOther =>
        hQuiet other (List.mem_cons_of_mem _ hOther)
      rcases hQuiet byte List.mem_cons_self with
        hStandard | rfl
      · exact leads_trans
          (leads_masterIgnores totals
            (readByte_of_isStandardCode _ hStandard))
          (ih hToRemote hRest)
      · have hAck := leads_masterEvent totals (M := .idle)
          (R := .remoteIdle) (d := d) (u := u)
          (show MasterState.idle.readByte remoteAckId =
            some .remoteAck from rfl) rfl rfl
        refine leads_trans hAck (ih ?_ hRest)
        refine List.forall_mem_append.mpr ⟨hToRemote, ?_⟩
        intro other hOther
        exact Or.inr (List.mem_singleton.mp hOther)

/- A remote at the end of its mode answers again and again. -/
theorem leads_home_of_ended
    (hQuiet : Quiet u) :
    Leads totals ⟨.waitAckAfterEndMode, .endModeReceived, [], u⟩
      home := by
  have hQuiet' : Quiet (u ++ [remoteAckId]) :=
    quiet_append hQuiet fun byte hByte =>
      Or.inr (List.mem_singleton.mp hByte)
  rcases leads_takeAck totals (R := .endModeReceived) (d := [])
      (Or.inr (Or.inr rfl)) rfl (noEnd_of_quiet hQuiet')
      (List.mem_append_right u (List.mem_singleton_self _))
    with ⟨rest, hRest, hAck⟩
  have hEnd := leads_remoteByte totals (M := .idle) (d := [])
    (u := rest) (by decide)
    (show (Link.readOutcome .endModeReceived masterAckId).after
      .endModeReceived = some .remoteIdle from rfl)
  refine leads_trans (leads_remoteTimeout totals rfl)
    (leads_trans hAck (leads_trans hEnd ?_))
  apply leads_home_of_idle totals
  · intro byte hByte
    cases hByte
  · apply quiet_append
    · intro byte hByte
      exact hQuiet' byte (hRest byte hByte)
    · exact quiet_remoteWrites _ (by decide)

/- The modes of the remote. -/
def Running (R : RemoteState) : Prop :=
  R = .remoteAvailabilityMode ∨ R = .remoteThroughputMode

/- `EndModeCommand` gets a running remote to the end. -/
theorem leads_endCommand
    (hRunning : Running R) :
    ∃ wrote, Quiet wrote ∧
      Leads totals ⟨M, R, endModeCommandId :: d, u⟩
        ⟨M, .endModeReceived, d, u ++ wrote⟩ := by
  refine ⟨remoteWrites R endModeCommandId 0 0,
    quiet_remoteWrites R (by decide), ?_⟩
  apply leads_remoteByte totals
  · exact ne_sendResults_of_ne R (by decide)
  · rcases hRunning with rfl | rfl <;> rfl

theorem leads_home_of_endCommand
    (hRunning : Running R)
    (hQuiet : Quiet u) :
    Leads totals ⟨.waitAckAfterEndMode, R, [endModeCommandId], u⟩
      home := by
  rcases leads_endCommand totals hRunning with ⟨wrote, hWrote, hEnd⟩
  exact leads_trans hEnd
    (leads_home_of_ended totals (quiet_append hQuiet hWrote))

/- The waiting master repeats its command. -/
theorem leads_home_of_running
    (hRunning : Running R)
    (hQuiet : Quiet u) :
    Leads totals ⟨.waitAckAfterEndMode, R, [], u⟩ home :=
  leads_trans (leads_masterTimeout totals rfl rfl rfl)
    (leads_home_of_endCommand totals hRunning hQuiet)

/- An idle remote and an acknowledgement left over. -/
theorem leads_home_of_remoteIdle
    (hQuiet : Quiet u)
    (hMem : remoteAckId ∈ u) :
    Leads totals ⟨.waitAckAfterEndMode, .remoteIdle, [], u⟩ home := by
  rcases leads_takeAck totals (R := .remoteIdle) (d := [])
      (Or.inr (Or.inr rfl)) rfl (noEnd_of_quiet hQuiet)
      hMem with ⟨rest, hRest, hAck⟩
  apply leads_trans hAck
  apply leads_home_of_idle totals
  · intro byte hByte
    exact Or.inr (List.mem_singleton.mp hByte)
  · intro byte hByte
    exact hQuiet byte (hRest byte hByte)

/- The bytes are tame, and without `EndModeCommand`. -/
def NoEndMode (bytes : List Byte) : Prop :=
  ∀ byte ∈ bytes, byte ≠ endModeCommandId ∧
    byte ≠ endTestId ∧ byte ≠ endStandardCodes

theorem tame_of_noEndMode
    {bytes : List Byte}
    (hNoEndMode : NoEndMode bytes) :
    Tame bytes := fun byte hByte => (hNoEndMode byte hByte).2

/-
  A master in a mode ends it; a master that awaits the end
  repeats its command; any other needs an acknowledgement to
  get into a mode first.
-/
theorem leads_sendEndMode
    (hNoEnd : NoEnd u)
    (hMaster : M = .availabilityMode ∨
      M = .throughputMode ∨ M = .waitAckAfterEndMode ∨
        remoteAckId ∈ u) :
    ∃ wrote rest, NoEndMode wrote ∧
      (∀ byte ∈ rest, byte ∈ u) ∧
        Leads totals ⟨M, R, d, u⟩
          ⟨.waitAckAfterEndMode, R,
            d ++ wrote ++ [endModeCommandId], rest⟩ := by
  have hCommand : IsModeCommand .endModeCommand := by decide
  cases M with
  | availabilityMode =>
      refine ⟨[], u, by simp [NoEndMode], fun _ h => h, ?_⟩
      rw [List.append_nil]
      exact leads_command totals hCommand rfl rfl
  | throughputMode =>
      refine ⟨[], u, by simp [NoEndMode], fun _ h => h, ?_⟩
      rw [List.append_nil]
      exact leads_command totals hCommand rfl rfl
  | waitAckAfterEndMode =>
      refine ⟨[], u, by simp [NoEndMode], fun _ h => h, ?_⟩
      rw [List.append_nil]
      exact leads_masterTimeout totals rfl rfl rfl
  | sentAvailableModeCommand =>
      have hMem : remoteAckId ∈ u := by simpa using hMaster
      rcases leads_takeAck totals (R := R) (d := d) (Or.inl rfl) rfl
          hNoEnd hMem with ⟨rest, hRest, hAck⟩
      refine ⟨[masterAckId], rest,
        List.forall_mem_singleton.mpr (by decide), hRest, ?_⟩
      exact leads_trans hAck (leads_command totals hCommand rfl rfl)
  | sentThroughputModeCommand =>
      have hMem : remoteAckId ∈ u := by simpa using hMaster
      rcases leads_takeAck totals (R := R) (d := d)
          (Or.inr (Or.inl rfl)) rfl hNoEnd hMem with
        ⟨rest, hRest, hAck⟩
      refine ⟨[masterAckId], rest,
        List.forall_mem_singleton.mpr (by decide), hRest, ?_⟩
      exact leads_trans hAck (leads_command totals hCommand rfl rfl)
  | idle =>
      have hMem : remoteAckId ∈ u := by simpa using hMaster
      have hMode := leads_command totals (M := .idle) (R := R)
        (d := d) (u := u)
        (show IsModeCommand .availabilityModeCommand by decide)
        rfl rfl
      rcases leads_takeAck totals (R := R)
          (d := d ++ [availabilityModeCommandId])
          (Or.inl rfl) rfl hNoEnd hMem with
        ⟨rest, hRest, hAck⟩
      refine ⟨[availabilityModeCommandId, masterAckId], rest,
        ?_, hRest, ?_⟩
      · unfold NoEndMode
        rw [List.forall_mem_cons, List.forall_mem_singleton]
        decide
      · have hEnd := leads_command totals
          (M := .availabilityMode) (R := R)
          (d := d ++ [availabilityModeCommandId] ++
            [masterAckId]) (u := rest) hCommand rfl rfl
        rw [List.append_assoc d] at hAck hEnd
        exact leads_trans hMode (leads_trans hAck hEnd)

/-
  The remote still waits for a `MasterAck`, which the first
  acknowledgement makes the master send; with the second one
  the master gets into a mode and out of it again.
-/
theorem leads_home_of_received
    {later : List Byte}
    (hReceived : R = .availabilityCommandReceived ∨
      R = .throughputCommandReceived)
    (hQuiet : Quiet u)
    (hLater : Quiet later)
    (hMem : remoteAckId ∈ u)
    (hMem' : remoteAckId ∈ later) :
    Leads totals ⟨.waitAckAfterEndMode, R, [], u ++ later⟩ home := by
  rcases leads_takeAck_append totals (R := R) (d := [])
      (Or.inr (Or.inr rfl)) rfl later (noEnd_of_quiet hQuiet)
      hMem with ⟨rest, hRest, hAck⟩
  have hMode : ∃ R', Running R' ∧
      Leads totals ⟨.idle, R, [masterAckId], rest ++ later⟩
        ⟨.idle, R', [], rest ++ later⟩ := by
    rcases hReceived with rfl | rfl
    · refine ⟨.remoteAvailabilityMode, Or.inl rfl, ?_⟩
      have hByte := leads_remoteByte totals (M := .idle) (d := [])
        (u := rest ++ later) (by decide)
        (show (Link.readOutcome .availabilityCommandReceived
            masterAckId).after .availabilityCommandReceived =
          some .remoteAvailabilityMode from rfl)
      rw [show remoteWrites .availabilityCommandReceived
        masterAckId 0 0 = [] from rfl, List.append_nil]
        at hByte
      exact hByte
    · refine ⟨.remoteThroughputMode, Or.inr rfl, ?_⟩
      have hByte := leads_remoteByte totals (M := .idle) (d := [])
        (u := rest ++ later) (by decide)
        (show (Link.readOutcome .throughputCommandReceived
            masterAckId).after .throughputCommandReceived =
          some .remoteThroughputMode from rfl)
      rw [show remoteWrites .throughputCommandReceived
        masterAckId 0 0 = [] from rfl, List.append_nil]
        at hByte
      exact hByte
  rcases hMode with ⟨R', hRunning, hMode⟩
  have hQuiet' : Quiet (rest ++ later) := by
    apply quiet_append _ hLater
    intro byte hByte
    exact hQuiet byte (hRest byte hByte)
  rcases leads_sendEndMode totals (M := .idle) (R := R') (d := [])
      (noEnd_of_quiet hQuiet')
      (Or.inr (Or.inr (Or.inr
        (List.mem_append_right rest hMem')))) with
    ⟨wrote, rest', hWrote, hRest', hSend⟩
  have hStays : ∀ byte ∈ wrote,
      Link.readOutcome R' byte = .stays := fun byte hByte =>
    Link.readOutcome_running hRunning
      (hWrote byte hByte).1 (hWrote byte hByte).2.1
  rcases leads_skipRemote totals (M := .waitAckAfterEndMode)
      (d := [endModeCommandId]) (u := rest') hStays
      (tame_of_noEndMode hWrote) with
    ⟨echoed, hEchoed, hSkip⟩
  refine leads_trans hAck (leads_trans hMode
    (leads_trans hSend (leads_trans hSkip ?_)))
  apply leads_home_of_endCommand totals hRunning
  apply quiet_append _ hEchoed
  intro byte hByte
  exact hQuiet' byte (hRest' byte hByte)

/- Timers are all that a remote with a timer needs. -/
theorem leads_home_of_timerBased
    (hKind : R.kind = .timerBased)
    (hToRemote : Tame d)
    (hToMaster : NoEnd u) :
    Leads totals ⟨M, R, d, u⟩ home := by
  have hAckQuiet : Quiet [remoteAckId] := fun byte hByte =>
    Or.inr (List.mem_singleton.mp hByte)
  -- The master reads all, then gets one acknowledgement.
  rcases leads_drainMaster totals (M := M) (R := R) (d := d)
      hToMaster with ⟨M₁, wrote₁, hWrote₁, hDrain⟩
  have hFirst := leads_remoteTimeout totals (M := M₁)
    (d := d ++ wrote₁) (u := []) hKind
  rcases leads_sendEndMode totals (M := M₁) (R := R)
      (d := d ++ wrote₁) (noEnd_of_quiet hAckQuiet)
      (Or.inr (Or.inr (Or.inr
        (List.mem_singleton_self _)))) with
    ⟨wrote₂, rest, hWrote₂, hRest, hSend⟩
  -- Two more are in flight when the remote reads all.
  have hSecond := leads_remoteTimeout totals
    (M := .waitAckAfterEndMode)
    (d := d ++ wrote₁ ++ wrote₂ ++ [endModeCommandId])
    (u := rest) hKind
  have hThird := leads_remoteTimeout totals
    (M := .waitAckAfterEndMode)
    (d := d ++ wrote₁ ++ wrote₂ ++ [endModeCommandId])
    (u := rest ++ [remoteAckId]) hKind
  have hTame : Tame
      (d ++ wrote₁ ++ wrote₂ ++ [endModeCommandId]) := by
    simp only [Tame, List.forall_mem_append,
      List.forall_mem_singleton]
    exact ⟨⟨⟨hToRemote, hWrote₁⟩, tame_of_noEndMode hWrote₂⟩,
      by decide⟩
  rcases leads_drainRemote totals (M := .waitAckAfterEndMode) (R := R)
      (u := rest ++ [remoteAckId] ++ [remoteAckId])
      hTame with ⟨R', wrote₃, hWrote₃, hRead⟩
  refine leads_trans hDrain (leads_trans hFirst
    (leads_trans hSend (leads_trans hSecond
      (leads_trans hThird (leads_trans hRead ?_)))))
  have hFront : Quiet (rest ++ [remoteAckId]) := by
    apply quiet_append _ hAckQuiet
    intro byte hByte
    exact hAckQuiet byte (hRest byte hByte)
  have hBack : Quiet ([remoteAckId] ++ wrote₃) :=
    quiet_append hAckQuiet hWrote₃
  have hMem : remoteAckId ∈ rest ++ [remoteAckId] :=
    List.mem_append_right _ (List.mem_singleton_self _)
  have hMem' : remoteAckId ∈ [remoteAckId] ++ wrote₃ :=
    List.mem_append_left _ (List.mem_singleton_self _)
  rw [List.append_assoc (rest ++ [remoteAckId])]
  cases R' with
  | remoteIdle =>
      exact leads_home_of_remoteIdle totals
        (quiet_append hFront hBack)
        (List.mem_append_left _ hMem)
  | availabilityCommandReceived =>
      exact leads_home_of_received totals (Or.inl rfl) hFront hBack
        hMem hMem'
  | throughputCommandReceived =>
      exact leads_home_of_received totals (Or.inr rfl) hFront hBack
        hMem hMem'
  | remoteAvailabilityMode =>
      exact leads_home_of_running totals (Or.inl rfl)
        (quiet_append hFront hBack)
  | remoteThroughputMode =>
      exact leads_home_of_running totals (Or.inr rfl)
        (quiet_append hFront hBack)
  | endModeReceived =>
      exact leads_home_of_ended totals (quiet_append hFront hBack)

/- A mode command in flight wakes an idle remote. -/
theorem leads_home_of_modeCommand
    (hMem : availabilityModeCommandId ∈ d ∨
      throughputModeCommandId ∈ d)
    (hToRemote : Tame d)
    (hToMaster : NoEnd u) :
    Leads totals ⟨M, .remoteIdle, d, u⟩ home := by
  induction d generalizing u with
  | nil =>
      rcases hMem with hMem | hMem <;>
        exact absurd hMem List.not_mem_nil
  | cons byte d ih =>
      have hByte := hToRemote byte List.mem_cons_self
      have hRest : Tame d := tame_of_cons hToRemote
      have hWrites : NoEnd
          (u ++ remoteWrites .remoteIdle byte 0 0) :=
        List.forall_mem_append.mpr ⟨hToMaster,
          noEnd_of_quiet (quiet_remoteWrites _ hByte.1)⟩
      by_cases hAvailability :
          byte = availabilityModeCommandId
      · subst hAvailability
        have hFirst := leads_remoteByte totals (M := M) (d := d)
          (u := u) (by decide)
          (show (Link.readOutcome .remoteIdle
              availabilityModeCommandId).after .remoteIdle =
            some .availabilityCommandReceived from rfl)
        exact leads_trans hFirst
          (leads_home_of_timerBased totals rfl hRest hWrites)
      by_cases hThroughput : byte = throughputModeCommandId
      · subst hThroughput
        have hFirst := leads_remoteByte totals (M := M) (d := d)
          (u := u) (by decide)
          (show (Link.readOutcome .remoteIdle
              throughputModeCommandId).after .remoteIdle =
            some .throughputCommandReceived from rfl)
        exact leads_trans hFirst
          (leads_home_of_timerBased totals rfl hRest hWrites)
      -- Any other byte is skipped.
      have hStays := Link.readOutcome_remoteIdle
        hAvailability hThroughput hByte.1
      have hFirst := leads_remoteByte totals (M := M) (d := d)
        (u := u) (ne_sendResults_of_idle byte)
        (show (Link.readOutcome .remoteIdle byte).after
            .remoteIdle = some .remoteIdle by
          rw [hStays]; rfl)
      refine leads_trans hFirst (ih ?_ hRest hWrites)
      simpa [Ne.symm hAvailability, Ne.symm hThroughput]
        using hMem

theorem tame_append_singleton
    {byte : Byte}
    (hTame : Tame d)
    (hByte : byte ≠ endTestId ∧ byte ≠ endStandardCodes) :
    Tame (d ++ [byte]) :=
  List.forall_mem_append.mpr
    ⟨hTame, List.forall_mem_singleton.mpr hByte⟩

/- A master that may send a mode command does. -/
theorem leads_home_of_starting
    (hMaster : M = .idle ∨ M = .sentAvailableModeCommand ∨
      M = .sentThroughputModeCommand)
    (hToRemote : Tame d)
    (hToMaster : NoEnd u) :
    Leads totals ⟨M, .remoteIdle, d, u⟩ home := by
  rcases hMaster with rfl | rfl | rfl
  · have hCommand :
        IsModeCommand .availabilityModeCommand := by
      decide
    apply leads_trans
      (leads_command totals (M := .idle) hCommand rfl rfl)
    exact leads_home_of_modeCommand totals
      (Or.inl (List.mem_append_right _
        (List.mem_singleton_self _)))
      (tame_append_singleton hToRemote (by decide)) hToMaster
  · apply leads_trans
      (leads_masterTimeout totals
        (M := .sentAvailableModeCommand) rfl rfl rfl)
    exact leads_home_of_modeCommand totals
      (Or.inl (List.mem_append_right _
        (List.mem_singleton_self _)))
      (tame_append_singleton hToRemote (by decide)) hToMaster
  · apply leads_trans
      (leads_masterTimeout totals
        (M := .sentThroughputModeCommand) rfl rfl rfl)
    exact leads_home_of_modeCommand totals
      (Or.inr (List.mem_append_right _
        (List.mem_singleton_self _)))
      (tame_append_singleton hToRemote (by decide)) hToMaster

/- Any acknowledgement gets the waiting master to `Idle`. -/
theorem leads_home_of_waiting
    (hToRemote : Tame d)
    (hToMaster : NoEnd u)
    (hMem : remoteAckId ∈ u) :
    Leads totals ⟨.waitAckAfterEndMode, .remoteIdle, d, u⟩ home := by
  rcases leads_takeAck totals (R := .remoteIdle) (d := d)
      (Or.inr (Or.inr rfl)) rfl hToMaster hMem with
    ⟨rest, hRest, hAck⟩
  apply leads_trans hAck
  apply leads_home_of_starting totals (Or.inl rfl)
  · exact tame_append_singleton hToRemote (by decide)
  · intro byte hByte
    exact hToMaster byte (hRest byte hByte)

/-
  What an idle remote needs: a mode command, which may still
  have to be sent, or an acknowledgement for the master.
-/
theorem leads_home_of_idle_remote
    (hToRemote : Tame d)
    (hToMaster : NoEnd u)
    (hOpen : availabilityModeCommandId ∈ d ∨
      throughputModeCommandId ∈ d ∨ remoteAckId ∈ u ∨
        M = .idle ∨ M = .sentAvailableModeCommand ∨
          M = .sentThroughputModeCommand) :
    Leads totals ⟨M, .remoteIdle, d, u⟩ home := by
  rcases hOpen with hMem | hMem | hMem | hStarting
  · exact leads_home_of_modeCommand totals (Or.inl hMem) hToRemote
      hToMaster
  · exact leads_home_of_modeCommand totals (Or.inr hMem) hToRemote
      hToMaster
  · have hCommand : IsModeCommand .endModeCommand := by
      decide
    have hToRemote' : Tame (d ++ [endModeCommandId]) :=
      tame_append_singleton hToRemote (by decide)
    cases M with
    | idle =>
        exact leads_home_of_starting totals (Or.inl rfl) hToRemote
          hToMaster
    | sentAvailableModeCommand =>
        exact leads_home_of_starting totals (Or.inr (Or.inl rfl))
          hToRemote hToMaster
    | sentThroughputModeCommand =>
        exact leads_home_of_starting totals (Or.inr (Or.inr rfl))
          hToRemote hToMaster
    | availabilityMode =>
        apply leads_trans
          (leads_command totals (M := .availabilityMode) hCommand
            rfl rfl)
        exact leads_home_of_waiting totals hToRemote' hToMaster hMem
    | throughputMode =>
        apply leads_trans
          (leads_command totals (M := .throughputMode) hCommand
            rfl rfl)
        exact leads_home_of_waiting totals hToRemote' hToMaster hMem
    | waitAckAfterEndMode =>
        exact leads_home_of_waiting totals hToRemote hToMaster hMem
  · exact leads_home_of_starting totals hStarting hToRemote hToMaster

/- `EndModeCommand` in flight ends the mode of the remote. -/
theorem leads_home_of_endMode
    (hRunning : Running R)
    (hMem : endModeCommandId ∈ d)
    (hToRemote : Tame d)
    (hToMaster : NoEnd u) :
    Leads totals ⟨M, R, d, u⟩ home := by
  rcases List.eq_append_cons_of_mem hMem with
    ⟨front, rest, rfl, hFront⟩
  have hStays : ∀ byte ∈ front,
      Link.readOutcome R byte = .stays := by
    intro byte hByte
    apply Link.readOutcome_running hRunning
    · rintro rfl
      exact hFront hByte
    · exact (hToRemote byte
        (List.mem_append_left _ hByte)).1
  rcases leads_skipRemote totals (M := M)
      (d := endModeCommandId :: rest) (u := u) hStays
      (fun byte hByte =>
        hToRemote byte (List.mem_append_left _ hByte)) with
    ⟨wrote, hWrote, hSkip⟩
  rcases leads_endCommand totals (M := M) (d := rest)
      (u := u ++ wrote) hRunning with ⟨wrote', hWrote', hEnd⟩
  apply leads_trans hSkip
  apply leads_trans hEnd
  apply leads_home_of_timerBased totals rfl
  · intro byte hByte
    exact hToRemote byte
      (List.mem_append_right _ (List.mem_cons_of_mem _ hByte))
  · exact List.forall_mem_append.mpr
      ⟨List.forall_mem_append.mpr
        ⟨hToMaster, noEnd_of_quiet hWrote⟩,
        noEnd_of_quiet hWrote'⟩

/- A master that can get to send `EndModeCommand` does. -/
theorem leads_home_of_ending
    (hRunning : Running R)
    (hMaster : M = .availabilityMode ∨
      M = .throughputMode ∨ M = .waitAckAfterEndMode ∨
        remoteAckId ∈ u)
    (hToRemote : Tame d)
    (hToMaster : NoEnd u) :
    Leads totals ⟨M, R, d, u⟩ home := by
  rcases leads_sendEndMode totals (R := R) (d := d) hToMaster
      hMaster with ⟨wrote, rest, hWrote, hRest, hSend⟩
  apply leads_trans hSend
  apply leads_home_of_endMode totals hRunning
  · exact List.mem_append_right _ (List.mem_singleton_self _)
  · apply tame_append_singleton _ (by decide)
    exact List.forall_mem_append.mpr
      ⟨hToRemote, tame_of_noEndMode hWrote⟩
  · intro byte hByte
    exact hToMaster byte (hRest byte hByte)

/-
  What a running remote needs: `EndModeCommand`, which the
  master may still have to send, for which it needs an
  acknowledgement unless it is in a mode.
-/
theorem leads_home_of_running_remote
    (hRunning : Running R)
    (hToRemote : Tame d)
    (hToMaster : NoEnd u)
    (hOpen : endModeCommandId ∈ d ∨ remoteAckId ∈ u ∨
      M = .availabilityMode ∨ M = .throughputMode ∨
        M = .waitAckAfterEndMode) :
    Leads totals ⟨M, R, d, u⟩ home := by
  by_cases hEnd : endModeCommandId ∈ d
  · exact leads_home_of_endMode totals hRunning hEnd hToRemote
      hToMaster
  · rcases hOpen with hMem | hMem | hMode | hMode | hMode
    · exact absurd hMem hEnd
    · exact leads_home_of_ending totals hRunning
        (Or.inr (Or.inr (Or.inr hMem))) hToRemote hToMaster
    · exact leads_home_of_ending totals hRunning (Or.inl hMode)
        hToRemote hToMaster
    · exact leads_home_of_ending totals hRunning
        (Or.inr (Or.inl hMode)) hToRemote hToMaster
    · exact leads_home_of_ending totals hRunning
        (Or.inr (Or.inr (Or.inl hMode))) hToRemote hToMaster

/-
  With an acknowledgement in flight to the master there is a
  way from every pair of states.
-/
theorem leads_home_of_ack
    (hMem : remoteAckId ∈ u)
    (hToMaster : NoEnd u) :
    Leads totals ⟨M, R, [], u⟩ home := by
  cases R with
  | remoteIdle =>
      exact leads_home_of_idle_remote totals tame_nil
        hToMaster (Or.inr (Or.inr (Or.inl hMem)))
  | remoteAvailabilityMode =>
      exact leads_home_of_running_remote totals (Or.inl rfl)
        tame_nil hToMaster (Or.inr (Or.inl hMem))
  | remoteThroughputMode =>
      exact leads_home_of_running_remote totals (Or.inr rfl)
        tame_nil hToMaster (Or.inr (Or.inl hMem))
  | availabilityCommandReceived =>
      exact leads_home_of_timerBased totals rfl tame_nil
        hToMaster
  | throughputCommandReceived =>
      exact leads_home_of_timerBased totals rfl tame_nil
        hToMaster
  | endModeReceived =>
      exact leads_home_of_timerBased totals rfl tame_nil
        hToMaster

end View

end ModemTester
