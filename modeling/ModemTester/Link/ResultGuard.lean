import ModemTester.Link.ResultWindow

/-
  Result bytes in the queue to the master.

  The bytes of a result are not escaped, so some of them may
  have the value of a command. That does no harm while they
  go to `receiveResults`. Which bytes of the queue go there,
  and which are left to a reader that looks for commands,
  depends on where the master stands: a read may be open,
  may still be opened, or may not come any more.

  Key definitions include:
    * `IsCommandByte`
    * `GuardedBehind`, `GuardedSending`, `GuardedSent`
    * `Exchange.Guarded`
    * `Exchange.Contained`
-/

------------------------------------------------------------
-- Result Bytes
------------------------------------------------------------

namespace ModemTester

/- The byte is the identifier of an event. -/
def IsCommandByte (byte : Byte) : Prop :=
  availabilityModeCommandId ≤ byte ∧ byte ≤ endTestId

instance (byte : Byte) : Decidable (IsCommandByte byte) := by
  unfold IsCommandByte
  infer_instance

theorem isCommandByte_of_readByte
    {state : MasterState}
    {byte : Byte}
    {event : Event}
    (hRead : state.readByte byte = some event) :
    IsCommandByte byte := by
  have hVal := MasterState.val_of_readByte hRead
  have hLe : (241 : Nat) ≤ byte.val ∧ byte.val ≤ 246 := by
    cases event <;> simp [Event.eventId] at hVal <;> omega
  exact hLe

/- The byte belongs to a reply. -/
def Uplink.IsResult (up : Uplink) : Prop :=
  match up.origin with
  | .result _ _ => True
  | _ => False

instance (up : Uplink) : Decidable up.IsResult := by
  unfold Uplink.IsResult
  split <;> infer_instance

namespace Link

/- The next byte that the remote reads makes it reply. -/
def Replies (c : Link) : Prop :=
  c.remote = some .remoteThroughputMode ∧
    c.remoteHead = some endStandardCodes

instance (c : Link) : Decidable c.Replies := by
  unfold Replies
  infer_instance

end Link

/- No byte of a reply that has the value of a command. -/
def Uplink.IsTame (up : Uplink) : Prop :=
  ¬ (up.IsResult ∧ IsCommandByte up.byte)

instance : DecidablePred Uplink.IsTame := fun up => by
  unfold Uplink.IsTame
  infer_instance

------------------------------------------------------------
-- Queues Whose Results Are Read As Results
------------------------------------------------------------

/-
  The next `count` bytes go to `receiveResults`, and behind
  them there is no command byte of a reply.
-/
def GuardedBehind (count : Nat) (queue : List Uplink) : Prop :=
  ∀ up ∈ queue.drop count, up.IsTame

/-
  The read of eight bytes may be opened any time. Until then
  `handleReceive` looks for commands, and the first byte
  that it takes for one is not of a reply: it blocks or ends
  the master.
-/
def GuardedSending (queue : List Uplink) : Prop :=
  GuardedBehind recvBufSize queue ∧
    match queue.find? fun up =>
        (MasterThroughput.commandOf up.byte).isSome with
    | some up => ¬ up.IsResult
    | none => True

/-
  The first acknowledgement starts a worker, and there is no
  command byte of a reply before it.
-/
def GuardedSent : List Uplink → Prop
  | [] => True
  | up :: rest =>
      up.IsTame ∧
        if up.byte = remoteAckId then GuardedSending rest
        else GuardedSent rest

instance (count : Nat) (queue : List Uplink) :
    Decidable (GuardedBehind count queue) := by
  unfold GuardedBehind
  infer_instance

instance (queue : List Uplink) :
    Decidable (GuardedSending queue) := by
  unfold GuardedSending
  split <;> infer_instance

instance decidableGuardedSent :
    (queue : List Uplink) → Decidable (GuardedSent queue)
  | [] => .isTrue trivial
  | _ :: rest =>
      have := decidableGuardedSent rest
      inferInstanceAs (Decidable (_ ∧ ite _ _ _))

section Queues

variable {n m : Nat}
variable {up : Uplink}
variable {queue rest wrote : List Uplink}

theorem isTame_of_not_isResult
    (hWrote : ∀ up ∈ wrote, ¬ up.IsResult) :
    ∀ up ∈ wrote, up.IsTame :=
  fun other hOther hBoth => hWrote other hOther hBoth.1

theorem guardedBehind_of_le
    (hLe : n ≤ m)
    (hGuarded : GuardedBehind n queue) :
    GuardedBehind m queue := by
  intro up hUp
  rw [← Nat.add_sub_of_le hLe, ← List.drop_drop] at hUp
  exact hGuarded up (List.mem_of_mem_drop hUp)

theorem guardedBehind_append
    (hWrote : ∀ up ∈ wrote, up.IsTame)
    (hGuarded : GuardedBehind n queue) :
    GuardedBehind n (queue ++ wrote) := by
  intro up hUp
  rw [List.drop_append] at hUp
  rcases List.mem_append.mp hUp with hOld | hNew
  · exact hGuarded up hOld
  · exact hWrote up (List.mem_of_mem_drop hNew)

theorem guardedSending_append
    (hWrote : ∀ up ∈ wrote, ¬ up.IsResult)
    (hGuarded : GuardedSending queue) :
    GuardedSending (queue ++ wrote) := by
  refine ⟨guardedBehind_append
    (isTame_of_not_isResult hWrote) hGuarded.1, ?_⟩
  have hFirst := hGuarded.2
  rw [List.find?_append]
  cases hFind : queue.find? fun up =>
      (MasterThroughput.commandOf up.byte).isSome with
  | some up =>
      rw [hFind] at hFirst
      exact hFirst
  | none =>
      rw [Option.none_or]
      split
      · rename_i up hUp
        exact hWrote up (List.mem_of_find?_eq_some hUp)
      · trivial

/- Without command bytes of replies anything may come. -/
theorem guardedSending_of_isTame
    (hTame : ∀ up ∈ queue, up.IsTame) :
    GuardedSending queue := by
  refine ⟨fun up hUp => hTame up (List.mem_of_mem_drop hUp),
    ?_⟩
  split
  · rename_i up hUp
    intro hResult
    have hHandled := List.find?_some hUp
    rcases Option.isSome_iff_exists.mp hHandled with
      ⟨event, hEvent⟩
    have hRead : MasterState.throughputMode.readByte up.byte =
        some event := hEvent
    exact hTame up (List.mem_of_find?_eq_some hUp)
      ⟨hResult, isCommandByte_of_readByte hRead⟩
  · trivial

theorem guardedSent_of_isTame
    (hTame : ∀ up ∈ queue, up.IsTame) :
    GuardedSent queue := by
  induction queue with
  | nil => trivial
  | cons up queue ih =>
      have hRest : ∀ other ∈ queue, other.IsTame :=
        fun other hOther =>
          hTame other (List.mem_cons_of_mem _ hOther)
      refine ⟨hTame up List.mem_cons_self, ?_⟩
      split
      · exact guardedSending_of_isTame hRest
      · exact ih hRest

theorem guardedSent_append
    (hWrote : ∀ up ∈ wrote, ¬ up.IsResult)
    (hGuarded : GuardedSent queue) :
    GuardedSent (queue ++ wrote) := by
  induction queue with
  | nil =>
      exact guardedSent_of_isTame
        (isTame_of_not_isResult hWrote)
  | cons up queue ih =>
      refine ⟨hGuarded.1, ?_⟩
      have hRest := hGuarded.2
      split at hRest
      · rename_i hAck
        rw [if_pos hAck]
        exact guardedSending_append hWrote hRest
      · rename_i hOther
        rw [if_neg hOther]
        exact ih hRest

/- `handleReceive` goes on after what is no command. -/
theorem guardedSending_tail
    (hNone : MasterThroughput.commandOf up.byte = none)
    (hGuarded : GuardedSending (up :: rest)) :
    GuardedSending rest := by
  refine ⟨guardedBehind_of_le (n := 7) (by decide)
    hGuarded.1, ?_⟩
  have hFirst := hGuarded.2
  rw [List.find?_cons_of_neg (by simp [hNone])] at hFirst
  exact hFirst

/- A command that it comes to is not of a reply. -/
theorem not_isResult_of_commandOf
    {event : Event}
    (hSome : MasterThroughput.commandOf up.byte = some event)
    (hGuarded : GuardedSending (up :: rest)) :
    ¬ up.IsResult := by
  have hFirst := hGuarded.2
  rw [List.find?_cons_of_pos (by simp [hSome])] at hFirst
  exact hFirst

end Queues

------------------------------------------------------------
-- The Condition
------------------------------------------------------------

namespace Exchange

/- The master does not read any more. -/
def Stopped (s : Exchange) : Prop :=
  s.worker = .blocked ∨ s.link.master = none

/-
  With this queue to it, the master takes no byte of a reply
  for a command, whatever happens next.
-/
def Guarded (s : Exchange) (queue : List Uplink) : Prop :=
  match s.worker with
  | .absent =>
      if s.link.master = some .sentThroughputModeCommand then
        GuardedSent queue
      else
        GuardedBehind 0 queue
  | .sending => GuardedSending queue
  | .waiting recvBuf =>
      GuardedBehind (recvBufSize - recvBuf.length) queue
  | .reported => GuardedBehind 0 queue
  | .blocked => True

/-
  When the remote replies, the queue with the reply at its
  end is guarded, unless the master does not read any more.
-/
def Contained (s : Exchange) : ExchangeLabel → Prop
  | .toRemote totalReceived totalUsec =>
      s.Stopped ∨
        (s.link.Replies →
          s.Guarded
            (s.link.toMaster ++
              Link.replyBytes s.link.replies.length
                totalReceived totalUsec))
  | _ => True

instance (s : Exchange) : Decidable s.Stopped := by
  unfold Stopped
  infer_instance

instance (s : Exchange) (queue : List Uplink) :
    Decidable (s.Guarded queue) := by
  unfold Guarded
  split <;> infer_instance

instance (s : Exchange) (label : ExchangeLabel) :
    Decidable (s.Contained label) :=
  match label with
  | .toRemote _ _ =>
      inferInstanceAs (Decidable (s.Stopped ∨ (_ → _)))
  | .command _ | .masterTimeout | .remoteTimeout
  | .payload _ | .toMaster | .getResults | .resend
  | .receive | .reportTimer | .dropToRemote =>
      .isTrue trivial

end Exchange

end ModemTester
