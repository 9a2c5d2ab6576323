import ModemTester.Link.ResultWindow

/-
  Whose results are reported.

  The eight bytes of a report are whatever came next when
  `getResults` opened its read, so the byte at its head
  decides: if it is the first byte of a reply of the running
  session, the report is that reply; if it is anything else,
  such as a `RemoteAck` that arrives late, the report is
  made of the wrong bytes.

  Key definitions include:
    * `Link.Authentic`
    * `Exchange.OpensAligned`
    * `Exchange.Aligned`

  Main declarations:
    * `Exchange.reports_authentic`
    * `Exchange.exists_not_authentic`
    * `Exchange.late_ack_in_report`
-/

------------------------------------------------------------
-- Authentic Reports
------------------------------------------------------------

namespace ModemTester

namespace Link

/-
  The remote sent the totals as one reply in the session of
  the report, and the bytes read are the bytes of that reply.
-/
def Authentic (c : Link) (report : Report) : Prop :=
  ∃ reply,
    c.replies[reply]? =
        some ⟨report.session, report.totalReceived,
          report.totalUsec⟩ ∧
      report.recvBuf =
        replyBytes reply report.totalReceived
          report.totalUsec

/- The session of the reply that a byte is the first of. -/
def replySession (c : Link) (up : Uplink) : Option Nat :=
  match up.origin with
  | .result reply 0 => (c.replies[reply]?).map Reply.session
  | _ => none

/- The bytes begin with a reply of the running session. -/
def BeginsReply (c : Link) (bytes : List Uplink) : Prop :=
  bytes.head?.bind c.replySession =
    some c.masterSessions.length

/-
  All that the remote writes on the next byte it reads, if
  anything, is a reply of the running session.
-/
def OnlyReplies (c : Link) : Prop :=
  match c.remote, c.toRemote with
  | some state, sent :: _ =>
      match state.handleByte sent.byte with
      | .dispatch event =>
          (remoteFsm.dispatch state event).1 = []
      | .echo => False
      | .sendResults =>
          c.startedSession = c.masterSessions.length
      | .ignore => True
  | _, _ => True

instance (c : Link) (bytes : List Uplink) :
    Decidable (c.BeginsReply bytes) := by
  unfold BeginsReply
  infer_instance

instance (c : Link) : Decidable c.OnlyReplies := by
  unfold OnlyReplies
  split
  · split <;> infer_instance
  · infer_instance

end Link

namespace Exchange

/- The read of `getResults` is open and nothing has come. -/
def Awaits (s : Exchange) : Prop :=
  s.worker = .waiting [] ∧ s.link.toMaster = []

/-
  What keeps the read of `getResults` aligned: when it opens
  nothing is in flight, or a reply of the session is; and
  until something is, the remote writes nothing else.
-/
def OpensAligned (s : Exchange) : ExchangeLabel → Prop
  | .getResults =>
      s.link.toMaster = [] ∨
        s.link.BeginsReply s.link.toMaster
  | .remoteTimeout => ¬ s.Awaits
  | .toRemote _ _ => s.Awaits → s.link.OnlyReplies
  | _ => True

instance (s : Exchange) : Decidable s.Awaits := by
  unfold Awaits
  infer_instance

instance (s : Exchange) (label : ExchangeLabel) :
    Decidable (s.OpensAligned label) := by
  unfold OpensAligned
  split <;> infer_instance

end Exchange

------------------------------------------------------------
-- The First Byte Decides
------------------------------------------------------------

namespace Link

variable {c c' : Link}
variable {bytes more : List Uplink}
variable {session : Nat}

theorem replySession_eq_some_iff
    {up : Uplink} :
    c.replySession up = some session ↔
      ∃ reply sent, up.origin = .result reply 0 ∧
        c.replies[reply]? = some sent ∧
          sent.session = session := by
  unfold replySession
  constructor
  · intro hSession
    split at hSession
    · rename_i reply hOrigin
      rcases Option.map_eq_some_iff.mp hSession with
        ⟨sent, hSent, hEq⟩
      exact ⟨reply, sent, hOrigin, hSent, hEq⟩
    · cases hSession
  · rintro ⟨reply, sent, hOrigin, hSent, rfl⟩
    rw [hOrigin]
    simp only [hSent, Option.map_some]

/- A framed stream that begins a reply goes on with it. -/
theorem take_of_beginsReply
    (hFramed : c.framing.Framed bytes)
    (hBegins : c.BeginsReply bytes) :
    ∃ reply sent, c.replies[reply]? = some sent ∧
      sent.session = c.masterSessions.length ∧
        bytes.take recvBufSize =
          replyBytes reply sent.totalReceived
            sent.totalUsec := by
  rcases Option.bind_eq_some_iff.mp hBegins with
    ⟨up, hHead, hSession⟩
  rcases replySession_eq_some_iff.mp hSession with
    ⟨reply, sent, hOrigin, hSent, hEq⟩
  have hTag : c.framing.tag up = some (reply, 0) := by
    simp only [framing, hOrigin]
  rcases Framing.take_of_framed hFramed hHead hTag with
    ⟨frame, hFrame, hTake⟩
  simp only [framing, hSent, Option.map_some,
    Option.some.injEq] at hFrame
  refine ⟨reply, sent, hSent, hEq, ?_⟩
  rw [hFrame]
  have hLength : frame.length = recvBufSize := by
    rw [← hFrame]
    rfl
  rw [← hLength]
  exact hTake

/- What else is in flight and what else is replied is alike. -/
theorem beginsReply_append
    {replies : List Reply}
    (hReplies : c'.replies = c.replies ++ replies)
    (hSessions : c'.masterSessions = c.masterSessions)
    (hBegins : c.BeginsReply bytes) :
    c'.BeginsReply (bytes ++ more) := by
  rcases Option.bind_eq_some_iff.mp hBegins with
    ⟨up, hHead, hSession⟩
  rcases replySession_eq_some_iff.mp hSession with
    ⟨reply, sent, hOrigin, hSent, hEq⟩
  apply Option.bind_eq_some_iff.mpr
  refine ⟨up, ?_, ?_⟩
  · rw [List.head?_append, hHead]
    rfl
  · apply replySession_eq_some_iff.mpr
    refine ⟨reply, sent, hOrigin, ?_, ?_⟩
    · rw [hReplies]
      rw [List.getElem?_append_left
        (List.getElem?_eq_some_iff.mp hSent).1]
      exact hSent
    · rw [hSessions]
      exact hEq

/- A report stays what it is. -/
theorem authentic_append
    {report : Report}
    {replies : List Reply}
    (hReplies : c'.replies = c.replies ++ replies)
    (hAuthentic : c.Authentic report) :
    c'.Authentic report := by
  rcases hAuthentic with ⟨reply, hSent, hBytes⟩
  refine ⟨reply, ?_, hBytes⟩
  rw [hReplies, List.getElem?_append_left
    (List.getElem?_eq_some_iff.mp hSent).1]
  exact hSent

end Link

------------------------------------------------------------
-- Aligned Reads
------------------------------------------------------------

namespace Exchange

/- An open read has begun, or will begin, with a reply. -/
def Aligned (s : Exchange) : Prop :=
  ∀ recvBuf, s.worker = .waiting recvBuf →
    s.stream = [] ∨ s.link.BeginsReply s.stream

theorem aligned_of_received
    {s : Exchange}
    (hClosed : ∀ recvBuf, s.worker ≠ .waiting recvBuf) :
    Aligned s :=
  fun recvBuf hWaiting => absurd hWaiting (hClosed recvBuf)

theorem aligned_dispatch
    {s : Exchange}
    (state : MasterState)
    (event : Event)
    (hAligned : Aligned s) :
    Aligned (s.dispatch state event) := by
  intro recvBuf hWaiting
  rcases waiting_of_after hWaiting with ⟨hStays, hWaiting'⟩
  have hSessions :
      (s.link.masterDispatch state event).masterSessions =
        s.link.masterSessions := by
    simp only [Link.masterDispatch, hStays]
    cases state <;> exact List.append_nil _
  have hStream :
      (s.dispatch state event).stream = s.stream := by
    simp only [stream, dispatch, hStays]
    rfl
  rw [hStream]
  refine (hAligned recvBuf hWaiting').imp id ?_
  intro hBegins
  have hMore : (s.dispatch state event).link.BeginsReply
      (s.stream ++ []) :=
    Link.beginsReply_append (c := s.link)
      (List.append_nil _).symm hSessions hBegins
  rw [List.append_nil] at hMore
  exact hMore

theorem aligned_masterRead
    {s : Exchange}
    (state : MasterState)
    (sent : Uplink)
    (hAligned : Aligned s) :
    Aligned (s.masterRead state sent) := by
  cases hRead : state.readByte sent.byte with
  | none =>
      rw [masterRead_of_none hRead]
      exact hAligned
  | some event =>
      by_cases hJoins : s.Joins state event
      · rw [masterRead_of_joins hRead hJoins]
        apply aligned_of_received
        intro recvBuf hWaiting
        cases hWaiting
      · rw [masterRead_of_free hRead hJoins]
        exact aligned_dispatch state event hAligned

/- What the remote writes matters to an empty read only. -/
theorem aligned_of_written
    {s : Exchange}
    (link : Link)
    {wrote : List Uplink}
    {replies : List Reply}
    (hToMaster : link.toMaster = s.link.toMaster ++ wrote)
    (hReplies : link.replies = s.link.replies ++ replies)
    (hSessions :
      link.masterSessions = s.link.masterSessions)
    (hWrote : s.Awaits → wrote = [] ∨ link.BeginsReply wrote)
    (hAligned : Aligned s) :
    Aligned { s with link := link } := by
  intro recvBuf hWaiting
  have hStream : ({ s with link := link } : Exchange).stream =
      s.stream ++ wrote := by
    simp only [stream, hToMaster, List.append_assoc]
  rw [hStream]
  rcases hAligned recvBuf hWaiting with hEmpty | hBegins
  · rw [hEmpty, List.nil_append]
    apply hWrote
    have hParts := List.append_eq_nil_iff.mp hEmpty
    refine ⟨?_, hParts.2⟩
    change s.worker = _ at hWaiting
    have hNone := hParts.1
    rw [hWaiting] at hNone ⊢
    exact congrArg Worker.waiting hNone
  · right
    exact Link.beginsReply_append hReplies hSessions hBegins

theorem beginsReply_of_onlyReplies
    {c : Link}
    {state : RemoteState}
    {sent : Downlink}
    {rest : List Downlink}
    (r u : Word)
    (hState : c.remote = some state)
    (hHead : c.toRemote = sent :: rest)
    (hOnly : c.OnlyReplies) :
    c.remoteWrote state sent.byte r u = [] ∨
      (Link.remoteRead { c with toRemote := rest } state sent r
        u).BeginsReply (c.remoteWrote state sent.byte r u) := by
  unfold Link.OnlyReplies at hOnly
  rw [hState, hHead] at hOnly
  cases hHandling : state.handleByte sent.byte with
  | dispatch event =>
      simp only [hHandling] at hOnly
      left
      simp only [Link.remoteWrote, hHandling, hOnly,
        List.map_nil]
  | echo =>
      simp only [hHandling] at hOnly
  | sendResults =>
      simp only [hHandling] at hOnly
      right
      apply Option.bind_eq_some_iff.mpr
      refine ⟨⟨Fin.ofNat 256 (r.val / 16777216),
        .result c.replies.length 0⟩, ?_, ?_⟩
      · simp only [Link.remoteWrote, hHandling]
        rfl
      · apply Link.replySession_eq_some_iff.mpr
        refine ⟨c.replies.length,
          ⟨c.startedSession, r, u⟩, rfl, ?_, ?_⟩
        · rw [Link.remoteRead_replies]
          simp [Link.remoteReplied, hHandling]
        · rw [Link.remoteRead_masterSessions]
          exact hOnly
  | ignore =>
      left
      simp only [Link.remoteWrote, hHandling]

/- The condition keeps every read aligned. -/
theorem aligned_step
    (order : ByteOrder)
    (s : Exchange)
    (label : ExchangeLabel)
    (s' : Exchange)
    (hAligned : Aligned s)
    (hOpens : s.OpensAligned label)
    (hStep : step order s label = some s') :
    Aligned s' := by
  cases advances_of_step hStep with
  | command hState hCommand hFree =>
      exact aligned_dispatch _ _ hAligned
  | masterTimeout hState hKind =>
      exact aligned_dispatch _ _ hAligned
  | @remoteTimeout state hState hKind =>
      apply aligned_of_written
        (s.link.remoteDispatch state .timeout 0) rfl
        (List.append_nil _).symm rfl _ hAligned
      intro hAwaits
      exact absurd hAwaits hOpens
  | payload hState hKind hStandard => exact hAligned
  | @toRemote state sent rest r u hState hHead =>
      apply aligned_of_written
        (Link.remoteRead { s.link with toRemote := rest } state
          sent r u)
        (Link.remoteRead_toMaster _ _ _ _ _)
        (Link.remoteRead_replies _ _ _ _ _)
        (Link.remoteRead_masterSessions _ _ _ _ _) _ hAligned
      intro hAwaits
      exact beginsReply_of_onlyReplies (c := s.link) r u hState
        hHead (hOpens hAwaits)
  | toMaster hState hHead hReads =>
      apply aligned_masterRead
      apply aligned_of_received
      intro recvBuf hWaiting
      change _ = _ at hWaiting
      simp only [takeHead] at hWaiting
      rw [hWaiting] at hReads
      exact absurd hReads (by simp [Worker.ReadsByte])
  | getResults hMode hSending =>
      intro recvBuf hWaiting
      exact hOpens
  | resend hWaiting => exact hAligned
  | @receive recvBuf sent rest hWaiting hHead =>
      unfold receive
      split
      · apply aligned_of_received
        intro recvBuf hWaiting
        cases hWaiting
      · intro recvBuf' hWaiting'
        have hStream := hAligned recvBuf hWaiting
        simp only [stream, hWaiting, hHead, Worker.received]
          at hStream
        rw [List.append_cons] at hStream
        exact hStream
  | reportTimer hMode hSending =>
      apply aligned_of_received
      intro recvBuf hWaiting
      cases hWaiting
  | dropToRemote hIndex => exact hAligned

------------------------------------------------------------
-- Aligned Reads Give Authentic Reports
------------------------------------------------------------

structure Genuine (s : Exchange) : Prop where
  framed : FramedStream s
  aligned : Aligned s
  reports : ∀ report ∈ s.reports, s.link.Authentic report

theorem genuine_start : Genuine start where
  framed := Framing.framed_nil
  aligned := aligned_of_received fun _ hWaiting => by
    cases hWaiting
  reports := by simp [start]

/- A report made of an aligned read. -/
theorem authentic_makeReport
    {order : ByteOrder}
    {s : Exchange}
    {recvBuf rest : List Uplink}
    {sent : Uplink}
    (hWaiting : s.worker = .waiting recvBuf)
    (hHead : s.link.toMaster = sent :: rest)
    (hFull : (recvBuf ++ [sent]).length = recvBufSize)
    (hGenuine : Genuine s) :
    s.link.Authentic
      (s.makeReport order (recvBuf ++ [sent])) := by
  have hStream : s.stream = (recvBuf ++ [sent]) ++ rest := by
    simp only [stream, hWaiting, hHead, Worker.received]
    rw [List.append_cons]
  have hBegins : s.link.BeginsReply s.stream := by
    refine (hGenuine.aligned recvBuf hWaiting).resolve_left ?_
    rw [hStream]
    simp
  rcases Link.take_of_beginsReply hGenuine.framed hBegins with
    ⟨reply, answered, hReply, hSession, hTake⟩
  have hBytes : recvBuf ++ [sent] =
      Link.replyBytes reply answered.totalReceived
        answered.totalUsec := by
    rw [← hTake, hStream, ← hFull, List.take_left]
  -- The loops of `receiveResults` take back the two totals.
  let buffer : ResultBuf :=
    ⟨resultBytes answered.totalReceived answered.totalUsec,
      rfl⟩
  have hBuffer : buffer.bytes =
      (recvBuf ++ [sent]).map Uplink.byte := by
    rw [hBytes, Link.map_byte_replyBytes]
  have hRead := s.makeReport_eq_receiveResults order 0 buffer
    hBuffer
  rw [ResultBuf.receiveResults_of_bytes order.host 0 rfl,
    Option.some.injEq, Prod.mk.injEq] at hRead
  refine ⟨reply, ?_, ?_⟩
  · rw [← hRead.1, ← hRead.2, hReply]
    exact congrArg some (by cases answered; cases hSession; rfl)
  · rw [← hRead.1, ← hRead.2]
    exact hBytes

theorem genuine_step
    (order : ByteOrder)
    (s : Exchange)
    (label : ExchangeLabel)
    (s' : Exchange)
    (hGenuine : Genuine s)
    (hOpens : s.OpensAligned label)
    (hStep : step order s label = some s') :
    Genuine s' where
  framed := framed_step order s label s' hGenuine.framed hStep
  aligned :=
    aligned_step order s label s' hGenuine.aligned hOpens hStep
  reports := by
    rcases replies_step hStep with ⟨replies, hReplies⟩
    have hOld : ∀ report ∈ s.reports,
        s'.link.Authentic report := fun report hReport =>
      Link.authentic_append hReplies
        (hGenuine.reports report hReport)
    rcases reports_step hStep with hSame |
      ⟨recvBuf, sent, rest, hWaiting, hHead, hFull, hMore⟩
    · rw [hSame]
      exact hOld
    · rw [hMore]
      refine List.forall_mem_append.mpr ⟨hOld, ?_⟩
      intro report hReport
      rw [List.mem_singleton.mp hReport]
      exact Link.authentic_append hReplies
        (authentic_makeReport hWaiting hHead hFull hGenuine)

/-
  In a run whose steps keep the reads aligned every report
  is authentic, at any time.
-/
theorem reports_authentic
    (order : ByteOrder)
    (labels : List ExchangeLabel)
    (hAlong : StepSystem.Along (step order) OpensAligned start
      labels) :
    StepSystem.Throughout (step order)
      (fun s => ∀ report ∈ s.reports, s.link.Authentic report)
      start labels :=
  StepSystem.throughout_of_along (genuine_step order)
    (fun _ hGenuine => hGenuine.reports) genuine_start hAlong

/- A session with a request that is repeated once. -/
theorem reports_authentic_after_resend :
    StepSystem.Throughout (step .littleEndian)
      (fun s => ∀ report ∈ s.reports, s.link.Authentic report)
      start
      [.command .throughputModeCommand, .toRemote 0 0,
        .toMaster, .payload 0, .payload 1, .toRemote 0 0,
        .getResults, .resend, .toRemote 0 0, .toRemote 0 0,
        .toRemote 2 1000, .receive, .receive, .receive,
        .receive, .receive, .receive, .receive, .receive,
        .toRemote 2 4000, .toMaster] :=
  reports_authentic .littleEndian _ (by decide)

end Exchange

------------------------------------------------------------
-- Misaligned Reads Give False Reports
------------------------------------------------------------

namespace Link

/-
  The byte is not the first of a reply of the session, and
  no later reply can make it one.
-/
def Foreign
    (c : Link)
    (session : Nat)
    (up : Uplink) : Prop :=
  c.replySession up ≠ some session ∧
    ∀ reply index, up.origin = .result reply index →
      reply < c.replies.length

theorem foreign_of_framed
    {c : Link}
    {session : Nat}
    {bytes : List Uplink}
    {up : Uplink}
    (hFramed : c.framing.Framed bytes)
    (hHead : bytes.head? = some up)
    (hSession : c.replySession up ≠ some session) :
    c.Foreign session up := by
  refine ⟨hSession, ?_⟩
  intro reply index hOrigin
  cases bytes with
  | nil => cases hHead
  | cons first rest =>
      rw [List.head?_cons, Option.some.injEq] at hHead
      subst hHead
      have hTag : c.framing.tag first = some (reply, index) := by
        simp only [framing, hOrigin]
      rcases hFramed.1 reply index hTag with
        ⟨frame, hFrame, -⟩
      rcases Option.map_eq_some_iff.mp hFrame with
        ⟨sent, hSent, -⟩
      exact (List.getElem?_eq_some_iff.mp hSent).1

theorem foreign_append
    {c c' : Link}
    {session : Nat}
    {up : Uplink}
    {replies : List Reply}
    (hReplies : c'.replies = c.replies ++ replies)
    (hForeign : c.Foreign session up) :
    c'.Foreign session up := by
  refine ⟨?_, ?_⟩
  · intro hSession
    rcases replySession_eq_some_iff.mp hSession with
      ⟨reply, sent, hOrigin, hSent, hEq⟩
    apply hForeign.1
    apply replySession_eq_some_iff.mpr
    refine ⟨reply, sent, hOrigin, ?_, hEq⟩
    rw [hReplies, List.getElem?_append_left
      (hForeign.2 reply 0 hOrigin)] at hSent
    exact hSent
  · intro reply index hOrigin
    rw [hReplies, List.length_append]
    exact Nat.lt_add_right _ (hForeign.2 reply index hOrigin)

theorem not_authentic_of_foreign
    {c : Link}
    {report : Report}
    {up : Uplink}
    (hHead : report.recvBuf.head? = some up)
    (hForeign : c.Foreign report.session up) :
    ¬ c.Authentic report := by
  rintro ⟨reply, hSent, hBytes⟩
  have hFirst : (replyBytes reply report.totalReceived
      report.totalUsec)[0]? = some up := by
    rw [← hBytes, ← List.head?_eq_getElem?]
    exact hHead
  apply hForeign.1
  apply replySession_eq_some_iff.mpr
  exact ⟨reply, _, origin_of_replyBytes hFirst, hSent, rfl⟩

end Link

namespace Exchange

/- Whatever else the remote writes is no reply. -/
theorem onlyReplies_of_beginsReply
    {c : Link}
    {state : RemoteState}
    {sent : Downlink}
    {rest : List Downlink}
    {r u : Word}
    (hState : c.remote = some state)
    (hHead : c.toRemote = sent :: rest)
    (hWrote : c.remoteWrote state sent.byte r u = [] ∨
      (Link.remoteRead { c with toRemote := rest } state sent r
        u).BeginsReply
          (c.remoteWrote state sent.byte r u)) :
    c.OnlyReplies := by
  unfold Link.OnlyReplies
  rw [hState, hHead]
  unfold Link.remoteWrote at hWrote
  cases hHandling : state.handleByte sent.byte with
  | dispatch event =>
      simp only [hHandling] at hWrote ⊢
      cases hSent : (remoteFsm.dispatch state event).1 with
      | nil => rfl
      | cons byte bytes =>
          rw [hSent] at hWrote
          rcases hWrote with hEmpty | hBegins
          · cases hEmpty
          · cases hBegins
  | echo =>
      simp only [hHandling] at hWrote
      rcases hWrote with hEmpty | hBegins
      · cases hEmpty
      · cases hBegins
  | sendResults =>
      simp only [hHandling] at hWrote ⊢
      rcases hWrote with hEmpty | hBegins
      · cases hEmpty
      · rcases Option.bind_eq_some_iff.mp hBegins with
          ⟨up, hUp, hSession⟩
        rw [List.head?_eq_getElem?] at hUp
        rcases Link.replySession_eq_some_iff.mp hSession with
          ⟨reply, answered, hOrigin, hReply, hEq⟩
        rw [Link.origin_of_replyBytes hUp,
          Origin.result.injEq] at hOrigin
        rw [← hOrigin.1, Link.remoteRead_replies] at hReply
        simp only [Link.remoteReplied, hHandling,
          List.getElem?_concat_length, Option.some.injEq]
          at hReply
        rw [← hReply, Link.remoteRead_masterSessions] at hEq
        exact hEq
  | ignore => simp only [hHandling]

/- Without the condition the read is not aligned. -/
theorem opensAligned_of_aligned
    {order : ByteOrder}
    {s s' : Exchange}
    {label : ExchangeLabel}
    (hStep : step order s label = some s')
    (hAligned : Aligned s') :
    s.OpensAligned label := by
  cases advances_of_step hStep with
  | command hState hCommand hFree => trivial
  | masterTimeout hState hKind => trivial
  | @remoteTimeout state hState hKind =>
      rintro ⟨hWaiting, hNone⟩
      have hSent : (remoteFsm.dispatch state .timeout).1 =
          [remoteAckId] := by
        cases state <;> first | rfl | cases hKind
      have hOpen := hAligned [] hWaiting
      simp only [stream, hWaiting, Worker.received,
        Link.remoteDispatch, hNone, hSent] at hOpen
      rcases hOpen with hEmpty | hBegins
      · cases hEmpty
      · cases hBegins
  | payload hState hKind hStandard => trivial
  | @toRemote state sent rest r u hState hHead =>
      rintro ⟨hWaiting, hNone⟩
      have hOpen := hAligned [] hWaiting
      have hWrote : s.worker.received ++
          (s.link.toMaster ++
            s.link.remoteWrote state sent.byte r u) =
          s.link.remoteWrote state sent.byte r u := by
        rw [hWaiting, hNone]
        rfl
      simp only [stream, Link.remoteRead_toMaster] at hOpen
      apply onlyReplies_of_beginsReply (r := r) (u := u)
        hState hHead
      rw [← hWrote]
      exact hOpen
  | toMaster hState hHead hReads => trivial
  | getResults hMode hSending => exact hAligned [] rfl
  | resend hWaiting => trivial
  | receive hWaiting hHead => trivial
  | reportTimer hMode hSending => trivial
  | dropToRemote hIndex => trivial

/-
  While a read is open nothing but its bytes gets it any
  further.
-/
theorem waiting_step
    {order : ByteOrder}
    {s s' : Exchange}
    {label : ExchangeLabel}
    {recvBuf : List Uplink}
    (hInMode : InMode s)
    (hWaiting : s.worker = .waiting recvBuf)
    (hStep : step order s label = some s') :
    (∃ recvBuf' wrote, s'.worker = .waiting recvBuf' ∧
        s'.stream = s.stream ++ wrote ∧
          s'.link.masterSessions = s.link.masterSessions ∧
            s'.reports = s.reports) ∨
      ∃ sent rest, s.link.toMaster = sent :: rest ∧
        s'.reports = s.reports ++
          [s.makeReport order (recvBuf ++ [sent])] := by
  have hBusy : s.worker ≠ .absent ∧ s.worker ≠ .reported := by
    rw [hWaiting]
    simp
  cases advances_of_step hStep with
  | @command state event hState hCommand hFree =>
      left
      have hStays :=
        dispatch_of_busy hInMode hBusy hState hCommand hFree
      refine ⟨recvBuf, [], ?_, ?_, ?_, rfl⟩
      · simp only [dispatch, hStays, hWaiting]
        rfl
      · simp only [stream, dispatch, hStays, List.append_nil]
        rfl
      · simp only [dispatch, Link.masterDispatch, hStays]
        cases state <;> exact List.append_nil _
  | masterTimeout hState hKind =>
      exact absurd hKind
        (no_masterTimeout hInMode hBusy.1 hState)
  | @remoteTimeout state hState hKind =>
      left
      refine ⟨recvBuf,
        (remoteFsm.dispatch state .timeout).1.map
          fun byte => ⟨byte, .fsm⟩, hWaiting, ?_, rfl, rfl⟩
      exact (List.append_assoc _ _ _).symm
  | payload hState hKind hStandard =>
      left
      exact ⟨recvBuf, [], hWaiting, (List.append_nil _).symm,
        rfl, rfl⟩
  | @toRemote state sent rest r u hState hHead =>
      left
      refine ⟨recvBuf, s.link.remoteWrote state sent.byte r u,
        hWaiting, ?_,
        Link.remoteRead_masterSessions _ _ _ _ _, rfl⟩
      simp only [stream, Link.remoteRead_toMaster]
      exact (List.append_assoc _ _ _).symm
  | toMaster hState hHead hReads =>
      rw [hWaiting] at hReads
      exact absurd hReads (by simp [Worker.ReadsByte])
  | getResults hMode hSending =>
      rw [hWaiting] at hSending
      cases hSending
  | resend hWaiting' =>
      left
      exact ⟨recvBuf, [], hWaiting, (List.append_nil _).symm,
        rfl, rfl⟩
  | @receive recvBuf' sent rest hWaiting' hHead =>
      rw [hWaiting, Worker.waiting.injEq] at hWaiting'
      subst hWaiting'
      unfold receive
      split
      · right
        exact ⟨sent, rest, hHead, rfl⟩
      · left
        refine ⟨recvBuf ++ [sent], [], rfl, ?_, rfl, rfl⟩
        simp only [stream, hWaiting, hHead, takeHead,
          Worker.received, List.append_assoc,
          List.append_nil, List.singleton_append]
  | reportTimer hMode hSending =>
      rw [hWaiting] at hSending
      cases hSending
  | dropToRemote hIndex =>
      left
      exact ⟨recvBuf, [], hWaiting, (List.append_nil _).symm,
        rfl, rfl⟩

/-
  A read that began with a foreign byte is open, before the
  report number `n`, or has been reported.
-/
def Misread (n : Nat) (s : Exchange) : Prop :=
  (s.reports.length ≤ n ∧
    ∃ recvBuf up, s.worker = .waiting recvBuf ∧
      s.stream.head? = some up ∧
        s.link.Foreign s.link.masterSessions.length up) ∨
    ∃ report ∈ s.reports, ∃ up,
      report.recvBuf.head? = some up ∧
        s.link.Foreign report.session up

theorem misread_of_not_aligned
    {s : Exchange}
    (hFramed : FramedStream s)
    (hNot : ¬ Aligned s) :
    Misread s.reports.length s := by
  left
  refine ⟨Nat.le_refl _, ?_⟩
  simp only [Aligned] at hNot
  push Not at hNot
  rcases hNot with ⟨recvBuf, hWaiting, hOpen, hNotBegins⟩
  rcases List.exists_cons_of_ne_nil hOpen with
    ⟨up, rest, hStream⟩
  have hHead : s.stream.head? = some up := by
    rw [hStream]
    rfl
  refine ⟨recvBuf, up, hWaiting, hHead, ?_⟩
  apply Link.foreign_of_framed hFramed hHead
  intro hSession
  apply hNotBegins
  exact Option.bind_eq_some_iff.mpr ⟨up, hHead, hSession⟩

theorem misread_step
    {n : Nat}
    (order : ByteOrder)
    (s : Exchange)
    (label : ExchangeLabel)
    (s' : Exchange)
    (hMisread : InMode s ∧ Misread n s)
    (hStep : step order s label = some s') :
    InMode s' ∧ Misread n s' := by
  rcases hMisread with ⟨hInMode, hMisread⟩
  refine ⟨inMode_step order s label s' hInMode hStep, ?_⟩
  rcases replies_step hStep with ⟨replies, hReplies⟩
  rcases hMisread with
    ⟨hCount, recvBuf, up, hWaiting, hHead, hForeign⟩ |
      ⟨report, hReport, up, hHead, hForeign⟩
  · rcases waiting_step hInMode hWaiting hStep with
      ⟨recvBuf', wrote, hWaiting', hStream, hSessions,
        hReports⟩ | ⟨sent, rest, hQueue, hReports⟩
    · left
      refine ⟨hReports ▸ hCount, recvBuf', up, hWaiting', ?_,
        ?_⟩
      · rw [hStream, List.head?_append, hHead]
        rfl
      · rw [hSessions]
        exact Link.foreign_append hReplies hForeign
    · right
      refine ⟨s.makeReport order (recvBuf ++ [sent]), ?_, up,
        ?_, Link.foreign_append hReplies hForeign⟩
      · rw [hReports]
        exact List.mem_append_right _
          (List.mem_singleton_self _)
      · simp only [stream, hWaiting, hQueue, Worker.received]
          at hHead
        rw [List.append_cons, List.head?_append] at hHead
        simpa [makeReport] using hHead
  · right
    refine ⟨report, ?_, up, hHead,
      Link.foreign_append hReplies hForeign⟩
    rcases reports_step hStep with hSame |
      ⟨recvBuf, sent, rest, -, -, -, hMore⟩
    · rw [hSame]
      exact hReport
    · rw [hMore]
      exact List.mem_append_left _ hReport

/-
  The condition is exact: after a step that breaks it, the
  next report is false.
-/
theorem exists_not_authentic
    {order : ByteOrder}
    {labels labels' : List ExchangeLabel}
    {label : ExchangeLabel}
    {s s' s'' : Exchange}
    (hRun : StepSystem.run (step order) start labels = some s)
    (hStep : step order s label = some s')
    (hNot : ¬ s.OpensAligned label)
    (hRun' : StepSystem.run (step order) s' labels' =
      some s'')
    (hMore : s'.reports.length < s''.reports.length) :
    ∃ report ∈ s''.reports, ¬ s''.link.Authentic report := by
  have hInMode : InMode s :=
    StepSystem.run_invariant (inMode_step order)
      inMode_start hRun
  have hFramed : FramedStream s' :=
    framed_step order s label s' (framed_of_run hRun) hStep
  have hMisread : Misread s'.reports.length s' :=
    misread_of_not_aligned hFramed fun hAligned =>
      hNot (opensAligned_of_aligned hStep hAligned)
  have hInMode' := inMode_step order s label s' hInMode hStep
  rcases (StepSystem.run_invariant (misread_step order)
      ⟨hInMode', hMisread⟩ hRun').2 with
    ⟨hCount, -⟩ | ⟨report, hReport, up, hHead, hForeign⟩
  · exact absurd hMore (Nat.not_lt.mpr hCount)
  · exact ⟨report, hReport,
      Link.not_authentic_of_foreign hHead hForeign⟩

/-
  A repeated `RemoteAck` that is still in flight when the
  read opens becomes the first byte of the report.
-/
theorem late_ack_in_report :
    ∃ s,
      StepSystem.run (step .littleEndian) start
          [.command .throughputModeCommand, .toRemote 0 0,
            .remoteTimeout, .toMaster, .getResults,
            .toRemote 0 0, .toRemote 1 0, .receive, .receive,
            .receive, .receive, .receive, .receive, .receive,
            .receive] =
        some s ∧
      s.link.replies = [⟨1, 1, 0⟩] ∧
      s.reports.map (fun report =>
        (report.totalReceived, report.totalUsec)) =
          [(4093640704, 16777216)] ∧
      ¬ ∀ report ∈ s.reports, s.link.Authentic report := by
  refine ⟨_, rfl, by decide, by decide, ?_⟩
  intro hAll
  rcases hAll _ List.mem_cons_self with ⟨reply, hReply, -⟩
  exact absurd (List.mem_of_getElem? hReply) (by decide)

end Exchange

end ModemTester
