import ModemTester.Link.ResultGuard
import ModemTester.Link.SessionOrder
import ModemTester.Script.ScriptLaw

/-
  The sessions that a script asks for.

  The handlers of a script hand its events to the pool, whose
  threads dispatch them to the master, while the two machines
  run on their link. If the script is left alone, the threads
  dispatch in the order in which they were started, a command
  for a mode finds the master idle, nothing is lost on the
  way to the remote and no byte of a result asks for a mode,
  then the sessions of both machines are those the script
  asks for, in its order and through all of its cycles.
  Timers, repeated commands and bytes lost on the way to the
  master change nothing about it.

  Events of a script that are no mode commands are left out:
  their threads never dispatch.

  Key definitions include:
    * `sessionsOf`
    * `ScriptedLink`
    * `ScriptedLink.step`
    * `ScriptedLink.InTime`

  Main declarations:
    * `ScriptedLink.runs_script`
-/

------------------------------------------------------------
-- What Is Asked For
------------------------------------------------------------

namespace ModemTester

/- The mode that a command asks for. -/
def Event.mode? : Event → Option Mode
  | .availabilityModeCommand => some .availability
  | .throughputModeCommand => some .throughput
  | _ => none

/- The sessions that events ask for. -/
def sessionsOf (events : List Event) : List Mode :=
  events.filterMap Event.mode?

theorem sessionsOf_append (events events' : List Event) :
    sessionsOf (events ++ events') =
      sessionsOf events ++ sessionsOf events' :=
  List.filterMap_append ..

theorem sessionsOf_singleton (event : Event) :
    sessionsOf [event] = event.mode?.toList := by
  cases event <;> rfl

/- A prefix of the events asks for a prefix of the sessions. -/
theorem sessionsOf_mono
    {events events' : List Event}
    (hPrefix : events <+: events') :
    sessionsOf events <+: sessionsOf events' :=
  hPrefix.filterMap Event.mode?

/- The identifier of a command for a mode. -/
def AsksForMode (byte : Byte) : Prop :=
  byte = availabilityModeCommandId ∨
    byte = throughputModeCommandId

instance (byte : Byte) : Decidable (AsksForMode byte) :=
  inferInstanceAs (Decidable (_ ∨ _))

/- A byte that asks for nothing dispatches no such command. -/
theorem mode?_of_not_asksForMode
    {state : MasterState}
    {byte : Byte}
    {event : Event}
    (hNot : ¬ AsksForMode byte)
    (hRead : state.readByte byte = some event) :
    event.mode? = none := by
  have hVal := MasterState.val_of_readByte hRead
  cases event with
  | availabilityModeCommand =>
      exact absurd (.inl (Fin.ext (Int.ofNat.inj hVal))) hNot
  | throughputModeCommand =>
      exact absurd (.inr (Fin.ext (Int.ofNat.inj hVal))) hNot
  | endModeCommand | remoteAck | masterAck | timeout
  | endTest => rfl

/- The session asked for that the master has not started. -/
def MasterState.asked : MasterState → List Mode
  | .sentAvailableModeCommand => [.availability]
  | .sentThroughputModeCommand => [.throughput]
  | _ => []

/- Only an idle master takes a command for a mode. -/
theorem MasterState.started_append_asked
    {state next : MasterState}
    {event : Event}
    (hNext : (masterFsm.dispatch state event).2.after state =
      some next) :
    state.started (masterFsm.dispatch state event).2 ++
        next.asked =
      state.asked ++
        if state = .idle then sessionsOf [event] else [] := by
  cases state <;> cases event <;> cases hNext <;> rfl

------------------------------------------------------------
-- The Master Does What It Is Asked
------------------------------------------------------------

namespace Link

variable {c c' : Link}
variable {modes : List Mode}

/- The sessions started, and the one that is being set up. -/
structure Asked (c : Link) (modes : List Mode) : Prop where
  sessions : c.masterSessions <+: modes
  setUp : ∀ state, c.master = some state →
    c.masterSessions ++ state.asked = modes

/- No byte on its way to the master asks for a mode. -/
def BringsNoMode (c : Link) : Prop :=
  ∀ up ∈ c.toMaster, ¬ AsksForMode up.byte

/- No byte of a result asks for one. -/
def AnswersNoMode (c : Link) : LinkLabel → Prop
  | .toRemote totalReceived totalUsec =>
      Replies c →
        ∀ byte ∈ resultBytes totalReceived totalUsec,
          ¬ AsksForMode byte
  | _ => True

theorem Asked.masterDispatch
    {state : MasterState}
    {event : Event}
    (hAsked : Asked c modes)
    (hState : c.master = some state) :
    Asked (c.masterDispatch state event)
      (modes ++
        if state = .idle then sessionsOf [event] else []) := by
  have hSetUp := hAsked.setUp state hState
  constructor
  · cases hNext :
        (masterFsm.dispatch state event).2.after state with
    | none =>
        have hStarted :
            state.started (masterFsm.dispatch state event).2 =
              [] := by
          cases state <;> cases event <;> first
            | rfl
            | cases hNext
        rw [Link.masterDispatch, hStarted, List.append_nil]
        exact hAsked.sessions.trans (List.prefix_append _ _)
    | some next =>
        rw [← hSetUp, List.append_assoc,
          ← MasterState.started_append_asked hNext,
          ← List.append_assoc]
        exact List.prefix_append _ _
  · intro next hNext
    rw [← hSetUp, List.append_assoc,
      ← MasterState.started_append_asked hNext,
      ← List.append_assoc]
    rfl

/- Another event than a command asks for nothing. -/
theorem Asked.masterDispatch_of_none
    {state : MasterState}
    {event : Event}
    (hAsked : Asked c modes)
    (hState : c.master = some state)
    (hNone : event.mode? = none) :
    Asked (c.masterDispatch state event) modes := by
  have hNext := @Asked.masterDispatch c modes state event
    hAsked hState
  rw [sessionsOf_singleton, hNone, Option.toList_none,
    ite_self, List.append_nil] at hNext
  exact hNext

/- A step that is no local command for a mode. -/
theorem Asked.step
    {label : LinkLabel}
    (hAsked : Asked c modes)
    (hQuiet : c.BringsNoMode)
    (hNone : ∀ event, label = .command event →
      event.mode? = none)
    (hStep : Link.step c label = some c') :
    Asked c' modes := by
  cases moves_of_step hStep with
  | command hState hCommand =>
      exact hAsked.masterDispatch_of_none hState
        (hNone _ rfl)
  | masterTimeout hState hKind =>
      exact hAsked.masterDispatch_of_none hState rfl
  | remoteTimeout hState hKind =>
      exact ⟨hAsked.sessions, hAsked.setUp⟩
  | payload hState hKind hStandard =>
      exact ⟨hAsked.sessions, hAsked.setUp⟩
  | toRemote hState hHead =>
      refine ⟨?_, ?_⟩
      · rw [remoteRead_masterSessions]
        exact hAsked.sessions
      · rw [remoteRead_master, remoteRead_masterSessions]
        exact hAsked.setUp
  | @toMaster state sent rest hState hHead =>
      have hRest : Asked { c with toMaster := rest } modes :=
        ⟨hAsked.sessions, hAsked.setUp⟩
      unfold masterRead
      split
      · rename_i event hRead
        apply hRest.masterDispatch_of_none hState
        apply mode?_of_not_asksForMode _ hRead
        exact hQuiet sent (by
          rw [hHead]
          exact List.mem_cons_self)
      · exact hRest
  | loseToRemote hIndex =>
      exact ⟨hAsked.sessions, hAsked.setUp⟩
  | loseToMaster hIndex =>
      exact ⟨hAsked.sessions, hAsked.setUp⟩

/- The remote writes acknowledgements and `EndTest`. -/
theorem not_asksForMode_of_remoteSent
    (state : RemoteState)
    (event : Event) :
    ∀ byte ∈ (remoteFsm.dispatch state event).1,
      ¬ AsksForMode byte := by
  have hSent : ∀ byte ∈ (remoteFsm.dispatch state event).1,
      byte = remoteAckId ∨ byte = endTestId := by
    cases state <;> cases event <;>
      simp [remoteFsm, Fsm.dispatch, RemoteState.react,
        RemoteState.entrySends, Reaction.transitTo,
        Reaction.ignore, Reaction.wrongEvent]
  intro byte hByte
  rcases hSent byte hByte with rfl | rfl <;> decide

theorem BringsNoMode.remoteDispatch
    {state : RemoteState}
    {event : Event}
    {session : Nat}
    (hQuiet : c.BringsNoMode) :
    (c.remoteDispatch state event session).BringsNoMode := by
  intro up hUp
  rcases List.mem_append.mp hUp with hOld | hNew
  · exact hQuiet up hOld
  · rcases List.mem_map.mp hNew with ⟨byte, hByte, rfl⟩
    exact not_asksForMode_of_remoteSent state event byte hByte

theorem not_asksForMode_of_isStandardCode
    {byte : Byte}
    (hStandard : IsStandardCode byte) :
    ¬ AsksForMode byte := by
  rintro (rfl | rfl) <;> exact absurd hStandard (by decide)

theorem BringsNoMode.remoteRead
    {state : RemoteState}
    {sent : Downlink}
    {rest : List Downlink}
    {totalReceived totalUsec : Word}
    (hQuiet : c.BringsNoMode)
    (hAnswers :
      c.AnswersNoMode (.toRemote totalReceived totalUsec))
    (hState : c.remote = some state)
    (hHead : c.toRemote = sent :: rest) :
    (({ c with toRemote := rest } : Link).remoteRead state sent
      totalReceived totalUsec).BringsNoMode := by
  have hRest :
      ({ c with toRemote := rest } : Link).BringsNoMode :=
    hQuiet
  unfold Link.remoteRead
  cases hHandling : state.handleByte sent.byte with
  | dispatch event => exact hRest.remoteDispatch
  | ignore => exact hRest
  | echo =>
      intro up hUp
      rcases List.mem_append.mp hUp with hOld | hNew
      · exact hQuiet up hOld
      · rw [List.mem_singleton.mp hNew]
        exact not_asksForMode_of_isStandardCode
          (handleByte_eq_echo hHandling)
  | sendResults =>
      rcases handleByte_eq_sendResults hHandling with
        ⟨rfl, hByte⟩
      have hReplies : Replies c := by
        refine ⟨hState, ?_⟩
        rw [remoteHead, hHead]
        exact congrArg some hByte
      intro up hUp
      rcases List.mem_append.mp hUp with hOld | hNew
      · exact hQuiet up hOld
      · apply hAnswers hReplies
        rw [← map_byte_replyBytes c.replies.length]
        exact List.mem_map_of_mem hNew

theorem BringsNoMode.step
    {label : LinkLabel}
    (hQuiet : c.BringsNoMode)
    (hAnswers : c.AnswersNoMode label)
    (hStep : Link.step c label = some c') :
    c'.BringsNoMode := by
  cases moves_of_step hStep with
  | command | masterTimeout | payload | loseToRemote =>
      exact hQuiet
  | remoteTimeout hState hKind => exact hQuiet.remoteDispatch
  | toRemote hState hHead =>
      exact hQuiet.remoteRead hAnswers hState hHead
  | @toMaster state sent rest hState hHead =>
      have hRest : ∀ up ∈ rest, ¬ AsksForMode up.byte := by
        intro up hUp
        apply hQuiet
        rw [hHead]
        exact List.mem_cons_of_mem _ hUp
      unfold masterRead
      split
      · exact hRest
      · exact hRest
  | loseToMaster hIndex =>
      intro up hUp
      exact hQuiet up (List.mem_of_mem_eraseIdx hUp)

end Link

end ModemTester

------------------------------------------------------------
-- A Script On A Link
------------------------------------------------------------

namespace ModemTester

namespace ScriptRun

theorem dispatched_startScript
    (script : Script)
    (begin : Int)
    (s : ScriptRun) :
    (s.startScript script begin).dispatched =
      s.dispatched := by
  rw [startScript, foldl_createTimer]
  rfl

/- The handlers of a script only add to its events. -/
theorem dispatched_prefix_of_step
    {script : Script}
    {s s' : ScriptRun}
    {label : ScriptLabel}
    (hStep : step script s label = some s') :
    s.dispatched <+: s'.dispatched := by
  cases label with
  | startScript now =>
      simp only [step, Option.some.injEq] at hStep
      rw [← hStep, dispatched_startScript]
  | stopScript =>
      simp only [step, Option.some.injEq] at hStep
      rw [← hStep, stopScript]
  | expire =>
      simp only [step] at hStep
      split at hStep
      · cases hStep
        exact List.prefix_refl _
      · cases hStep
  | handle now =>
      simp only [step] at hStep
      split at hStep
      · cases hStep
        unfold runHandler
        split
        · split
          · exact List.prefix_append _ _
          · rw [dispatched_startScript]
        · exact List.prefix_refl _
      · cases hStep

end ScriptRun

/-
  `started` are the events whose threads the pool has started
  and which have not dispatched; `executed` are those that
  have, in their order.
-/
structure ScriptedLink where
  script : ScriptRun
  started : List Event
  executed : List Event
  link : Link

inductive ScriptedLabel where
  | script (label : ScriptLabel)
  /- A thread of the pool dispatches its event. -/
  | dispatch (index : Nat)
  | link (label : LinkLabel)
  deriving DecidableEq, Repr

namespace ScriptedLink

/- Both machines have started, and then the script. -/
def start (script : Script) (begin : Int) : ScriptedLink where
  script := ScriptRun.startScript script begin ScriptRun.initial
  started := []
  executed := []
  link := Link.start

/-
  Besides the script only the thread of a throughput test
  dispatches a command, the one that ends its mode.
-/
def step
    (script : Script)
    (s : ScriptedLink) : ScriptedLabel → Option ScriptedLink
  | .script label =>
      (ScriptRun.step script s.script label).map fun run =>
        { s with
          script := run
          started := s.started ++
            run.dispatched.drop s.script.dispatched.length }
  | .dispatch index =>
      match s.started[index]? with
      | none => none
      | some event =>
          (s.link.step (.command event)).map fun link =>
            { s with
              started := s.started.eraseIdx index
              executed := s.executed ++ [event]
              link := link }
  | .link (.command event) =>
      if event = .endModeCommand then
        (s.link.step (.command event)).map fun link =>
          { s with link := link }
      else
        none
  | .link label =>
      (s.link.step label).map fun link =>
        { s with link := link }

/-
  The script is left alone; the thread that was started first
  dispatches first; a command for a mode finds the master
  idle; nothing is lost on the way to the remote, and no byte
  of a result asks for a mode.
-/
def InTime (s : ScriptedLink) : ScriptedLabel → Prop
  | .script label => label.IsIo
  | .dispatch index =>
      index = 0 ∧
        (sessionsOf s.started.head?.toList ≠ [] →
          s.link.master = some .idle)
  | .link label =>
      ¬ Link.LosesToRemote label ∧ s.link.AnswersNoMode label

instance : (label : LinkLabel) →
    Decidable (Link.LosesToRemote label)
  | .loseToRemote _ => .isTrue trivial
  | .command _ => .isFalse id
  | .masterTimeout => .isFalse id
  | .remoteTimeout => .isFalse id
  | .payload _ => .isFalse id
  | .toRemote _ _ => .isFalse id
  | .toMaster => .isFalse id
  | .loseToMaster _ => .isFalse id

instance (c : Link) : (label : LinkLabel) →
    Decidable (c.AnswersNoMode label)
  | .toRemote totalReceived totalUsec =>
      inferInstanceAs (Decidable (Link.Replies c →
        ∀ byte ∈ resultBytes totalReceived totalUsec,
          ¬ AsksForMode byte))
  | .command _ => .isTrue trivial
  | .masterTimeout => .isTrue trivial
  | .remoteTimeout => .isTrue trivial
  | .payload _ => .isTrue trivial
  | .toMaster => .isTrue trivial
  | .loseToRemote _ => .isTrue trivial
  | .loseToMaster _ => .isTrue trivial

instance (s : ScriptedLink) : (label : ScriptedLabel) →
    Decidable (s.InTime label)
  | .script label =>
      inferInstanceAs (Decidable label.IsIo)
  | .dispatch _ => inferInstanceAs (Decidable (_ ∧ (_ → _)))
  | .link _ => inferInstanceAs (Decidable (¬ _ ∧ _))

/- All that was asked for is under way on both sides. -/
structure Settled (s : ScriptedLink) : Prop where
  started : s.started = []
  toRemote : s.link.toRemote = []
  setUp : ∃ state, s.link.master = some state ∧
    state.asked = []

------------------------------------------------------------
-- The Invariant
------------------------------------------------------------

variable {script : Script}
variable {begin : Int}
variable {s s' : ScriptedLink}

/-
  The script plays; its events are dispatched in its order;
  the master does what they ask for, and the remote follows.
-/
structure Ordered
    (script : Script)
    (begin : Int)
    (s : ScriptedLink) : Prop where
  plays : ∃ labels, (∀ label ∈ labels, label.IsIo) ∧
    StepSystem.run (ScriptRun.step script)
      (ScriptRun.startScript script begin ScriptRun.initial)
      labels = some s.script
  executed : s.executed ++ s.started = s.script.dispatched
  asked : s.link.Asked (sessionsOf s.executed)
  quiet : s.link.BringsNoMode
  inStep : s.link.InStep

theorem ordered_start (script : Script) (begin : Int) :
    Ordered script begin (start script begin) where
  plays := ⟨[], by simp, rfl⟩
  executed := by
    rw [start, ScriptRun.dispatched_startScript]
    rfl
  asked := ⟨List.prefix_refl _, by
    rintro state hState
    cases hState
    rfl⟩
  quiet := by simp [Link.BringsNoMode, start, Link.start]
  inStep := Link.inStep_start

theorem Ordered.of_script
    {label : ScriptLabel}
    (hOrdered : Ordered script begin s)
    (hIo : label.IsIo)
    (hStep : step script s (.script label) = some s') :
    Ordered script begin s' := by
  rcases Option.map_eq_some_iff.mp hStep with
    ⟨run, hTaken, rfl⟩
  rcases hOrdered.plays with ⟨labels, hAllIo, hRun⟩
  refine ⟨⟨labels ++ [label], ?_, ?_⟩, ?_, hOrdered.asked,
    hOrdered.quiet, hOrdered.inStep⟩
  · intro other hOther
    rcases List.mem_append.mp hOther with hOld | hNew
    · exact hAllIo other hOld
    · rw [List.mem_singleton.mp hNew]
      exact hIo
  · exact (StepSystem.run_append hRun).trans
      (StepSystem.run_of_step hTaken)
  · rcases ScriptRun.dispatched_prefix_of_step hTaken with
      ⟨more, hMore⟩
    rw [← List.append_assoc, hOrdered.executed, ← hMore,
      List.drop_left]

/- The first thread dispatches what the script asks next. -/
theorem Ordered.of_dispatch
    {index : Nat}
    (hOrdered : Ordered script begin s)
    (hInTime : s.InTime (.dispatch index))
    (hStep : step script s (.dispatch index) = some s') :
    Ordered script begin s' := by
  rcases hInTime with ⟨rfl, hIdle⟩
  have hExecuted := hOrdered.executed
  cases hStarted : s.started with
  | nil =>
      simp [step, hStarted] at hStep
  | cons event rest =>
      rw [hStarted] at hExecuted
      simp only [step, hStarted, List.getElem?_cons_zero,
        Option.map_eq_some_iff] at hStep
      rcases hStep with ⟨link, hTaken, rfl⟩
      have hKeeps :
          ¬ Link.LosesToRemote (.command event) := id
      have hAnswers :
          s.link.AnswersNoMode (.command event) := trivial
      refine ⟨hOrdered.plays, ?_, ?_,
        hOrdered.quiet.step hAnswers hTaken,
        Link.inStep_step _ _ _ hOrdered.inStep hKeeps hTaken⟩
      · simp only [List.eraseIdx_zero, List.tail_cons,
          List.append_assoc, List.singleton_append]
        exact hExecuted
      · cases Link.moves_of_step hTaken with
        | @command state _ hState hCommand =>
            have hNext := @Link.Asked.masterDispatch _ _ _
              event hOrdered.asked hState
            have hSame : (if state = .idle then
                sessionsOf [event] else []) =
                  sessionsOf [event] := by
              split
              · rfl
              · rename_i hBusy
                by_contra hAsks
                rw [hStarted] at hIdle
                have hMaster := hIdle (Ne.symm hAsks)
                rw [hState, Option.some.injEq] at hMaster
                exact hBusy hMaster
            rw [hSame, ← sessionsOf_append] at hNext
            exact hNext

theorem Ordered.of_link
    {label : LinkLabel}
    (hOrdered : Ordered script begin s)
    (hInTime : s.InTime (.link label))
    (hStep : step script s (.link label) = some s') :
    Ordered script begin s' := by
  obtain ⟨link, hTaken, hNone, rfl⟩ : ∃ link,
      s.link.step label = some link ∧
      (∀ event, label = .command event →
        event.mode? = none) ∧
      s' = { s with link := link } := by
    cases label with
    | command event =>
        simp only [step] at hStep
        split at hStep
        · rename_i hEnd
          rcases Option.map_eq_some_iff.mp hStep with
            ⟨link, hTaken, hSame⟩
          refine ⟨link, hTaken, ?_, hSame.symm⟩
          intro other hCommand
          cases hCommand
          rw [hEnd]
          rfl
        · cases hStep
    | masterTimeout | remoteTimeout | payload | toRemote
    | toMaster | loseToRemote | loseToMaster =>
        rcases Option.map_eq_some_iff.mp hStep with
          ⟨link, hTaken, hSame⟩
        refine ⟨link, hTaken, ?_, hSame.symm⟩
        intro event hCommand
        cases hCommand
  exact ⟨hOrdered.plays, hOrdered.executed,
    hOrdered.asked.step hOrdered.quiet hNone hTaken,
    hOrdered.quiet.step hInTime.2 hTaken,
    Link.inStep_step _ _ _ hOrdered.inStep hInTime.1 hTaken⟩

theorem ordered_of_run
    {labels : List ScriptedLabel}
    (hInTime : StepSystem.Along (step script) InTime
      (start script begin) labels)
    (hRun : StepSystem.run (step script)
      (start script begin) labels = some s) :
    Ordered script begin s := by
  refine StepSystem.run_invariant_along
    (I := Ordered script begin) ?_
    (ordered_start script begin) hInTime hRun
  intro s label s' hOrdered hOk hStep
  cases label with
  | script label => exact hOrdered.of_script hOk hStep
  | dispatch index => exact hOrdered.of_dispatch hOk hStep
  | link label => exact hOrdered.of_link hOk hStep

/-
  The remote has started the first of the master's sessions,
  and the master the first of those that the cycles of the
  script ask for; once nothing of them is outstanding both
  have started all.
-/
theorem runs_script
    {labels : List ScriptedLabel}
    (hInTime : StepSystem.Along (step script) InTime
      (start script begin) labels)
    (hRun : StepSystem.run (step script)
      (start script begin) labels = some s) :
    ∃ part, part <+: script.cycleEvents ∧
      s.link.remoteSessions <+: s.link.masterSessions ∧
      s.link.masterSessions <+: sessionsOf
        ((List.replicate s.script.restarts
          script.cycleEvents).flatten ++ part) ∧
      (s.Settled →
        s.link.masterSessions = s.link.remoteSessions ∧
          s.link.remoteSessions = sessionsOf
            ((List.replicate s.script.restarts
              script.cycleEvents).flatten ++ part)) := by
  have hOrdered := ordered_of_run hInTime hRun
  rcases hOrdered.plays with ⟨played, hIo, hPlayed⟩
  rcases ScriptRun.playing_and_booked_of_run hIo hPlayed with
    ⟨⟨begin', done, hPlaying⟩, -⟩
  have hExecuted := hOrdered.executed
  have hInStep := hOrdered.inStep
  rw [Link.InStep, Link.caughtUp] at hInStep
  refine ⟨_, hPlaying.prefix_cycleEvents, ?_, ?_, ?_⟩
  · have hBehind := Link.prefix_foldl_remoteNext
      (s.link.remote, s.link.remoteSessions) s.link.toRemote
    rw [hInStep] at hBehind
    exact hBehind
  · rw [← hPlaying.dispatched, ← hExecuted]
    exact hOrdered.asked.sessions.trans
      (sessionsOf_mono (List.prefix_append _ _))
  · intro hSettled
    rw [hSettled.toRemote] at hInStep
    have hSame : s.link.remoteSessions =
        s.link.masterSessions := (Prod.mk.inj hInStep).2
    rcases hSettled.setUp with ⟨state, hState, hAsked⟩
    have hAll := hOrdered.asked.setUp state hState
    rw [hAsked, List.append_nil] at hAll
    rw [hSettled.started, List.append_nil] at hExecuted
    rw [← hPlaying.dispatched, ← hExecuted]
    exact ⟨hSame.symm, hSame.trans hAll⟩

/-
  The first three events of `testMasterFSM`, with an
  acknowledgement repeated and one lost.
-/
def twoSessions : List ScriptedLabel :=
  [.script .expire, .script (.handle 1), .dispatch 0,
    .link (.toRemote 0 0), .link .remoteTimeout,
    .link .toMaster, .link (.loseToMaster 0),
    .link (.toRemote 0 0), .script .expire,
    .script (.handle 21), .dispatch 0, .link (.toRemote 0 0),
    .link .toMaster, .link (.toRemote 0 0), .script .expire,
    .script (.handle 23), .dispatch 0, .link (.toRemote 0 0),
    .link .toMaster, .link (.toRemote 0 0)]

theorem runs_script_twoSessions :
    ∃ s, StepSystem.run (step ScriptRun.testScript)
        (start ScriptRun.testScript 0) twoSessions = some s ∧
      s.link.remoteSessions = [.availability, .throughput] ∧
      ∃ part, part <+: ScriptRun.testScript.cycleEvents ∧
        s.link.remoteSessions = sessionsOf
          ((List.replicate s.script.restarts
            ScriptRun.testScript.cycleEvents).flatten ++
              part) := by
  have hParts : (StepSystem.run (step ScriptRun.testScript)
      (start ScriptRun.testScript 0) twoSessions).map
        (fun s => (s.link.remoteSessions, s.started,
          s.link.toRemote, s.link.master)) =
      some ([.availability, .throughput], [], [],
        some .throughputMode) := by
    decide +kernel
  rcases Option.map_eq_some_iff.mp hParts with
    ⟨s, hRun, hSame⟩
  simp only [Prod.mk.injEq] at hSame
  rcases hSame with ⟨hRemote, hStarted, hLine, hMaster⟩
  refine ⟨s, hRun, hRemote, ?_⟩
  rcases @runs_script ScriptRun.testScript 0 s twoSessions
      (by decide +kernel) hRun with
    ⟨part, hPart, -, -, hAll⟩
  exact ⟨part, hPart,
    (hAll ⟨hStarted, hLine, _, hMaster, rfl⟩).2⟩

end ScriptedLink

end ModemTester
