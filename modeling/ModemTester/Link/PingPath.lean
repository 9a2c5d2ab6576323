import ModemTester.Master.EchoVerdict
import ModemTester.Remote.RemoteActivities

/-
  The availability test over both directions of the line.

  `MasterPinger` writes its codes to the line, the remote's
  `RemotePinger` reads them one by one and writes them back,
  and the master's handler reads what comes back. Each
  direction keeps the order and may lose any byte on it.

  What is on its way back followed by what is on its way
  there is the flight of the echo link: a read of the remote
  moves a byte from one queue to the end of the other and is
  not seen. The two have the same books.

  Key definitions include:
    * `PingPath`
    * `PingPath.step`
    * `PingPath.view`
    * `PingPath.Shows`

  Main declarations:
    * `PingPath.view_reachable_iff`
    * `PingPath.lost_on_the_line`
    * `PingPath.reachable_between`
    * `PingPath.rtt_between`
-/

------------------------------------------------------------
-- The Path
------------------------------------------------------------

namespace ModemTester

/-
  The send loop, the bytes on the line with the numbers of
  their transmissions, and the event that `RemotePinger` has
  dispatched, after which it does not read again. The rest
  is what the echo link records, too.
-/
structure PingPath where
  loop : PingerLoop
  written : Nat
  toRemote : List (Nat × Byte)
  toMaster : List (Nat × Byte)
  left : Option Event
  recordTimes : List Int
  dropped : Finset Nat
  delivered : List Nat

inductive PathLabel where
  | loop (label : PingerLabel)
  /- `RemotePinger::handleReceive` on the next byte. -/
  | remoteReads
  /- `MasterPinger::handleReceive` on the next byte. -/
  | masterReads (now : Int)
  | loseToRemote (index : Nat)
  | loseToMaster (index : Nat)
  deriving DecidableEq, Repr

namespace PingPath

def start : PingPath where
  loop := PingerLoop.start
  written := 0
  toRemote := []
  toMaster := []
  left := none
  recordTimes := []
  dropped := ∅
  delivered := []

/- What a step of the loop puts on the line. -/
def afterLoop
    (s : PingPath)
    (label : PingerLabel)
    (loop : PingerLoop) : PingPath :=
  match label with
  | .write =>
      { s with
        loop := loop
        written := s.written + 1
        toRemote := s.toRemote ++ [(s.written, s.loop.byte)] }
  | .record now =>
      { s with
        loop := loop
        recordTimes := s.recordTimes ++ [now] }
  | _ => { s with loop := loop }

/- The remote has taken a byte from the line. -/
def remoteReads
    (s : PingPath)
    (entry : Nat × Byte) : PingPath :=
  match RemotePinger.handleByte entry.2 with
  | .echo => { s with toMaster := s.toMaster ++ [entry] }
  | .dispatch event => { s with left := some event }
  | _ => s

def step (s : PingPath) : PathLabel → Option PingPath
  | .loop (.receive _ _ _) => none
  | .loop label =>
      (s.loop.step label).map (s.afterLoop label)
  | .remoteReads =>
      match s.left, s.toRemote with
      | none, entry :: rest =>
          some (remoteReads { s with toRemote := rest } entry)
      | _, _ => none
  | .masterReads now =>
      match s.toMaster with
      | [] => none
      | entry :: rest =>
          (s.loop.step (.receive 0 now [entry.2])).map
            fun loop =>
              { s with
                loop := loop
                toMaster := rest
                delivered := s.delivered ++ [entry.1] }
  | .loseToRemote index =>
      match s.toRemote[index]? with
      | none => none
      | some entry =>
          some
            { s with
              toRemote := s.toRemote.eraseIdx index
              dropped := insert entry.1 s.dropped }
  | .loseToMaster index =>
      match s.toMaster[index]? with
      | none => none
      | some entry =>
          some
            { s with
              toMaster := s.toMaster.eraseIdx index
              dropped := insert entry.1 s.dropped }

/- The path as an echo link. -/
def view (s : PingPath) : EchoLink where
  loop := s.loop
  written := s.written
  inFlight := s.toMaster ++ s.toRemote
  recordTimes := s.recordTimes
  dropped := s.dropped
  delivered := s.delivered

/- What the echo link sees of a step. -/
def shown (s : PingPath) : PathLabel → Option EchoLabel
  | .loop label => some (.loop label)
  | .remoteReads => none
  | .masterReads now => some (.echo now)
  | .loseToRemote index =>
      some (.drop (s.toMaster.length + index))
  | .loseToMaster index => some (.drop index)

/- What is seen of a step meets a condition. -/
def Shows
    (ok : EchoLink → EchoLabel → Prop)
    (s : PingPath)
    (label : PathLabel) : Prop :=
  ∀ seen ∈ s.shown label, ok s.view seen

instance
    (ok : EchoLink → EchoLabel → Prop)
    [∀ s label, Decidable (ok s label)]
    (s : PingPath)
    (label : PathLabel) :
    Decidable (Shows ok s label) :=
  match hSeen : s.shown label with
  | none => .isTrue (by simp [Shows, hSeen])
  | some seen =>
      decidable_of_iff (ok s.view seen)
        (by simp [Shows, hSeen])

------------------------------------------------------------
-- Only Codes Travel
------------------------------------------------------------

/- The loop and the line to the remote hold codes only. -/
structure Carries (s : PingPath) : Prop where
  left : s.left = none
  byte : s.loop.byte.val < PingerLoop.nbCodes
  toRemote : ∀ entry ∈ s.toRemote,
    entry.2.val < PingerLoop.nbCodes

theorem carries_start : Carries start where
  left := rfl
  byte := by decide
  toRemote := by simp [start]

/- `RemotePinger` writes back every code. -/
theorem handleByte_of_lt
    {byte : Byte}
    (hCode : byte.val < PingerLoop.nbCodes) :
    RemotePinger.handleByte byte = .echo := by
  rw [RemotePinger.handleByte,
    if_pos (PingerLoop.isStandardCode_of_lt hCode)]

theorem remoteReads_of_lt
    (s : PingPath)
    {entry : Nat × Byte}
    (hCode : entry.2.val < PingerLoop.nbCodes) :
    s.remoteReads entry =
      { s with toMaster := s.toMaster ++ [entry] } := by
  simp only [remoteReads, handleByte_of_lt hCode]

/- The byte of the loop is always a code. -/
theorem byte_lt_of_step
    {l l' : PingerLoop}
    {label : PingerLabel}
    (hByte : l.byte.val < PingerLoop.nbCodes)
    (hStep : l.step label = some l') :
    l'.byte.val < PingerLoop.nbCodes := by
  cases label with
  | write | countSent | record | readReceived | readLost =>
      simp only [PingerLoop.step] at hStep
      split at hStep
      · cases hStep
        exact hByte
      · cases hStep
  | advance =>
      simp only [PingerLoop.step] at hStep
      split at hStep
      · cases hStep
        rw [PingerLoop.nextCode_val]
        exact Nat.mod_lt _ (by decide)
      · cases hStep
  | check =>
      simp only [PingerLoop.step] at hStep
      split at hStep
      · cases hStep
        exact hByte
      · cases hStep
        exact hByte
      · cases hStep
  | receive | requestStop =>
      cases hStep
      exact hByte

/- A step of the loop alone. -/
theorem exists_loop_of_step
    {s s' : PingPath}
    {label : PingerLabel}
    (hStep : step s (.loop label) = some s') :
    ∃ loop, (∀ ec now bytes, label ≠ .receive ec now bytes) ∧
      s.loop.step label = some loop ∧
      s' = s.afterLoop label loop := by
  have hReceive : ∀ ec now bytes,
      label ≠ .receive ec now bytes := by
    rintro ec now bytes rfl
    simp [step] at hStep
  have hLoop : (s.loop.step label).map (s.afterLoop label) =
      some s' := by
    cases label <;> first
      | exact hStep
      | exact absurd rfl (hReceive _ _ _)
  rcases Option.map_eq_some_iff.mp hLoop with
    ⟨loop, hTaken, hSame⟩
  exact ⟨loop, hReceive, hTaken, hSame.symm⟩

theorem Carries.afterLoop
    {s : PingPath}
    {label : PingerLabel}
    {loop : PingerLoop}
    (hCarries : Carries s)
    (hStep : s.loop.step label = some loop) :
    Carries (s.afterLoop label loop) := by
  have hByte := byte_lt_of_step hCarries.byte hStep
  cases label with
  | write =>
      refine ⟨hCarries.left, hByte, ?_⟩
      intro entry hEntry
      rcases List.mem_append.mp hEntry with hOld | hNew
      · exact hCarries.toRemote entry hOld
      · rw [List.mem_singleton.mp hNew]
        exact hCarries.byte
  | countSent | record | advance | readReceived | readLost
  | check | receive | requestStop =>
      exact ⟨hCarries.left, hByte, hCarries.toRemote⟩

theorem Carries.step
    {s s' : PingPath}
    {label : PathLabel}
    (hCarries : Carries s)
    (hStep : PingPath.step s label = some s') :
    Carries s' := by
  cases label with
  | loop label =>
      rcases exists_loop_of_step hStep with
        ⟨loop, -, hTaken, rfl⟩
      exact hCarries.afterLoop hTaken
  | remoteReads =>
      simp only [PingPath.step] at hStep
      split at hStep
      · rename_i entry rest hLeft hQueue
        have hCodes := hCarries.toRemote
        rw [hQueue] at hCodes
        rw [remoteReads_of_lt _
          (hCodes entry List.mem_cons_self)] at hStep
        cases hStep
        refine ⟨hCarries.left, hCarries.byte, ?_⟩
        intro other hOther
        exact hCodes other (List.mem_cons_of_mem _ hOther)
      · cases hStep
  | masterReads now =>
      simp only [PingPath.step] at hStep
      split at hStep
      · cases hStep
      · cases hStep
        exact ⟨hCarries.left, hCarries.byte, hCarries.toRemote⟩
  | loseToRemote index =>
      simp only [PingPath.step] at hStep
      split at hStep
      · cases hStep
      · cases hStep
        refine ⟨hCarries.left, hCarries.byte, ?_⟩
        intro entry hEntry
        exact hCarries.toRemote entry
          ((List.eraseIdx_sublist _ _).subset hEntry)
  | loseToMaster index =>
      simp only [PingPath.step] at hStep
      split at hStep
      · cases hStep
      · cases hStep
        exact ⟨hCarries.left, hCarries.byte, hCarries.toRemote⟩

theorem carries_of_run
    {labels : List PathLabel}
    {s : PingPath}
    (hRun : StepSystem.run step start labels = some s) :
    Carries s :=
  StepSystem.run_invariant
    (fun _ _ _ hCarries hStep => hCarries.step hStep)
    carries_start hRun

end PingPath

end ModemTester

------------------------------------------------------------
-- The Path And The Echo Link
------------------------------------------------------------

namespace ModemTester

namespace PingPath

theorem view_afterLoop
    (s : PingPath)
    (label : PingerLabel)
    (loop : PingerLoop) :
    (s.afterLoop label loop).view =
      s.view.afterLoop label loop := by
  cases label with
  | write =>
      simp [afterLoop, EchoLink.afterLoop, view,
        List.append_assoc]
  | countSent | record | advance | readReceived | readLost
  | check | receive | requestStop => rfl

theorem step_view_loop
    {s : EchoLink}
    {label : PingerLabel}
    {loop : PingerLoop}
    (hReceive : ∀ ec now bytes, label ≠ .receive ec now bytes)
    (hStep : s.loop.step label = some loop) :
    s.step (.loop label) = some (s.afterLoop label loop) := by
  have hLoop : s.step (.loop label) =
      (s.loop.step label).map (s.afterLoop label) := by
    cases label <;> first
      | rfl
      | exact absurd rfl (hReceive _ _ _)
  rw [hLoop, hStep, Option.map_some]

/- Each step is a step of the echo link, or not seen. -/
theorem view_of_step
    {s s' : PingPath}
    {label : PathLabel}
    (hCarries : Carries s)
    (hStep : step s label = some s') :
    match s.shown label with
    | none => s'.view = s.view
    | some seen => s.view.step seen = some s'.view := by
  cases label with
  | loop label =>
      rcases exists_loop_of_step hStep with
        ⟨loop, hReceive, hTaken, rfl⟩
      rw [view_afterLoop]
      exact step_view_loop hReceive hTaken
  | remoteReads =>
      simp only [step] at hStep
      split at hStep
      · rename_i entry rest hLeft hQueue
        have hCode := hCarries.toRemote entry
          (by rw [hQueue]; exact List.mem_cons_self)
        rw [remoteReads_of_lt _ hCode] at hStep
        cases hStep
        simp [shown, view, hQueue]
      · cases hStep
  | masterReads now =>
      simp only [step] at hStep
      split at hStep
      · cases hStep
      · rename_i entry rest hQueue
        cases hStep
        simp [shown, view, EchoLink.step, hQueue,
          PingerLoop.step]
  | loseToRemote index =>
      simp only [step] at hStep
      split at hStep
      · cases hStep
      · rename_i entry hEntry
        cases hStep
        simp [shown, view, EchoLink.step, hEntry,
          List.getElem?_append_right,
          List.eraseIdx_append_of_length_le]
  | loseToMaster index =>
      simp only [step] at hStep
      split at hStep
      · cases hStep
      · rename_i entry hEntry
        rcases List.getElem?_eq_some_iff.mp hEntry with
          ⟨hIndex, -⟩
        cases hStep
        simp [shown, view, EchoLink.step, hEntry,
          List.getElem?_append_left hIndex,
          List.eraseIdx_append_of_lt_length hIndex]

/-
  A run of the path whose seen steps meet a condition is
  seen as a run of the echo link whose steps meet it.
-/
theorem exists_view_run
    {ok : EchoLink → EchoLabel → Prop}
    {P : EchoLink → Prop}
    {labels : List PathLabel}
    {s s' : PingPath}
    (hCarries : Carries s)
    (hShows : StepSystem.Along step (Shows ok) s labels)
    (hAll : StepSystem.Throughout step (fun s => P s.view)
      s labels)
    (hRun : StepSystem.run step s labels = some s') :
    ∃ labels',
      StepSystem.run EchoLink.step s.view labels' =
        some s'.view ∧
      StepSystem.Along EchoLink.step ok s.view labels' ∧
      StepSystem.Throughout EchoLink.step P s.view labels' := by
  refine StepSystem.run_simulation_along (I := Carries) view
    (fun _ _ _ hCarries _ hStep => hCarries.step hStep)
    ?_ hCarries hShows hAll hRun
  intro s label s' hCarries hOk hStep
  have hView := view_of_step hCarries hStep
  unfold Shows at hOk
  cases hSeen : s.shown label with
  | none =>
      rw [hSeen] at hView
      exact .inl hView
  | some seen =>
      rw [hSeen] at hView
      exact .inr ⟨seen, hOk seen hSeen, hView⟩

/- The master has read the next byte. -/
theorem step_masterReads
    {s : PingPath}
    {entry : Nat × Byte}
    {rest : List (Nat × Byte)}
    (now : Int)
    (hQueue : s.toMaster = entry :: rest) :
    ∃ s', step s (.masterReads now) = some s' ∧
      s'.view = s.view.afterEcho now entry
        (rest ++ s.toRemote) := by
  refine ⟨{ s with
      loop :=
        { s.loop with pinger := s.view.echoed now entry.2 }
      toMaster := rest
      delivered := s.delivered ++ [entry.1] }, ?_, rfl⟩
  simp only [step, hQueue, PingerLoop.step, Option.map_some]
  rfl

/-
  The other way round: what the echo link does, the path can
  do as well. An echo may first take a read of the remote.
-/
theorem exists_run_of_view_step
    {s : PingPath}
    {e : EchoLink}
    {seen : EchoLabel}
    (hCarries : Carries s)
    (hStep : s.view.step seen = some e) :
    ∃ labels s', StepSystem.run step s labels = some s' ∧
      s'.view = e := by
  cases seen with
  | loop label =>
      rcases EchoLink.exists_loop_of_step hStep with
        ⟨loop, hReceive, hTaken, rfl⟩
      have hLoop : step s (.loop label) =
          (s.loop.step label).map (s.afterLoop label) := by
        cases label <;> first
          | rfl
          | exact absurd rfl (hReceive _ _ _)
      have hTaken : s.loop.step label = some loop := hTaken
      rw [hTaken, Option.map_some] at hLoop
      refine ⟨[.loop label], _,
        StepSystem.run_of_step hLoop, ?_⟩
      exact view_afterLoop s label loop
  | drop index =>
      simp only [EchoLink.step] at hStep
      split at hStep
      · cases hStep
      · rename_i entry hEntry
        cases hStep
        simp only [view] at hEntry
        by_cases hIndex : index < s.toMaster.length
        · rw [List.getElem?_append_left hIndex] at hEntry
          have hLost : step s (.loseToMaster index) = some
              { s with
                toMaster := s.toMaster.eraseIdx index
                dropped := insert entry.1 s.dropped } := by
            simp only [step, hEntry]
          refine ⟨[.loseToMaster index], _,
            StepSystem.run_of_step hLost, ?_⟩
          simp [view, List.eraseIdx_append_of_lt_length hIndex]
        · have hPast := not_lt.mp hIndex
          rw [List.getElem?_append_right hPast] at hEntry
          have hLost : step s
              (.loseToRemote (index - s.toMaster.length)) =
                some
                  { s with
                    toRemote := s.toRemote.eraseIdx
                      (index - s.toMaster.length)
                    dropped := insert entry.1 s.dropped } := by
            simp only [step, hEntry]
          refine ⟨[.loseToRemote (index - s.toMaster.length)],
            _, StepSystem.run_of_step hLost, ?_⟩
          simp [view, List.eraseIdx_append_of_length_le hPast]
  | echo now =>
      rcases EchoLink.eq_afterEcho_of_step hStep with
        ⟨entry, rest, hFlight, rfl⟩
      simp only [view] at hFlight
      cases hQueue : s.toMaster with
      | cons first more =>
          rw [hQueue, List.cons_append,
            List.cons.injEq] at hFlight
          rcases hFlight with ⟨rfl, rfl⟩
          rcases step_masterReads now hQueue with
            ⟨s', hTaken, hView⟩
          exact ⟨[.masterReads now], s',
            StepSystem.run_of_step hTaken, hView⟩
      | nil =>
          -- the byte has not been at the remote yet
          rw [hQueue, List.nil_append] at hFlight
          have hCode := hCarries.toRemote entry
            (by rw [hFlight]; exact List.mem_cons_self)
          have hRead : step s .remoteReads = some
              { s with
                toRemote := rest
                toMaster := [entry] } := by
            simp only [step, hCarries.left, hFlight,
              remoteReads_of_lt _ hCode, hQueue,
              List.nil_append]
          rcases @step_masterReads
              { s with toRemote := rest, toMaster := [entry] }
              entry [] now rfl with
            ⟨s', hTaken, hView⟩
          refine ⟨[.remoteReads, .masterReads now], s', ?_,
            hView⟩
          rw [StepSystem.run_cons_of_step hRead]
          exact StepSystem.run_of_step hTaken

/-
  The test over the line and the echo link reach the same
  books, counters and losses.
-/
theorem view_reachable_iff (e : EchoLink) :
    (∃ labels s, StepSystem.run step start labels = some s ∧
        s.view = e) ↔
      ∃ labels, StepSystem.run EchoLink.step EchoLink.start
        labels = some e := by
  constructor
  · rintro ⟨labels, s, hRun, rfl⟩
    refine StepSystem.run_simulation (I := Carries) view
      (fun _ _ _ hCarries hStep => hCarries.step hStep)
      ?_ carries_start hRun
    intro s label s' hCarries hStep
    have hView := view_of_step hCarries hStep
    cases hSeen : s.shown label with
    | none =>
        rw [hSeen] at hView
        exact ⟨[], by rw [StepSystem.run_nil, hView]⟩
    | some seen =>
        rw [hSeen] at hView
        exact ⟨[seen], StepSystem.run_of_step hView⟩
  · rintro ⟨labels, hRun⟩
    exact StepSystem.exists_run_of_run_view (I := Carries)
      view
      (fun _ _ _ hCarries hStep => hCarries.step hStep)
      (fun _ _ _ hCarries hStep =>
        exists_run_of_view_step hCarries hStep)
      carries_start hRun

end PingPath

end ModemTester

------------------------------------------------------------
-- What The Test Finds
------------------------------------------------------------

namespace ModemTester

namespace PingPath

/- Both directions of the line together. -/
def onTheLine (s : PingPath) : Nat :=
  s.toMaster.length + s.toRemote.length

/- What may happen between the two readings of a check. -/
def InsideCheck : PathLabel → Prop
  | .loop label => label = .requestStop
  | _ => True

instance : DecidablePred InsideCheck
  | .loop label =>
      inferInstanceAs (Decidable (label = .requestStop))
  | .remoteReads => .isTrue trivial
  | .masterReads _ => .isTrue trivial
  | .loseToRemote _ => .isTrue trivial
  | .loseToMaster _ => .isTrue trivial

theorem shows_insideCheck
    {s : PingPath}
    {label : PathLabel}
    (hInside : InsideCheck label) :
    Shows (fun _ seen => EchoLink.InsideCheck seen)
      s label := by
  intro seen hSeen
  cases label with
  | loop label =>
      simp only [shown, Option.mem_def,
        Option.some.injEq] at hSeen
      subst hSeen
      exact hInside
  | remoteReads => simp [shown] at hSeen
  | masterReads now | loseToRemote index
  | loseToMaster index =>
      simp only [shown, Option.mem_def,
        Option.some.injEq] at hSeen
      subst hSeen
      trivial

/- Two conditions on what is seen. -/
theorem along_shows_and
    {ok good : EchoLink → EchoLabel → Prop}
    {labels : List PathLabel}
    {s : PingPath}
    (hOk : StepSystem.Along step (Shows ok) s labels)
    (hGood : StepSystem.Along step (Shows good) s labels) :
    StepSystem.Along step
      (Shows fun e seen => ok e seen ∧ good e seen)
      s labels :=
  StepSystem.along_of_along (I := fun _ => True)
    (fun _ _ _ _ _ _ => trivial)
    (fun _ _ _ _ hBoth _ seen hSeen =>
      ⟨hBoth.1 seen hSeen, hBoth.2 seen hSeen⟩)
    trivial (StepSystem.along_and hOk hGood)

/- The books of the path have no gaps. -/
theorem tallied_of_run
    {labels : List PathLabel}
    {s : PingPath}
    (hWindow : StepSystem.Throughout step
      (fun s => s.view.Window) start labels)
    (hTimely : StepSystem.Along step
      (Shows EchoLink.Timely) start labels)
    (hRun : StepSystem.run step start labels = some s) :
    EchoLink.Tallied s.view := by
  rcases exists_view_run carries_start hTimely hWindow hRun
    with ⟨labels', hRun', hTimely', hWindow'⟩
  exact EchoLink.tallied_of_run hWindow' hTimely' hRun'

/-
  What has been sent has been received, was lost on the line
  or is still on it; the losses that are not counted yet are
  of transmissions after the last one echoed.
-/
theorem lost_on_the_line
    {labels : List PathLabel}
    {s : PingPath}
    (hWindow : StepSystem.Throughout step
      (fun s => s.view.Window) start labels)
    (hTimely : StepSystem.Along step
      (Shows EchoLink.Timely) start labels)
    (hRun : StepSystem.run step start labels = some s) :
    s.loop.pinger.sent + EchoLink.uncounted s.loop.point =
        s.loop.pinger.received + s.dropped.card +
          s.onTheLine ∧
      s.dropped.card + s.onTheLine =
        s.loop.pinger.lost + s.view.unanswered := by
  have hTallied := tallied_of_run hWindow hTimely hRun
  have hSent : s.written =
      s.loop.pinger.sent + EchoLink.uncounted s.loop.point :=
    hTallied.sent_eq
  have hLine : s.loop.pinger.received + s.dropped.card +
      (s.toMaster ++ s.toRemote).length = s.written :=
    hTallied.conserved.1
  have hBooked : s.loop.pinger.received +
      s.loop.pinger.lost + s.view.unanswered = s.written :=
    hTallied.conserved.2
  rw [List.length_append] at hLine
  rw [onTheLine]
  constructor <;> omega

/-
  Three transmissions: one lost on its way there, one on its
  way back, and an echo.
-/
theorem lost_on_the_line_after_two_losses :
    ∃ s, StepSystem.run step start
        [.loop .write, .loop .countSent, .loop (.record 0),
          .loop .advance, .loseToRemote 0,
          .loop .readReceived, .loop .check,
          .loop .write, .loop .countSent, .loop (.record 9),
          .loop .advance, .remoteReads, .loseToMaster 0,
          .loop .readLost, .loop .check,
          .loop .write, .loop .countSent, .loop (.record 20),
          .remoteReads, .masterReads 23] = some s ∧
      s.loop.pinger.sent = 1 + s.dropped.card ∧
      s.loop.pinger.lost = s.dropped.card := by
  refine ⟨_, rfl, ?_⟩
  have hBooks := @lost_on_the_line
    [.loop .write, .loop .countSent, .loop (.record 0),
      .loop .advance, .loseToRemote 0,
      .loop .readReceived, .loop .check,
      .loop .write, .loop .countSent, .loop (.record 9),
      .loop .advance, .remoteReads, .loseToMaster 0,
      .loop .readLost, .loop .check,
      .loop .write, .loop .countSent, .loop (.record 20),
      .remoteReads, .masterReads 23]
    _ (by decide) (by decide) rfl
  exact ⟨hBooks.1, hBooks.2.symm⟩

/-
  In a check, whatever is lost or echoed between its two
  readings: it finds the remote reachable if no more than
  `AVAIL_THRESHOLD` transmissions were unanswered at the
  first, and only if no more are at the end.
-/
theorem reachable_between
    {labels middle : List PathLabel}
    {before s : PingPath}
    {first : PingerLabel}
    (hFirst : first = .readReceived ∨ first = .readLost)
    (hInside : ∀ label ∈ middle, InsideCheck label)
    (hWindow : StepSystem.Throughout step
      (fun s => s.view.Window) start
      (labels ++ .loop first :: (middle ++ [.loop .check])))
    (hTimely : StepSystem.Along step
      (Shows EchoLink.Timely) start
      (labels ++ .loop first :: (middle ++ [.loop .check])))
    (hBefore : StepSystem.run step start labels = some before)
    (hRun : StepSystem.run step before
      (.loop first :: (middle ++ [.loop .check])) = some s)
    (hSent : s.written < ulongModulus) :
    (before.view.unanswered ≤ availThreshold →
        s.loop.pinger.reachable = true) ∧
      (s.loop.pinger.reachable = true →
        s.view.unanswered ≤ availThreshold) := by
  rw [StepSystem.throughout_append hBefore] at hWindow
  rw [StepSystem.along_append hBefore] at hTimely
  have hTallied := tallied_of_run hWindow.1 hTimely.1 hBefore
  have hCarries := carries_of_run hBefore
  -- the first reading
  rcases StepSystem.exists_step_of_run_cons hRun with
    ⟨s₁, hReading, hRest⟩
  have hCarries₁ := hCarries.step hReading
  rw [StepSystem.throughout_cons_of_step hReading] at hWindow
  rw [StepSystem.along_cons_of_step hReading] at hTimely
  have hChecking₁ : EchoLink.Checking before.view s₁.view :=
    EchoLink.checking_of_reading hTallied hWindow.2.1 hFirst
      (view_of_step hCarries hReading)
  -- what happens before the other one
  rcases StepSystem.exists_run_of_run_append hRest with
    ⟨s₂, hMiddle, hLast⟩
  have hWindow₁ :=
    ((StepSystem.throughout_append hMiddle).mp hWindow.2.2).1
  have hTimely₁ :=
    ((StepSystem.along_append hMiddle).mp hTimely.2.2).1
  have hInside₁ : StepSystem.Along step
      (Shows fun _ seen => EchoLink.InsideCheck seen)
      s₁ middle :=
    StepSystem.along_of_along (I := fun _ => True)
      (fun _ _ _ _ _ _ => trivial)
      (fun _ _ _ _ hLabel _ => shows_insideCheck hLabel)
      trivial (StepSystem.along_of_forall hInside)
  rcases exists_view_run hCarries₁
      (along_shows_and hTimely₁ hInside₁) hWindow₁ hMiddle with
    ⟨labels', hRun', hAlong', hWindow'⟩
  have hChecking₂ :=
    hChecking₁.run hWindow' hAlong' hRun'
  -- the check
  have hCarries₂ : Carries s₂ :=
    StepSystem.run_invariant
      (fun _ _ _ hCarries hStep => hCarries.step hStep)
      hCarries₁ hMiddle
  rcases StepSystem.exists_step_of_run_cons hLast with
    ⟨s₃, hCheck, hEnd⟩
  simp only [StepSystem.run_nil, Option.some.injEq] at hEnd
  subst hEnd
  have hChecked : s₂.view.step (.loop .check) = some s₃.view :=
    view_of_step hCarries₂ hCheck
  have hSame := EchoLink.unanswered_of_check hChecked
  rw [hSame.1]
  exact hChecking₂.reachable_of_check hTallied
    (hSame.2 ▸ hSent) hChecked

/-
  Four transmissions are on the line and one echo is handled
  inside the check, so that none is one too many.
-/
theorem reachable_between_with_echo :
    ∃ s before,
      StepSystem.run step start
        [.loop .write, .loop .countSent, .loop (.record 0),
          .loop .advance, .loop .readLost, .loop .check,
          .loop .write, .loop .countSent, .loop (.record 1),
          .loop .advance, .loop .readLost, .loop .check,
          .loop .write, .loop .countSent, .loop (.record 2),
          .loop .advance, .loop .readLost, .loop .check,
          .loop .write, .loop .countSent, .loop (.record 3),
          .loop .advance, .remoteReads] = some before ∧
      before.view.unanswered = 4 ∧
      StepSystem.run step before
        (.loop .readLost :: ([.masterReads 4] ++
          [.loop .check])) = some s ∧
      s.loop.pinger.reachable = true ∧
      s.view.unanswered ≤ availThreshold := by
  refine ⟨_, _, rfl, rfl, rfl, rfl, ?_⟩
  exact (@reachable_between
    [.loop .write, .loop .countSent, .loop (.record 0),
      .loop .advance, .loop .readLost, .loop .check,
      .loop .write, .loop .countSent, .loop (.record 1),
      .loop .advance, .loop .readLost, .loop .check,
      .loop .write, .loop .countSent, .loop (.record 2),
      .loop .advance, .loop .readLost, .loop .check,
      .loop .write, .loop .countSent, .loop (.record 3),
      .loop .advance, .remoteReads]
    [.masterReads 4] _ _ .readLost (.inr rfl) (by decide)
    (by decide) (by decide) rfl rfl (by decide)).2 rfl

/-
  With delays from the recording to the echo between the
  bounds, `getAverageRtt()` is between them, too.
-/
theorem rtt_between
    {low high : Int}
    {labels : List PathLabel}
    {s : PingPath}
    (hWindow : StepSystem.Throughout step
      (fun s => s.view.Window) start labels)
    (hTimely : StepSystem.Along step
      (Shows EchoLink.Timely) start labels)
    (hDelay : StepSystem.Along step
      (Shows (EchoLink.DelayWithin low high)) start labels)
    (hRun : StepSystem.run step start labels = some s) :
    EchoLink.RttBetween low high s.loop.pinger := by
  rcases exists_view_run carries_start
      (along_shows_and hTimely hDelay) hWindow hRun with
    ⟨labels', hRun', hAlong', hWindow'⟩
  exact EchoLink.rtt_of_run hWindow' hAlong' hRun'

/- Echoes after 3 and 5 units of time. -/
theorem rtt_between_two_echoes :
    ∃ s, StepSystem.run step start
        [.loop .write, .loop .countSent, .loop (.record 0),
          .remoteReads, .masterReads 3, .loop .advance,
          .loop .readReceived, .loop .check,
          .loop .write, .loop .countSent, .loop (.record 20),
          .remoteReads, .masterReads 25] = some s ∧
      EchoLink.RttBetween 3 5 s.loop.pinger := by
  refine ⟨_, rfl, ?_⟩
  exact @rtt_between 3 5
    [.loop .write, .loop .countSent, .loop (.record 0),
      .remoteReads, .masterReads 3, .loop .advance,
      .loop .readReceived, .loop .check,
      .loop .write, .loop .countSent, .loop (.record 20),
      .remoteReads, .masterReads 25]
    _ (by decide) (by decide) (by decide) rfl

end PingPath

end ModemTester
