import ModemTester.Remote.RemoteReads

/-
  What the boundaries between reads change for a remote in
  throughput mode.

  Read byte by byte, a stream has one outcome. It has others
  when an `EndModeCommand` can share a read with the bytes
  that follow it, unless each of those that may be lost would
  only do what the bytes behind it do anyway, from where
  `EndModeReceived` starts to read.

  Key definitions include:
    * `Skippable`
    * `Harmless`
    * `Undisturbed`

  Main declarations:
    * `skippable_iff`
    * `effects_drop_of_harmless`
    * `RemoteReads.log_of_run`
    * `RemoteReads.boundaryFree_iff`
-/

------------------------------------------------------------
-- Streams Of Which Bytes May Be Lost
------------------------------------------------------------

namespace ModemTester

/-
  Up to bytes that are no events, the byte comes first, and
  at once behind it no event.
-/
def Isolated (byte : Byte) : List Byte → Prop
  | [] => False
  | first :: rest =>
      if readEvt first = none then Isolated byte rest
      else
        first = byte ∧
          ∀ next ∈ rest.head?, readEvt next = none

/-
  What the bytes behind a `MasterAck` have to be for it to be
  lost: two more, or a single one behind bytes that are no
  events.
-/
def AcksAgain : List Byte → Prop
  | first :: second :: rest =>
      (first = masterAckId ∧ second = masterAckId) ∨
        (readEvt first = none ∧
          Isolated masterAckId (second :: rest))
  | _ => False

/-
  And behind an `EndModeCommand`: any number of pairs, and a
  single one behind bytes that are no events.
-/
def EndsAgain : List Byte → Prop
  | first :: second :: rest =>
      if first = endModeCommandId ∧
          second = endModeCommandId then
        EndsAgain rest
      else
        readEvt first = none ∧
          Isolated endModeCommandId (second :: rest)
  | _ => False

/-
  In `EndModeReceived` with its timer running, the byte may
  be lost ahead of the rest: it is no event, or the next
  event would do the same.
-/
def Skippable (byte : Byte) (rest : List Byte) : Prop :=
  readEvt byte = none ∨
  (byte = endTestId ∧
    rest.findSome? readEvt = some .endTest) ∨
  (byte = masterAckId ∧ AcksAgain rest) ∨
  (byte = endModeCommandId ∧ EndsAgain rest)

/- The first `count` bytes may be lost there. -/
def Harmless : Nat → List Byte → Prop
  | count + 1, byte :: rest =>
      Skippable byte rest ∧ Harmless count rest
  | _, _ => True

/-
  Byte by byte, every `EndModeCommand` that comes in
  throughput mode, other than as the first byte there, is
  followed by 254 bytes that may be lost.
-/
def Undisturbed : ReadPoint → List Byte → Prop
  | _, [] => True
  | p, byte :: bytes =>
      (p = .throughput false → byte = endModeCommandId →
        Harmless 254 bytes) ∧
      match (afterByte p byte).2 with
      | none => True
      | some next => Undisturbed next bytes

instance decidableIsolated (byte : Byte) :
    (stream : List Byte) → Decidable (Isolated byte stream)
  | [] => .isFalse id
  | first :: rest =>
      have := decidableIsolated byte rest
      inferInstanceAs (Decidable
        (if readEvt first = none then Isolated byte rest
        else first = byte ∧
          ∀ next ∈ rest.head?, readEvt next = none))

instance : (stream : List Byte) →
    Decidable (AcksAgain stream)
  | [] | [_] => .isFalse id
  | first :: second :: rest =>
      inferInstanceAs (Decidable
        ((first = masterAckId ∧ second = masterAckId) ∨
          (readEvt first = none ∧
            Isolated masterAckId (second :: rest))))

instance decidableEndsAgain : (stream : List Byte) →
    Decidable (EndsAgain stream)
  | [] | [_] => .isFalse id
  | first :: second :: rest =>
      have := decidableEndsAgain rest
      inferInstanceAs (Decidable
        (if first = endModeCommandId ∧
            second = endModeCommandId then
          EndsAgain rest
        else
          readEvt first = none ∧
            Isolated endModeCommandId (second :: rest)))

instance (byte : Byte) (rest : List Byte) :
    Decidable (Skippable byte rest) := by
  unfold Skippable
  infer_instance

instance decidableHarmless : (count : Nat) →
    (stream : List Byte) → Decidable (Harmless count stream)
  | 0, _ => .isTrue trivial
  | _ + 1, [] => .isTrue trivial
  | count + 1, byte :: rest =>
      have := decidableHarmless count rest
      inferInstanceAs (Decidable
        (Skippable byte rest ∧ Harmless count rest))

instance decidableUndisturbed : (p : ReadPoint) →
    (stream : List Byte) → Decidable (Undisturbed p stream)
  | _, [] => .isTrue trivial
  | p, byte :: bytes =>
      have : Decidable
          (match (afterByte p byte).2 with
          | none => True
          | some next => Undisturbed next bytes) :=
        match (afterByte p byte).2 with
        | none => .isTrue trivial
        | some next => decidableUndisturbed next bytes
      inferInstanceAs (Decidable
        ((p = .throughput false → byte = endModeCommandId →
          Harmless 254 bytes) ∧
        match (afterByte p byte).2 with
        | none => True
        | some next => Undisturbed next bytes))

/- The rest of the stream, from where a byte led, likewise. -/
def UndisturbedFrom (rest : List Byte) :
    Option ReadPoint → Prop
  | none => True
  | some p => Undisturbed p rest

theorem undisturbed_cons_iff
    {p : ReadPoint}
    {byte : Byte}
    {bytes : List Byte} :
    Undisturbed p (byte :: bytes) ↔
      (p = .throughput false → byte = endModeCommandId →
        Harmless 254 bytes) ∧
      UndisturbedFrom bytes (afterByte p byte).2 := by
  rw [Undisturbed]
  cases (afterByte p byte).2 with
  | none => exact Iff.rfl
  | some next => exact Iff.rfl

------------------------------------------------------------
-- What EndModeReceived Does
------------------------------------------------------------

open ReadPoint (received idle)

/- The first byte decides about the first event. -/
theorem head?_eventsOf_effects
    {p : ReadPoint}
    {byte : Byte}
    {event : Event}
    (hKind : p.state.kind ≠ .activity)
    (hByte : readEvt byte = some event)
    (bytes : List Byte) :
    (eventsOf (effects p (byte :: bytes))).head? =
      some event := by
  rw [effects_cons, afterByte_of_some hKind hByte]
  cases (remoteFsm.dispatch p.state event).2 with
  | stays | exits | transits target => rfl

theorem received_not_activity (timer : Bool) :
    (received timer).state.kind ≠ .activity := by
  decide +revert

/- With the timer running, bytes that are no events are lost. -/
theorem effects_received_of_none
    {byte : Byte}
    (hByte : readEvt byte = none)
    (bytes : List Byte) :
    effects (received true) (byte :: bytes) =
        effects (received true) bytes ∧
      (Undisturbed (received true) (byte :: bytes) ↔
        Undisturbed (received true) bytes) := by
  have hAfter : afterByte (received true) byte =
      ([], some (received true)) :=
    afterByte_of_none (received_not_activity true) hByte
  constructor
  · rw [effects_cons, hAfter]
    rfl
  · rw [undisturbed_cons_iff, hAfter]
    exact and_iff_right fun hPoint => by cases hPoint

/- Without a timer such a byte is the last one read. -/
theorem effects_of_quiet
    {p : ReadPoint}
    {stream : List Byte}
    (hKind : p.state.kind ≠ .activity)
    (hTimer : p.timer = false)
    (hQuiet : ∀ next ∈ stream.head?, readEvt next = none) :
    effects p stream = [] ∧ Undisturbed p stream := by
  cases stream with
  | nil => exact ⟨rfl, trivial⟩
  | cons byte bytes =>
      have hAfter := afterByte_of_none hKind
        (hQuiet byte rfl)
      have hDeaf : p.onTimeout = none := by
        simp [ReadPoint.onTimeout, hTimer]
      rw [hDeaf] at hAfter
      constructor
      · rw [effects_cons, hAfter]
        rfl
      · rw [undisturbed_cons_iff, hAfter]
        refine ⟨?_, trivial⟩
        rintro rfl
        exact absurd rfl hKind

/- And no other stream is without events. -/
theorem quiet_of_eventsOf
    {p : ReadPoint}
    {stream : List Byte}
    (hKind : p.state.kind ≠ .activity)
    (hNone : eventsOf (effects p stream) = []) :
    ∀ next ∈ stream.head?, readEvt next = none := by
  intro next hNext
  cases stream with
  | nil => cases hNext
  | cons byte bytes =>
      rw [List.head?_cons, Option.mem_some] at hNext
      rw [← hNext]
      cases hByte : readEvt byte with
      | none => rfl
      | some event =>
          have hHead := head?_eventsOf_effects hKind hByte
            bytes
          rw [hNone] at hHead
          cases hHead

theorem effects_received_masterAck
    (timer : Bool)
    (bytes : List Byte) :
    effects (received timer) (masterAckId :: bytes) =
      [.dispatched .masterAck, .entered .remoteIdle] ++
        effects idle bytes := by
  cases timer <;> rfl

theorem effects_received_endModeCommand
    (timer : Bool)
    (bytes : List Byte) :
    effects (received timer) (endModeCommandId :: bytes) =
      [.dispatched .endModeCommand,
          .entered .endModeReceived] ++
        effects (received !timer) bytes := by
  cases timer <;> rfl

theorem effects_received_endTest
    (timer : Bool)
    (bytes : List Byte) :
    effects (received timer) (endTestId :: bytes) =
      [.dispatched .endTest] := by
  cases timer <;> rfl

theorem effects_idle_masterAck (bytes : List Byte) :
    effects idle (masterAckId :: bytes) =
      [.dispatched .masterAck] := rfl

theorem undisturbed_received_iff
    {timer : Bool}
    {byte : Byte}
    {bytes : List Byte} :
    Undisturbed (received timer) (byte :: bytes) ↔
      UndisturbedFrom bytes
        (afterByte (received timer) byte).2 := by
  rw [undisturbed_cons_iff]
  exact and_iff_right fun hPoint => by cases hPoint

/- An event that is refused with the timer running. -/
theorem effects_received_refused
    {byte : Byte}
    {event : Event}
    (hByte : readEvt byte = some event)
    (hStays : (remoteFsm.dispatch .endModeReceived event).2 =
      .stays)
    (bytes : List Byte) :
    effects (received true) (byte :: bytes) =
      .dispatched event :: effects (received true) bytes := by
  have hOutcome :
      (remoteFsm.dispatch (received true).state event).2 =
        .stays := hStays
  rw [effects_cons,
    afterByte_of_some (received_not_activity true) hByte,
    hOutcome]
  rfl

/- Only its own byte reads as an event. -/
theorem eq_of_readEvt_eq
    {byte byte' : Byte}
    {event : Event}
    (hByte : readEvt byte = some event)
    (hByte' : readEvt byte' = some event) :
    byte = byte' := by
  rw [readEvt_eq_some_iff] at hByte hByte'
  apply Fin.ext
  omega

------------------------------------------------------------
-- Bytes That May Be Lost
------------------------------------------------------------

theorem eventsOf_append (log log' : List Observation) :
    eventsOf (log ++ log') = eventsOf log ++ eventsOf log' :=
  List.filterMap_append

/-
  A single byte among others that are no events does only
  what it does itself, if it leads where there is no timer.
-/
theorem effects_of_isolated
    {byte : Byte}
    {log : List Observation}
    {p : ReadPoint}
    {stream : List Byte}
    (hAfter : afterByte (received true) byte = (log, some p))
    (hKind : p.state.kind ≠ .activity)
    (hTimer : p.timer = false)
    (hIsolated : Isolated byte stream) :
    effects (received true) stream = log ∧
      Undisturbed (received true) stream := by
  induction stream with
  | nil => exact hIsolated.elim
  | cons first rest ih =>
      rw [Isolated] at hIsolated
      split at hIsolated
      · rename_i hNone
        rcases effects_received_of_none hNone rest with
          ⟨hEffects, hUndisturbed⟩
        rw [hEffects, hUndisturbed]
        exact ih hIsolated
      · rcases hIsolated with ⟨rfl, hQuiet⟩
        rcases effects_of_quiet hKind hTimer hQuiet with
          ⟨hEffects, hUndisturbed⟩
        rw [undisturbed_received_iff, effects_cons, hAfter,
          afterwards, hEffects, List.append_nil]
        exact ⟨rfl, hUndisturbed⟩

theorem isolated_of_eventsOf
    {byte : Byte}
    {event : Event}
    {log : List Observation}
    {p : ReadPoint}
    {stream : List Byte}
    (hByte : readEvt byte = some event)
    (hAfter : afterByte (received true) byte = (log, some p))
    (hLog : eventsOf log = [event])
    (hKind : p.state.kind ≠ .activity)
    (hEvents : eventsOf (effects (received true) stream) =
      [event]) :
    Isolated byte stream := by
  induction stream with
  | nil => cases hEvents
  | cons first rest ih =>
      rw [Isolated]
      split
      · rename_i hNone
        rw [(effects_received_of_none hNone rest).1] at hEvents
        exact ih hEvents
      · rename_i hSome
        rcases Option.ne_none_iff_exists'.mp hSome with
          ⟨other, hOther⟩
        have hHead := head?_eventsOf_effects
          (received_not_activity true) hOther rest
        rw [hEvents, List.head?_cons, Option.some.injEq]
          at hHead
        have hSame : first = byte :=
          eq_of_readEvt_eq hOther (hHead ▸ hByte)
        subst hSame
        refine ⟨rfl, ?_⟩
        rw [effects_cons, hAfter, afterwards,
          eventsOf_append, hLog, List.singleton_append,
          List.cons.injEq] at hEvents
        exact quiet_of_eventsOf hKind hEvents.2

theorem afterByte_masterAck :
    afterByte (received true) masterAckId =
      ([.dispatched .masterAck, .entered .remoteIdle],
        some idle) := by
  decide

theorem afterByte_endModeCommand :
    afterByte (received true) endModeCommandId =
      ([.dispatched .endModeCommand,
        .entered .endModeReceived],
        some (received false)) := by
  decide

/- The next event is the end of the test. -/
theorem effects_of_endTest
    {stream : List Byte}
    (hNext : stream.findSome? readEvt = some .endTest) :
    effects (received true) stream =
        [.dispatched .endTest] ∧
      Undisturbed (received true) stream := by
  induction stream with
  | nil => cases hNext
  | cons first rest ih =>
      rw [List.findSome?_cons] at hNext
      cases hFirst : readEvt first with
      | none =>
          rw [hFirst] at hNext
          rcases effects_received_of_none hFirst rest with
            ⟨hEffects, hUndisturbed⟩
          rw [hEffects, hUndisturbed]
          exact ih hNext
      | some event =>
          rw [hFirst, Option.some.injEq] at hNext
          subst hNext
          have hSame : first = endTestId :=
            eq_of_readEvt_eq hFirst rfl
          subst hSame
          have hLast : afterByte (received true) endTestId =
              ([.dispatched .endTest], none) := by decide
          rw [undisturbed_received_iff, hLast]
          exact ⟨effects_received_endTest true rest, trivial⟩

theorem endTest_of_eventsOf
    {stream : List Byte}
    (hEvents : eventsOf (effects (received true) stream) =
      [.endTest]) :
    stream.findSome? readEvt = some .endTest := by
  induction stream with
  | nil => cases hEvents
  | cons first rest ih =>
      rw [List.findSome?_cons]
      cases hFirst : readEvt first with
      | none =>
          rw [(effects_received_of_none hFirst rest).1]
            at hEvents
          exact ih hEvents
      | some event =>
          have hHead := head?_eventsOf_effects
            (received_not_activity true) hFirst rest
          rw [hEvents] at hHead
          exact hHead.symm

theorem effects_of_acksAgain
    {rest : List Byte}
    (hAcks : AcksAgain rest) :
    effects (received true) (masterAckId :: rest) =
        effects (received true) rest ∧
      Undisturbed (received true) rest := by
  match rest, hAcks with
  | first :: second :: rest, .inl ⟨hFirst, hSecond⟩ =>
      subst hFirst hSecond
      exact ⟨rfl, by
        rw [undisturbed_received_iff, afterByte_masterAck]
        exact ⟨nofun, trivial⟩⟩
  | first :: second :: rest, .inr ⟨hNone, hIsolated⟩ =>
      rcases effects_of_isolated afterByte_masterAck
          (by decide) rfl hIsolated with
        ⟨hEffects, hUndisturbed⟩
      rcases effects_received_of_none hNone (second :: rest)
        with ⟨hSkip, hSame⟩
      have hIdle : effects idle (first :: second :: rest) =
          [] :=
        (effects_of_quiet (by decide) rfl
          (by simpa using hNone)).1
      rw [effects_received_masterAck, hIdle, hSkip, hEffects,
        hSame]
      exact ⟨rfl, hUndisturbed⟩

theorem acksAgain_of_eventsOf
    {rest : List Byte}
    (hEvents : eventsOf (effects (received true) rest) =
      .masterAck :: eventsOf (effects idle rest)) :
    AcksAgain rest := by
  cases rest with
  | nil => cases hEvents
  | cons first rest =>
      cases hFirst : readEvt first with
      | none =>
          have hIdle : effects idle (first :: rest) = [] :=
            (effects_of_quiet (by decide) rfl
              (by simpa using hFirst)).1
          rw [(effects_received_of_none hFirst rest).1, hIdle]
            at hEvents
          have hIsolated : Isolated masterAckId rest :=
            isolated_of_eventsOf rfl afterByte_masterAck rfl
              (by decide) hEvents
          cases rest with
          | nil => exact hIsolated.elim
          | cons second rest =>
              exact Or.inr ⟨hFirst, hIsolated⟩
      | some event =>
          have hHead := head?_eventsOf_effects
            (received_not_activity true) hFirst rest
          rw [hEvents, List.head?_cons, Option.some.injEq]
            at hHead
          subst hHead
          have hSame : first = masterAckId :=
            eq_of_readEvt_eq hFirst rfl
          subst hSame
          rw [effects_received_masterAck,
            effects_idle_masterAck, eventsOf_append] at hEvents
          have hIdle : eventsOf (effects idle rest) =
              [.masterAck] :=
            (List.cons.inj hEvents).2
          cases rest with
          | nil => cases hIdle
          | cons second rest =>
              refine Or.inl ⟨rfl, ?_⟩
              cases hSecond : readEvt second with
              | none =>
                  rw [(effects_of_quiet (by decide) rfl
                    (by simpa using hSecond)).1] at hIdle
                  cases hIdle
              | some event =>
                  have hNext := head?_eventsOf_effects
                    (p := idle) (by decide) hSecond rest
                  rw [hIdle, List.head?_cons,
                    Option.some.injEq] at hNext
                  subst hNext
                  exact eq_of_readEvt_eq hSecond rfl

theorem effects_of_endsAgain
    {rest : List Byte}
    (hEnds : EndsAgain rest) :
    effects (received true) rest =
        [.dispatched .endModeCommand,
            .entered .endModeReceived] ++
          effects (received false) rest ∧
      Undisturbed (received true) rest := by
  induction rest using EndsAgain.induct with
  | case1 first second rest hBoth ih =>
      rw [EndsAgain, if_pos hBoth] at hEnds
      rcases hBoth with ⟨rfl, rfl⟩
      rcases ih hEnds with ⟨hEffects, hUndisturbed⟩
      constructor
      · simp only [effects_received_endModeCommand,
          Bool.not_true, Bool.not_false, hEffects]
      · rw [undisturbed_received_iff, afterByte_endModeCommand]
        show Undisturbed (received false) _
        rw [undisturbed_received_iff]
        exact hUndisturbed
  | case2 first second rest hNot =>
      rw [EndsAgain, if_neg hNot] at hEnds
      rcases hEnds with ⟨hNone, hIsolated⟩
      rcases effects_of_isolated afterByte_endModeCommand
          (received_not_activity false) rfl hIsolated with
        ⟨hEffects, hUndisturbed⟩
      rcases effects_received_of_none hNone (second :: rest)
        with ⟨hSkip, hSame⟩
      have hDeaf :
          effects (received false) (first :: second :: rest) =
            [] :=
        (effects_of_quiet (received_not_activity false) rfl
          (by simpa using hNone)).1
      rw [hDeaf, hSkip, hEffects, hSame]
      exact ⟨rfl, hUndisturbed⟩
  | case3 rest hShort =>
      rw [EndsAgain] at hEnds
      exact hEnds.elim
      exact hShort

/- The first event, when what is done is known to begin so. -/
theorem eq_of_eventsOf_cons
    {p : ReadPoint}
    {byte first : Byte}
    {event : Event}
    {rest : List Byte}
    {events : List Event}
    (hKind : p.state.kind ≠ .activity)
    (hByte : readEvt byte = some event)
    (hSome : readEvt first ≠ none)
    (hEvents : eventsOf (effects p (first :: rest)) =
      event :: events) :
    first = byte := by
  rcases Option.ne_none_iff_exists'.mp hSome with
    ⟨other, hOther⟩
  have hHead := head?_eventsOf_effects hKind hOther rest
  rw [hEvents, List.head?_cons, Option.some.injEq] at hHead
  exact eq_of_readEvt_eq hOther (hHead ▸ hByte)

theorem endsAgain_of_eventsOf
    {rest : List Byte}
    (hEvents : eventsOf (effects (received true) rest) =
      .endModeCommand ::
        eventsOf (effects (received false) rest)) :
    EndsAgain rest := by
  induction rest using EndsAgain.induct with
  | case1 first second rest hBoth ih =>
      rw [EndsAgain, if_pos hBoth]
      rcases hBoth with ⟨rfl, rfl⟩
      simp only [effects_received_endModeCommand,
        Bool.not_true, Bool.not_false, eventsOf_append]
        at hEvents
      exact ih (List.cons.inj (List.cons.inj hEvents).2).2
  | case2 first second rest hNot =>
      rw [EndsAgain, if_neg hNot]
      by_cases hNone : readEvt first = none
      · refine ⟨hNone, ?_⟩
        have hDeaf :
            effects (received false)
              (first :: second :: rest) = [] :=
          (effects_of_quiet (received_not_activity false) rfl
            (by simpa using hNone)).1
        rw [(effects_received_of_none hNone _).1, hDeaf]
          at hEvents
        exact isolated_of_eventsOf rfl
          afterByte_endModeCommand rfl
          (received_not_activity false) hEvents
      · exfalso
        have hFirst : first = endModeCommandId :=
          eq_of_eventsOf_cons (received_not_activity true) rfl
            hNone hEvents
        subst hFirst
        simp only [effects_received_endModeCommand,
          Bool.not_true, Bool.not_false, eventsOf_append]
          at hEvents
        -- the second byte then ends the mode as well
        have hMore :
            eventsOf (effects (received false)
                (second :: rest)) =
              .endModeCommand ::
                eventsOf (effects (received true)
                  (second :: rest)) :=
          (List.cons.inj hEvents).2
        have hSome : readEvt second ≠ none := by
          intro hNone
          rw [(effects_of_quiet (received_not_activity false)
            rfl (by simpa using hNone)).1] at hMore
          cases hMore
        exact hNot ⟨rfl,
          eq_of_eventsOf_cons (received_not_activity false) rfl
            hSome hMore⟩
  | case3 rest hShort =>
      exfalso
      cases rest with
      | nil => cases hEvents
      | cons first rest =>
          cases rest with
          | cons second rest => exact hShort _ _ _ rfl
          | nil =>
              by_cases hNone : readEvt first = none
              · rw [(effects_received_of_none hNone []).1]
                  at hEvents
                cases hEvents
              · have hFirst : first = endModeCommandId :=
                  eq_of_eventsOf_cons
                    (received_not_activity true) rfl hNone
                    hEvents
                subst hFirst
                cases hEvents

/- A byte that may be lost changes nothing if it is. -/
theorem effects_of_skippable
    {byte : Byte}
    {rest : List Byte}
    (hSkippable : Skippable byte rest) :
    effects (received true) (byte :: rest) =
        effects (received true) rest ∧
      (Undisturbed (received true) (byte :: rest) →
        Undisturbed (received true) rest) := by
  rcases hSkippable with hNone | ⟨rfl, hNext⟩ |
    ⟨rfl, hAcks⟩ | ⟨rfl, hEnds⟩
  · rcases effects_received_of_none hNone rest with
      ⟨hEffects, hUndisturbed⟩
    exact ⟨hEffects, hUndisturbed.mp⟩
  · rcases effects_of_endTest hNext with
      ⟨hEffects, hUndisturbed⟩
    rw [effects_received_endTest, hEffects]
    exact ⟨rfl, fun _ => hUndisturbed⟩
  · rcases effects_of_acksAgain hAcks with
      ⟨hEffects, hUndisturbed⟩
    exact ⟨hEffects, fun _ => hUndisturbed⟩
  · rcases effects_of_endsAgain hEnds with
      ⟨hEffects, hUndisturbed⟩
    rw [effects_received_endModeCommand, hEffects]
    exact ⟨rfl, fun _ => hUndisturbed⟩

/- An event that is refused is dispatched all the same. -/
theorem eventsOf_refused_ne
    {byte : Byte}
    {event : Event}
    (hByte : readEvt byte = some event)
    (hStays : (remoteFsm.dispatch .endModeReceived event).2 =
      .stays)
    (rest : List Byte) :
    eventsOf (effects (received true) (byte :: rest)) ≠
      eventsOf (effects (received true) rest) := by
  intro hSame
  rw [effects_received_refused hByte hStays] at hSame
  have hLength := congrArg List.length hSame
  have hCons : eventsOf (.dispatched event ::
      effects (received true) rest) =
        event :: eventsOf (effects (received true) rest) :=
    rfl
  rw [hCons, List.length_cons] at hLength
  omega

/-
  Exactly the bytes that may be lost leave the events as they
  are if they are lost.
-/
theorem skippable_iff
    (byte : Byte)
    (rest : List Byte) :
    eventsOf (effects (received true) (byte :: rest)) =
        eventsOf (effects (received true) rest) ↔
      Skippable byte rest := by
  constructor
  · intro hSame
    cases hByte : readEvt byte with
    | none => exact Or.inl hByte
    | some event =>
        have hOwn : ∀ other,
            readEvt other = some event → byte = other :=
          fun _ hOther => eq_of_readEvt_eq hByte hOther
        cases event with
        | timeout =>
            have hVal := (readEvt_eq_some_iff _ _).mp hByte
            simp only [Event.eventId] at hVal
            omega
        | availabilityModeCommand | throughputModeCommand
        | remoteAck =>
            exact absurd hSame
              (eventsOf_refused_ne hByte rfl rest)
        | endTest =>
            have hEnd := hOwn endTestId rfl
            subst hEnd
            rw [effects_received_endTest] at hSame
            exact Or.inr (Or.inl
              ⟨rfl, endTest_of_eventsOf hSame.symm⟩)
        | masterAck =>
            have hAck := hOwn masterAckId rfl
            subst hAck
            rw [effects_received_masterAck, eventsOf_append]
              at hSame
            exact Or.inr (Or.inr (Or.inl
              ⟨rfl, acksAgain_of_eventsOf hSame.symm⟩))
        | endModeCommand =>
            have hEnd := hOwn endModeCommandId rfl
            subst hEnd
            rw [effects_received_endModeCommand,
              eventsOf_append] at hSame
            exact Or.inr (Or.inr (Or.inr
              ⟨rfl, endsAgain_of_eventsOf hSame.symm⟩))
  · intro hSkippable
    rw [(effects_of_skippable hSkippable).1]

/- Losing bytes that may be lost changes nothing. -/
theorem effects_drop_of_harmless
    {count lost : Nat}
    {stream : List Byte}
    (hHarmless : Harmless count stream)
    (hUndisturbed : Undisturbed (received true) stream)
    (hLost : lost ≤ count) :
    effects (received true) (stream.drop lost) =
        effects (received true) stream ∧
      Undisturbed (received true) (stream.drop lost) := by
  induction lost generalizing count stream with
  | zero => exact ⟨rfl, hUndisturbed⟩
  | succ lost ih =>
      cases stream with
      | nil =>
          rw [List.drop_nil]
          exact ⟨rfl, trivial⟩
      | cons byte rest =>
          cases count with
          | zero => cases hLost
          | succ count =>
              rw [Harmless] at hHarmless
              rcases effects_of_skippable hHarmless.1 with
                ⟨hEffects, hRest⟩
              rw [List.drop_succ_cons, hEffects]
              exact ih hHarmless.2 (hRest hUndisturbed)
                (Nat.le_of_succ_le_succ hLost)

/-
  Bytes that give the same events from wherever they are
  read may be lost.
-/
theorem harmless_of_eventsOf
    {count : Nat}
    {stream : List Byte}
    (hSame : ∀ lost ≤ count, lost ≤ stream.length →
      eventsOf (effects (received true) (stream.drop lost)) =
        eventsOf (effects (received true) stream)) :
    Harmless count stream := by
  induction stream generalizing count with
  | nil => cases count <;> trivial
  | cons byte rest ih =>
      cases count with
      | zero => trivial
      | succ count =>
          have hFirst := hSame 1 (by omega) (by simp)
          rw [List.drop_succ_cons, List.drop_zero] at hFirst
          rw [Harmless]
          refine ⟨(skippable_iff byte rest).mp hFirst.symm,
            ih ?_⟩
          intro lost hLost hLength
          have hBoth := hSame (lost + 1) (by omega)
            (by rw [List.length_cons]; omega)
          rw [List.drop_succ_cons] at hBoth
          exact hBoth.trans hFirst.symm

------------------------------------------------------------
-- Undisturbed Streams
------------------------------------------------------------

namespace RemoteReads

open StepSystem

/- What is still to be read is undisturbed. -/
def Calm (s : RemoteReads) : Prop :=
  s.Live → Undisturbed s.point s.unread

theorem Yields.calm
    {s : RemoteReads}
    {log : List Observation}
    {rest : List Byte}
    {next : Option ReadPoint}
    (hYields : s.Yields log rest next)
    (hNext : UndisturbedFrom rest next) :
    s.Calm := by
  rcases hYields with ⟨-, hRest, hWhere⟩
  intro hLive
  cases next with
  | none => exact absurd hLive hWhere
  | some next =>
      rcases hWhere with ⟨-, hPoint⟩
      rw [hRest, hPoint]
      exact hNext

/-
  A long read in throughput mode does what its bytes would
  do one by one.
-/
theorem handleReceive_throughput
    {s : RemoteReads}
    {chunk : List Byte}
    (hPoint : s.point = .throughput false)
    (hArmed : s.armed = false)
    (hExited : s.exited = false)
    (hLength : chunk.length ≤ 255)
    (hCalm : Undisturbed (.throughput false)
      (chunk ++ s.unread)) :
    (s.handleReceive chunk).total =
        s.log ++ effects (.throughput false)
          (chunk ++ s.unread) ∧
      (s.handleReceive chunk).Calm := by
  have hState : s.point.state = .remoteThroughputMode := by
    rw [hPoint]
    rfl
  induction chunk generalizing s with
  | nil =>
      have hYields : (s.handleReceive []).Yields s.log
          s.unread (some (.throughput false)) :=
        ⟨rfl, rfl, ⟨hExited, Or.inl rfl⟩, by
          rw [handleReceive, hPoint]
          rfl⟩
      exact ⟨hYields.total_eq, hYields.calm hCalm⟩
  | cons byte bytes ih =>
      rw [List.length_cons] at hLength
      rw [List.cons_append] at hCalm ⊢
      rw [undisturbed_cons_iff] at hCalm
      rcases throughput_byte_cases byte with
        ⟨rfl, hByte⟩ | ⟨rfl, hByte⟩ | ⟨-, hByte⟩
      · -- what the read still holds may be lost
        have hAfter :
            afterByte (.throughput false) endModeCommandId =
              ([.dispatched .endModeCommand,
                .entered .endModeReceived],
                some (received true)) := by decide
        rw [hAfter] at hCalm
        rcases effects_drop_of_harmless (hCalm.1 rfl rfl)
            hCalm.2
            (Nat.le_of_succ_le_succ hLength : bytes.length ≤ 254)
          with ⟨hEffects, hRest⟩
        rw [List.drop_left] at hEffects hRest
        have hYields :=
          yields_endModeCommand hPoint hArmed hExited
        rw [handleReceive, hState, hByte]
        refine ⟨?_, hYields.calm hRest⟩
        rw [effects_cons, hAfter, afterwards, ← hEffects,
          ← List.append_assoc]
        exact hYields.total_eq
      · have hYields :=
          yields_dispatch .endTest hArmed hExited
        rw [hPoint] at hYields
        have hAfter : afterByte (.throughput false) endTestId =
            ([.dispatched .endTest], none) := by decide
        rw [handleReceive, hState, hByte]
        refine ⟨?_, hYields.calm trivial⟩
        rw [effects_cons, hAfter, afterwards, List.append_nil]
        exact hYields.total_eq.trans (List.append_nil _)
      · rcases handleReceive_cons (s := s) bytes
            (by rw [hState]; rfl) (by rw [hState]; exact hByte)
          with ⟨hLoop, hOn⟩
        have hRead : s.point.read = .throughput false := by
          rw [hPoint]
          rfl
        have hLog : (afterByte s.point byte).1 =
            (afterByte (.throughput false) byte).1 := by
          rw [hPoint]
        rw [hRead, hPoint] at hOn
        rw [hOn] at hCalm
        rw [hLoop, hLog, effects_cons, hOn, afterwards,
          ← List.append_assoc]
        exact ih (s := { s with
            log := s.log ++
              (afterByte (.throughput false) byte).1 })
          hPoint hArmed hExited (by omega) hCalm.2 hState

theorem live_of_read
    {s s' : RemoteReads}
    {size : Nat}
    (hStep : step s (.read size) = some s') :
    s.armed = true ∧ s.exited = false ∧ 1 ≤ size ∧
      size ≤ s.recvSize ∧ size ≤ s.unread.length := by
  simp only [step] at hStep
  split at hStep
  · cases hStep
  rename_i hOn
  split at hStep
  · cases hStep
  rename_i hSize
  refine ⟨?_, ?_, by omega, by omega, by omega⟩
  · simpa using fun hArmed => hOn (Or.inr hArmed)
  · simpa using fun hExited => hOn (Or.inl hExited)

/- A byte read alone, where nothing is lost. -/
theorem Yields.total_of_unread
    {s s' : RemoteReads}
    {byte : Byte}
    {bytes : List Byte}
    (hLive : s.Live)
    (hUnread : s.unread = byte :: bytes)
    (hYields : s'.Yields
      (s.log ++ (afterByte s.point byte).1) bytes
      (afterByte s.point byte).2) :
    s'.total = s.total := by
  rw [hYields.total_eq, total, if_pos hLive, hUnread,
    effects_cons, List.append_assoc]

/- No read and no timeout changes what happens in all. -/
theorem total_of_step
    {s s' : RemoteReads}
    {label : ReadLabel}
    (hCalm : s.Calm)
    (hStep : step s label = some s') :
    s'.total = s.total ∧ s'.Calm := by
  cases label with
  | timeout =>
      simp only [step] at hStep
      split at hStep
      · cases hStep
      rename_i hOn
      have hExited : s.exited = false := by
        simpa using fun hExited => hOn (Or.inl hExited)
      have hTimer : s.point.timer = true := by
        simpa using fun hTimer => hOn (Or.inr hTimer)
      have hLive : s.Live := ⟨hExited, Or.inr hTimer⟩
      rw [dispatchTimeout_eq hTimer, Option.some.injEq]
        at hStep
      subst hStep
      have hLive' :
          ({ s with armed := true } : RemoteReads).Live :=
        ⟨hExited, Or.inl rfl⟩
      refine ⟨?_, fun _ => hCalm hLive⟩
      rw [total, total, if_pos hLive, if_pos hLive']
  | read size =>
      rcases live_of_read hStep with
        ⟨hArmed, hExited, hPos, hBuffer, hSome⟩
      have hLive : s.Live := ⟨hExited, Or.inl hArmed⟩
      have hFree := hCalm hLive
      by_cases hLong : s.point.state = .remoteThroughputMode ∧
          s.point.fresh = false
      · have hSplit := List.take_append_drop size s.unread
        have hKind : s.point.state.kind = .activity := by
          rw [hLong.1]
          rfl
        have hPoint : s.point = .throughput false := by
          refine ReadPoint.ext hLong.1 hLong.2 ?_
          cases hTimer : s.point.timer with
          | false => rfl
          | true =>
              have hTimed := s.point.timed hTimer
              rw [hKind] at hTimed
              cases hTimed.1
        rw [step_of_activity hArmed hExited hKind hPos hBuffer
          hSome, Option.some.injEq] at hStep
        subst hStep
        rw [recvSize, if_pos hLong] at hBuffer
        have hChunk : (s.unread.take size).length ≤ 255 := by
          rw [List.length_take]
          omega
        rw [hPoint, ← hSplit] at hFree
        have hResult := handleReceive_throughput
          (s := { s with
            armed := false, unread := s.unread.drop size })
          hPoint rfl hExited hChunk hFree
        refine ⟨?_, hResult.2⟩
        rw [hResult.1, hSplit, total, if_pos hLive, hPoint]
      · have hOne : size = 1 := by
          rw [recvSize, if_neg hLong] at hBuffer
          omega
        subst hOne
        cases hUnread : s.unread with
        | nil =>
            rw [hUnread] at hSome
            cases hSome
        | cons byte bytes =>
            rcases exists_step_one hArmed hExited hUnread with
              ⟨s₁, hFirst, hYields⟩
            rw [hStep, Option.some.injEq] at hFirst
            subst hFirst
            rw [hUnread, undisturbed_cons_iff] at hFree
            exact ⟨hYields.total_of_unread hLive hUnread,
              hYields.calm hFree.2⟩

/- Whatever the reads, they end with the same log. -/
theorem log_of_run
    {s s' : RemoteReads}
    {labels : List ReadLabel}
    (hCalm : s.Calm)
    (hRun : run step s labels = some s')
    (hFinished : s'.Finished) :
    s'.log = s.total := by
  have hInvariant :
      s'.Calm ∧ s'.total = s.total :=
    run_invariant (I := fun r => r.Calm ∧ r.total = s.total)
      (fun r label r' hHolds hStep => by
        rcases total_of_step hHolds.1 hStep with
          ⟨hTotal, hNext⟩
        exact ⟨hNext, hTotal.trans hHolds.2⟩)
      ⟨hCalm, rfl⟩ hRun
  rw [← total_of_finished hFinished, hInvariant.2]

------------------------------------------------------------
-- Disturbed Streams
------------------------------------------------------------

/- Every stream can be read byte by byte to its end. -/
theorem exists_run_byByte (s : RemoteReads) :
    ∃ labels s', run step s labels = some s' ∧
      s'.Finished ∧ s'.log = s.total := by
  induction hStream : s.unread generalizing s with
  | nil =>
      have hFinished : s.Finished := fun _ => hStream
      exact ⟨[], s, rfl, hFinished,
        (total_of_finished hFinished).symm⟩
  | cons byte bytes ih =>
      by_cases hLive : s.Live
      · rcases exists_run_one hLive hStream with
          ⟨labels, s₁, hFirst, hYields⟩
        have hTotal := hYields.total_of_unread hLive hStream
        rcases ih s₁ hYields.2.1 with
          ⟨labels', s', hRun, hEnd, hLog⟩
        exact ⟨labels ++ labels', s',
          by rw [run_append hFirst, hRun], hEnd,
          hLog.trans hTotal⟩
      · have hFinished : s.Finished := fun hOn =>
          absurd hOn hLive
        exact ⟨[], s, rfl, hFinished,
          (total_of_finished hFinished).symm⟩

/- Byte by byte, the disturbing command is reached. -/
theorem exists_run_to_command
    {s : RemoteReads}
    (hLive : s.Live)
    (hDisturbed : ¬ Undisturbed s.point s.unread) :
    ∃ labels s' bytes, run step s labels = some s' ∧
      s'.Live ∧ s'.point = .throughput false ∧
      s'.unread = endModeCommandId :: bytes ∧
      ¬ Harmless 254 bytes := by
  induction hStream : s.unread generalizing s with
  | nil =>
      rw [hStream] at hDisturbed
      exact absurd trivial hDisturbed
  | cons byte bytes ih =>
      rw [hStream, undisturbed_cons_iff] at hDisturbed
      by_cases hHere : s.point = .throughput false →
          byte = endModeCommandId → Harmless 254 bytes
      · rcases exists_run_one hLive hStream with
          ⟨labels, s₁, hFirst, hYields⟩
        rcases hYields with ⟨-, hRest, hWhere⟩
        have hLater : ¬ UndisturbedFrom bytes
            (afterByte s.point byte).2 := fun hNext =>
          hDisturbed ⟨hHere, hNext⟩
        cases hAfter : (afterByte s.point byte).2 with
        | none =>
            rw [hAfter] at hLater
            exact absurd trivial hLater
        | some next =>
            rw [hAfter] at hLater hWhere
            rcases hWhere with ⟨hOn, hPoint⟩
            rcases ih hOn (by rw [hPoint, hRest]; exact hLater)
                hRest with
              ⟨labels', s', others, hRun, hCommand⟩
            exact ⟨labels ++ labels', s', others,
              by rw [run_append hFirst, hRun], hCommand⟩
      · rw [Classical.not_imp, Classical.not_imp] at hHere
        rcases hHere with ⟨hPoint, rfl, hHarm⟩
        exact ⟨[], s, bytes, rfl, hLive, hPoint, hStream,
          hHarm⟩

/- A read of the command and of bytes that it loses. -/
theorem exists_step_losing
    {s : RemoteReads}
    {bytes : List Byte}
    {lost : Nat}
    (hLive : s.Live)
    (hPoint : s.point = .throughput false)
    (hUnread : s.unread = endModeCommandId :: bytes)
    (hLost : lost ≤ 254)
    (hLength : lost ≤ bytes.length) :
    ∃ s', step s (.read (lost + 1)) = some s' ∧
      s'.total = s.log ++
        ([.dispatched .endModeCommand,
          .entered .endModeReceived] ++
          effects (received true) (bytes.drop lost)) := by
  have hState : s.point.state = .remoteThroughputMode := by
    rw [hPoint]
    rfl
  have hFresh : s.point.fresh = false := by
    rw [hPoint]
    rfl
  have hArmed : s.armed = true := by
    refine hLive.2.resolve_right ?_
    rw [hPoint]
    exact Bool.false_ne_true
  have hKind : s.point.state.kind = .activity := by
    rw [hState]
    rfl
  have hBuffer : lost + 1 ≤ s.recvSize := by
    rw [recvSize, if_pos ⟨hState, hFresh⟩]
    omega
  have hSome : lost + 1 ≤ s.unread.length := by
    rw [hUnread, List.length_cons]
    omega
  have hByte : s.point.state.handleByte endModeCommandId =
      .dispatch .endModeCommand := by
    rw [hState]
    decide
  refine ⟨_, step_of_activity hArmed hLive.1 hKind (by omega)
    hBuffer hSome, ?_⟩
  have hYields := yields_endModeCommand
    (s := { s with
      armed := false, unread := bytes.drop lost })
    hPoint rfl hLive.1
  rw [hUnread, List.take_succ_cons, List.drop_succ_cons,
    handleReceive, hByte, ← List.append_assoc]
  exact hYields.total_eq

/-
  Read boundaries do not matter for a stream if and only if
  it is undisturbed.
-/
theorem boundaryFree_iff
    (fresh : Bool)
    (stream : List Byte) :
    BoundaryFree fresh stream ↔
      Undisturbed (.throughput fresh) stream := by
  constructor
  · intro hFree
    by_contra hDisturbed
    rcases exists_run_to_command
        (s := start fresh stream) ⟨rfl, Or.inl rfl⟩
        hDisturbed with
      ⟨labels, s, bytes, hRun, hLive, hPoint, hUnread, hHarm⟩
    refine hHarm (harmless_of_eventsOf ?_)
    intro lost hLost hLength
    rcases exists_step_losing hLive hPoint hUnread hLost
        hLength with ⟨s₁, hStep₁, hTotal₁⟩
    rcases exists_step_losing hLive hPoint hUnread
        (Nat.zero_le _) (Nat.zero_le _) with
      ⟨s₂, hStep₂, hTotal₂⟩
    rcases exists_run_byByte s₁ with
      ⟨rest₁, s₁', hRun₁, hEnd₁, hLog₁⟩
    rcases exists_run_byByte s₂ with
      ⟨rest₂, s₂', hRun₂, hEnd₂, hLog₂⟩
    have hWhole₁ : run step (start fresh stream)
        (labels ++ .read (lost + 1) :: rest₁) = some s₁' := by
      rw [run_append hRun, run_cons_of_step hStep₁, hRun₁]
    have hWhole₂ : run step (start fresh stream)
        (labels ++ .read (0 + 1) :: rest₂) = some s₂' := by
      rw [run_append hRun, run_cons_of_step hStep₂, hRun₂]
    have hEvents :=
      (hFree _ _ _ _ hWhole₁ hWhole₂ hEnd₁ hEnd₂).1
    rw [hLog₁, hLog₂, hTotal₁, hTotal₂, eventsOf_append,
      eventsOf_append, eventsOf_append, eventsOf_append,
      List.append_cancel_left_eq, List.append_cancel_left_eq,
      List.drop_zero] at hEvents
    exact hEvents
  · intro hUndisturbed labels labels' s s' hRun hRun' hEnd
      hEnd'
    have hCalm : (start fresh stream).Calm :=
      fun _ => hUndisturbed
    rw [log_of_run hCalm hRun hEnd,
      log_of_run hCalm hRun' hEnd']
    exact ⟨rfl, rfl, rfl⟩

/- Refused events are dispatched as often as they are read. -/
example : ¬ Undisturbed (.throughput true)
    (1 :: endModeCommandId :: List.replicate 255 remoteAckId) :=
  by decide

/-
  The end of the mode with the acknowledgement right behind
  it: read alone, or in one read with the command.
-/
theorem exists_not_boundaryFree :
    ¬ BoundaryFree true
      [1, endModeCommandId, masterAckId] := by
  intro hFree
  have hEvents :=
    (hFree [.read 1, .read 1, .read 1] [.read 1, .read 2]
      _ _ rfl rfl (by decide) (by decide)).1
  revert hEvents
  decide

end RemoteReads

end ModemTester
