import ModemTester.Script.ScriptLaw

/-
  What a script dispatches after it was stopped or started
  again.

  `cancel` does not reach a handler that is queued, and the
  handlers look at the error code only. The past is silent
  in exactly those runs in which nobody stops or starts the
  script while a handler that will act is queued. A restart
  by the script itself never does: its handler is the last
  one of its cycle.

  Key definitions include:
    * `ScriptRun.OfLatest`
    * `ScriptRun.Quiet`

  Main declarations:
    * `ScriptRun.silent_iff_quiet`
    * `ScriptRun.dispatched_after_stop`
-/

------------------------------------------------------------
-- Handlers That Act
------------------------------------------------------------

namespace ModemTester

/- The handler dispatches an event or starts the script. -/
def ScriptWait.acts (wait : ScriptWait) : Bool :=
  match wait.handler with
  | .handleTimer id => (dispatchEventFromId id).isSome
  | .restartScript => true

def ScriptCompletion.acts (completion : ScriptCompletion) :
    Bool :=
  completion.success && completion.wait.acts

namespace ScriptRun

/-
  What is dispatched or restarted comes from a timer of the
  latest start, and of none if the script was stopped since.
-/
def OfLatest (s : ScriptRun) : ScriptLabel → Prop
  | .handle _ =>
      ∀ completion ∈ s.ready.head?, completion.acts = true →
        completion.wait.timer ∈ s.timers
  | _ => True

instance (s : ScriptRun) : DecidablePred s.OfLatest
  | .handle _ =>
      match h : s.ready.head? with
      | none => .isTrue (by simp [OfLatest, h])
      | some completion =>
          decidable_of_iff
            (completion.acts = true →
              completion.wait.timer ∈ s.timers)
            (by simp [OfLatest, h])
  | .expire => .isTrue trivial
  | .startScript _ => .isTrue trivial
  | .stopScript => .isTrue trivial

/- No handler that will act is queued. -/
def NothingQueued (s : ScriptRun) : Prop :=
  ∀ completion ∈ s.ready, completion.acts = false

instance (s : ScriptRun) : Decidable s.NothingQueued :=
  inferInstanceAs
    (Decidable (∀ completion ∈ s.ready,
      completion.acts = false))

/- Calls from outside come when nothing is queued. -/
def Quiet (s : ScriptRun) : ScriptLabel → Prop
  | .startScript _ => s.NothingQueued
  | .stopScript => s.NothingQueued
  | _ => True

instance (s : ScriptRun) : DecidablePred s.Quiet
  | .startScript _ =>
      inferInstanceAs (Decidable s.NothingQueued)
  | .stopScript => inferInstanceAs (Decidable s.NothingQueued)
  | .expire => .isTrue trivial
  | .handle _ => .isTrue trivial

end ScriptRun

end ModemTester

------------------------------------------------------------
-- Quiet Runs
------------------------------------------------------------

namespace ModemTester

/- No restart stands before another wait. -/
def RestartsLast (waits : List ScriptWait) : Prop :=
  waits.Pairwise fun wait _ => wait.handler ≠ .restartScript

theorem Script.restartsLast_waitsAt
    (script : Script)
    (cycle : Nat)
    (begin : Int) :
    RestartsLast (script.waitsAt cycle begin) := by
  have hEvents : ∀ entries : List (Int × EventId),
      RestartsLast
        (entries.map (Script.eventWait cycle begin)) := by
    intro entries
    unfold RestartsLast
    rw [List.pairwise_map]
    exact List.pairwise_of_forall (by simp [Script.eventWait])
  cases hCyclic : script.cyclic with
  | false =>
      rw [Script.waitsAt_of_not_cyclic hCyclic]
      exact hEvents _
  | true =>
      by_cases hEmpty : script.entries = []
      · simp [RestartsLast, Script.waitsAt, hEmpty]
      · rcases Script.waitsAt_of_cyclic hCyclic hEmpty cycle
          begin with ⟨timer, hWaits⟩
        rw [hWaits]
        apply List.pairwise_append.mpr
        refine ⟨hEvents _, List.pairwise_singleton _ _, ?_⟩
        intro wait hWait last _
        rcases List.mem_map.mp hWait with ⟨entry, -, rfl⟩
        simp [Script.eventWait]

namespace ScriptRun

/- The waits whose handlers will act if nobody interferes. -/
def acting (s : ScriptRun) : List ScriptWait :=
  (s.ready.filter ScriptCompletion.acts).map
    ScriptCompletion.wait ++ s.waiting

/- What is queued and acts is of the latest start. -/
structure Current (s : ScriptRun) : Prop where
  waits : s.WaitsOnTimers
  queued : ∀ completion ∈ s.ready, completion.acts = true →
    completion.wait.timer ∈ s.timers
  restarts : RestartsLast s.acting

theorem current_initial : Current initial := by
  constructor
  · simp [WaitsOnTimers, initial]
  · simp [initial]
  · simp [RestartsLast, acting, initial]

/- A cancelled handler does not act. -/
theorem acts_of_mem_cancelled
    {waits : List ScriptWait}
    {completion : ScriptCompletion}
    (hMem : completion ∈
      waits.map fun wait => ⟨wait, false⟩) :
    completion.acts = false := by
  rcases List.mem_map.mp hMem with ⟨wait, -, rfl⟩
  rfl

/- With the waits that a call cancels, nothing is queued. -/
theorem acts_of_mem_ready_append
    {s : ScriptRun}
    {completion : ScriptCompletion}
    (hNothing : s.NothingQueued)
    (hMem : completion ∈ s.ready ++
      s.waiting.map fun wait => ⟨wait, false⟩) :
    completion.acts = false := by
  rcases List.mem_append.mp hMem with hOld | hCancelled
  · exact hNothing completion hOld
  · exact acts_of_mem_cancelled hCancelled

theorem filter_acts_eq_nil
    {completions : List ScriptCompletion}
    (hNone : ∀ completion ∈ completions,
      completion.acts = false) :
    completions.filter ScriptCompletion.acts = [] := by
  apply List.filter_eq_nil_iff.mpr
  intro completion hMem
  simp [hNone completion hMem]

theorem current_startScript
    {script : Script}
    {s : ScriptRun}
    (hWaits : s.WaitsOnTimers)
    (hNothing : s.NothingQueued)
    (now : Int) :
    (s.startScript script now).Current := by
  refine ⟨waitsOnTimers_startScript hWaits now, ?_, ?_⟩
  · rw [startScript_of_waitsOnTimers hWaits]
    intro completion hMem hActs
    rw [acts_of_mem_ready_append hNothing hMem] at hActs
    cases hActs
  · rw [startScript_of_waitsOnTimers hWaits]
    simp only [acting, filter_acts_eq_nil fun _ hMem =>
      acts_of_mem_ready_append hNothing hMem]
    exact script.restartsLast_waitsAt _ _

theorem current_stopScript
    {s : ScriptRun}
    (hWaits : s.WaitsOnTimers)
    (hNothing : s.NothingQueued) :
    s.stopScript.Current := by
  rw [stopScript_of_waitsOnTimers hWaits]
  refine ⟨by simp [WaitsOnTimers], ?_, ?_⟩
  · intro completion hMem hActs
    rw [acts_of_mem_ready_append hNothing hMem] at hActs
    cases hActs
  · simp only [acting, filter_acts_eq_nil fun _ hMem =>
      acts_of_mem_ready_append hNothing hMem]
    exact List.Pairwise.nil

theorem Current.expire
    {s : ScriptRun}
    {wait : ScriptWait}
    {waiting : List ScriptWait}
    (hCurrent : s.Current)
    (hWaiting : s.waiting = wait :: waiting) :
    Current
      { s with
        waiting := waiting
        ready := s.ready ++ [⟨wait, true⟩] } := by
  have hWaits := hCurrent.waits
  rw [WaitsOnTimers, hWaiting] at hWaits
  constructor
  · intro other hMem
    exact hWaits other (List.mem_cons_of_mem _ hMem)
  · intro completion hMem hActs
    rcases List.mem_append.mp hMem with hOld | hNew
    · exact hCurrent.queued completion hOld hActs
    · rw [List.mem_singleton.mp hNew]
      exact hWaits wait List.mem_cons_self
  · refine hCurrent.restarts.sublist ?_
    simp only [acting, hWaiting, List.filter_append,
      List.map_append, List.append_assoc]
    refine List.Sublist.append_left ?_ _
    cases hActs : ScriptCompletion.acts ⟨wait, true⟩ with
    | true => simp [hActs]
    | false => simp [hActs]

/- A handler that is done leaves the others. -/
theorem Current.handled
    {s : ScriptRun}
    {completion : ScriptCompletion}
    {ready : List ScriptCompletion}
    (hCurrent : s.Current)
    (hReady : s.ready = completion :: ready)
    (dispatched : List Event) :
    Current
      { s with ready := ready, dispatched := dispatched } := by
  refine ⟨hCurrent.waits, ?_, ?_⟩
  · intro other hMem
    apply hCurrent.queued
    rw [hReady]
    exact List.mem_cons_of_mem _ hMem
  · refine hCurrent.restarts.sublist ?_
    simp only [acting, hReady]
    refine List.Sublist.append_right ?_ _
    refine List.Sublist.map _ ?_
    exact (List.sublist_cons_self _ _).filter _

/- A restart finds nothing queued behind it. -/
theorem Current.nothingQueued_of_restart
    {s : ScriptRun}
    {completion : ScriptCompletion}
    {ready : List ScriptCompletion}
    (hCurrent : s.Current)
    (hReady : s.ready = completion :: ready)
    (hSuccess : completion.success = true)
    (hRestart : completion.wait.handler = .restartScript) :
    ∀ other ∈ ready, other.acts = false := by
  have hActs : completion.acts = true := by
    simp [ScriptCompletion.acts, ScriptWait.acts, hSuccess,
      hRestart]
  have hRestarts := hCurrent.restarts
  simp only [RestartsLast, acting, hReady,
    List.filter_cons_of_pos hActs, List.map_cons,
    List.cons_append, List.pairwise_cons] at hRestarts
  intro other hMem
  cases hOther : other.acts with
  | false => rfl
  | true =>
      refine absurd hRestart
        (hRestarts.1 other.wait (List.mem_append_left _ ?_))
      exact List.mem_map_of_mem
        (List.mem_filter.mpr ⟨hMem, hOther⟩)

/- A quiet step keeps the script current. -/
theorem Current.step
    {script : Script}
    {s s' : ScriptRun}
    {label : ScriptLabel}
    (hCurrent : s.Current)
    (hQuiet : s.Quiet label)
    (hStep : step script s label = some s') :
    s'.Current := by
  cases label with
  | startScript now =>
      cases hStep
      exact current_startScript hCurrent.waits hQuiet now
  | stopScript =>
      cases hStep
      exact current_stopScript hCurrent.waits hQuiet
  | expire =>
      simp only [ScriptRun.step] at hStep
      split at hStep
      · rename_i wait waiting hWaiting
        cases hStep
        exact hCurrent.expire hWaiting
      · cases hStep
  | handle now =>
      simp only [ScriptRun.step] at hStep
      split at hStep
      · rename_i completion ready hReady
        cases hStep
        unfold runHandler
        split
        · rename_i hSuccess
          split
          · exact hCurrent.handled hReady _
          · rename_i hRestart
            apply current_startScript
            · exact hCurrent.waits
            · exact hCurrent.nothingQueued_of_restart hReady
                hSuccess hRestart
        · exact hCurrent.handled hReady _
      · cases hStep

theorem Current.ofLatest
    {s : ScriptRun}
    (hCurrent : s.Current)
    (label : ScriptLabel) :
    s.OfLatest label := by
  cases label with
  | handle now =>
      intro completion hHead
      exact hCurrent.queued completion
        (List.mem_of_mem_head? hHead)
  | expire => trivial
  | startScript now => trivial
  | stopScript => trivial

end ScriptRun

end ModemTester

------------------------------------------------------------
-- Runs That Are Not Quiet
------------------------------------------------------------

namespace ModemTester

namespace ScriptRun

/- Timers are of the latest start, handlers of none later. -/
structure Numbered (s : ScriptRun) : Prop where
  waits : s.WaitsOnTimers
  timers : ∀ timer ∈ s.timers, timer.cycle = s.starts
  ready : ∀ completion ∈ s.ready,
    completion.wait.timer.cycle ≤ s.starts

theorem numbered_initial : Numbered initial := by
  constructor
  · simp [WaitsOnTimers, initial]
  · simp [initial]
  · simp [initial]

/- So are the handlers of the waits that a call cancels. -/
theorem Numbered.ready_append
    {s : ScriptRun}
    {completion : ScriptCompletion}
    (hNumbered : s.Numbered)
    (hMem : completion ∈ s.ready ++
      s.waiting.map fun wait => ⟨wait, false⟩) :
    completion.wait.timer.cycle ≤ s.starts := by
  rcases List.mem_append.mp hMem with hOld | hCancelled
  · exact hNumbered.ready completion hOld
  · rcases List.mem_map.mp hCancelled with
      ⟨wait, hWait, rfl⟩
    exact Nat.le_of_eq
      (hNumbered.timers _ (hNumbered.waits wait hWait))

theorem Numbered.startScript
    {script : Script}
    {s : ScriptRun}
    (hNumbered : s.Numbered)
    (now : Int) :
    (s.startScript script now).Numbered := by
  refine ⟨waitsOnTimers_startScript hNumbered.waits now, ?_,
    ?_⟩
  · rw [startScript_of_waitsOnTimers hNumbered.waits]
    intro timer hMem
    exact Script.cycle_of_mem_timersAt hMem
  · rw [startScript_of_waitsOnTimers hNumbered.waits]
    intro completion hMem
    exact Nat.le_succ_of_le (hNumbered.ready_append hMem)

theorem Numbered.stopScript
    {s : ScriptRun}
    (hNumbered : s.Numbered) :
    s.stopScript.Numbered := by
  rw [stopScript_of_waitsOnTimers hNumbered.waits]
  refine ⟨by simp [WaitsOnTimers], by simp, ?_⟩
  intro completion hMem
  exact hNumbered.ready_append hMem

/- A handler that is done changes nothing in this. -/
theorem Numbered.handled
    {s : ScriptRun}
    {completion : ScriptCompletion}
    {ready : List ScriptCompletion}
    (hNumbered : s.Numbered)
    (hReady : s.ready = completion :: ready)
    (restarts : Nat)
    (dispatched : List Event) :
    Numbered
      { s with
        ready := ready
        restarts := restarts
        dispatched := dispatched } := by
  refine ⟨hNumbered.waits, hNumbered.timers, ?_⟩
  intro other hMem
  apply hNumbered.ready
  rw [hReady]
  exact List.mem_cons_of_mem _ hMem

theorem Numbered.step
    {script : Script}
    {s s' : ScriptRun}
    {label : ScriptLabel}
    (hNumbered : s.Numbered)
    (hStep : step script s label = some s') :
    s'.Numbered := by
  cases label with
  | startScript now =>
      cases hStep
      exact hNumbered.startScript now
  | stopScript =>
      cases hStep
      exact hNumbered.stopScript
  | expire =>
      simp only [ScriptRun.step] at hStep
      split at hStep
      · rename_i wait waiting hWaiting
        cases hStep
        have hWaits := hNumbered.waits
        rw [WaitsOnTimers, hWaiting] at hWaits
        refine ⟨?_, hNumbered.timers, ?_⟩
        · intro other hMem
          exact hWaits other (List.mem_cons_of_mem _ hMem)
        · intro completion hMem
          rcases List.mem_append.mp hMem with hOld | hNew
          · exact hNumbered.ready completion hOld
          · rw [List.mem_singleton.mp hNew]
            exact Nat.le_of_eq (hNumbered.timers _
              (hWaits wait List.mem_cons_self))
      · cases hStep
  | handle now =>
      simp only [ScriptRun.step] at hStep
      split at hStep
      · rename_i completion ready hReady
        cases hStep
        unfold runHandler
        split
        · split
          · exact hNumbered.handled hReady _ _
          · exact (hNumbered.handled hReady _ _).startScript
              now
        · exact hNumbered.handled hReady _ _
      · cases hStep

/- A handler of the past is queued, and will act. -/
def Stale (s : ScriptRun) : Prop :=
  ∃ completion ∈ s.ready, completion.acts = true ∧
    completion.wait.timer ∉ s.timers

/- A timer of the past is not among those of a new start. -/
theorem Numbered.not_mem_timersAt
    {script : Script}
    {s : ScriptRun}
    {completion : ScriptCompletion}
    (hNumbered : s.Numbered)
    (hMem : completion ∈ s.ready)
    (begin : Int) :
    completion.wait.timer ∉
      script.timersAt (s.starts + 1) begin := by
  intro hTimer
  have hCycle := Script.cycle_of_mem_timersAt hTimer
  have hLe := hNumbered.ready completion hMem
  omega

theorem stale_startScript
    {script : Script}
    {s : ScriptRun}
    {completion : ScriptCompletion}
    (hNumbered : s.Numbered)
    (hMem : completion ∈ s.ready)
    (hActs : completion.acts = true)
    (now : Int) :
    (s.startScript script now).Stale := by
  rw [startScript_of_waitsOnTimers hNumbered.waits]
  exact ⟨completion, List.mem_append_left _ hMem, hActs,
    hNumbered.not_mem_timersAt hMem now⟩

theorem stale_stopScript
    {s : ScriptRun}
    {completion : ScriptCompletion}
    (hMem : completion ∈ s.ready)
    (hActs : completion.acts = true) :
    s.stopScript.Stale :=
  ⟨completion, List.mem_append_left _ hMem, hActs,
    List.not_mem_nil⟩

/- A handler queues more at most, and no timers of the past. -/
theorem exists_ready_runHandler
    (script : Script)
    (s : ScriptRun)
    (completion : ScriptCompletion)
    (hWaits : s.WaitsOnTimers)
    (now : Int) :
    ∃ more, (runHandler script now s completion).ready =
      s.ready ++ more := by
  unfold runHandler
  split
  · split
    · exact ⟨[], (List.append_nil _).symm⟩
    · rw [startScript_of_waitsOnTimers
        (s := { s with restarts := s.restarts + 1 }) hWaits]
      exact ⟨_, rfl⟩
  · exact ⟨[], (List.append_nil _).symm⟩

theorem not_mem_timers_runHandler
    {script : Script}
    {s : ScriptRun}
    {completion stale : ScriptCompletion}
    (hNumbered : s.Numbered)
    (hMem : stale ∈ s.ready)
    (hPast : stale.wait.timer ∉ s.timers)
    (now : Int) :
    stale.wait.timer ∉
      (runHandler script now s completion).timers := by
  unfold runHandler
  split
  · split
    · exact hPast
    · rw [startScript_of_waitsOnTimers
        (s := { s with restarts := s.restarts + 1 })
        hNumbered.waits]
      exact hNumbered.not_mem_timersAt hMem now
  · exact hPast

/- A call that is not quiet leaves a handler of the past. -/
theorem stale_of_not_quiet
    {script : Script}
    {s s' : ScriptRun}
    {label : ScriptLabel}
    (hNumbered : s.Numbered)
    (hNot : ¬ s.Quiet label)
    (hStep : step script s label = some s') :
    s'.Stale := by
  have hQueued : ∀ {s : ScriptRun}, ¬ s.NothingQueued →
      ∃ completion ∈ s.ready, completion.acts = true := by
    intro s hSome
    simpa [NothingQueued] using hSome
  cases label with
  | startScript now =>
      rcases hQueued hNot with ⟨completion, hMem, hActs⟩
      cases hStep
      exact stale_startScript hNumbered hMem hActs now
  | stopScript =>
      rcases hQueued hNot with ⟨completion, hMem, hActs⟩
      cases hStep
      exact stale_stopScript hMem hActs
  | expire => exact absurd trivial hNot
  | handle now => exact absurd trivial hNot

/- It stays queued until it is run. -/
theorem Stale.step
    {script : Script}
    {s s' : ScriptRun}
    {label : ScriptLabel}
    (hStale : s.Stale)
    (hNumbered : s.Numbered)
    (hLatest : s.OfLatest label)
    (hStep : step script s label = some s') :
    s'.Stale := by
  rcases hStale with ⟨stale, hMem, hActs, hPast⟩
  cases label with
  | startScript now =>
      cases hStep
      exact stale_startScript hNumbered hMem hActs now
  | stopScript =>
      cases hStep
      exact stale_stopScript hMem hActs
  | expire =>
      simp only [ScriptRun.step] at hStep
      split at hStep
      · cases hStep
        exact ⟨stale, List.mem_append_left _ hMem, hActs,
          hPast⟩
      · cases hStep
  | handle now =>
      simp only [ScriptRun.step] at hStep
      split at hStep
      · rename_i completion ready hReady
        cases hStep
        have hOther : stale ≠ completion := by
          intro hSame
          refine hPast (hLatest stale ?_ hActs)
          simp [hReady, hSame]
        rw [hReady] at hMem
        have hRest : stale ∈ ready :=
          (List.mem_cons.mp hMem).resolve_left hOther
        have hHanded := hNumbered.handled hReady s.restarts
          s.dispatched
        rcases exists_ready_runHandler script _ completion
          hHanded.waits now with ⟨more, hMore⟩
        refine ⟨stale, ?_, hActs,
          not_mem_timers_runHandler hHanded hRest hPast now⟩
        rw [hMore]
        exact List.mem_append_left _ hRest
      · cases hStep

------------------------------------------------------------
-- Silence
------------------------------------------------------------

open StepSystem

variable {script : Script}
variable {s s' : ScriptRun}
variable {labels : List ScriptLabel}

/- In a quiet run every handler that acts is current. -/
theorem ofLatest_of_quiet
    (hCurrent : s.Current)
    (hQuiet : Along (step script) Quiet s labels) :
    Along (step script) OfLatest s labels :=
  along_of_along
    (fun _ _ _ hCurrent hQuiet hStep =>
      hCurrent.step hQuiet hStep)
    (fun _ label _ hCurrent _ _ => hCurrent.ofLatest label)
    hCurrent hQuiet

/-
  A handler of the past acts when those queued before it
  have run.
-/
theorem not_along_of_queued
    {front back : List ScriptCompletion}
    {stale : ScriptCompletion}
    (hNumbered : s.Numbered)
    (hReady : s.ready = front ++ stale :: back)
    (hActs : stale.acts = true)
    (hPast : stale.wait.timer ∉ s.timers) :
    ¬ Along (step script) OfLatest s
      ((List.replicate (front.length + 1) 0).map .handle) := by
  induction front generalizing s back with
  | nil =>
      intro hAlong
      rw [List.nil_append] at hReady
      have hStep : step script s (.handle 0) =
          some (runHandler script 0 { s with ready := back }
            stale) := by
        simp [step, hReady]
      rw [List.length_nil, List.replicate_succ, List.map_cons,
        along_cons_of_step hStep] at hAlong
      exact hPast (hAlong.1 stale (by simp [hReady]) hActs)
  | cons completion front ih =>
      intro hAlong
      rw [List.cons_append] at hReady
      have hStep : step script s (.handle 0) =
          some (runHandler script 0
            { s with ready := front ++ stale :: back }
            completion) := by
        simp [step, hReady]
      rw [List.length_cons, List.replicate_succ, List.map_cons,
        along_cons_of_step hStep] at hAlong
      rcases exists_ready_runHandler script
        { s with ready := front ++ stale :: back } completion
        (hNumbered.handled hReady _ _).waits 0 with
        ⟨more, hMore⟩
      refine @ih _ (back ++ more) (hNumbered.step hStep) ?_ ?_
        hAlong.2
      · rw [hMore]
        simp
      · refine not_mem_timers_runHandler
          (hNumbered.handled hReady _ _) ?_ hPast 0
        simp

/- So it does in some run that goes on. -/
theorem exists_not_along_of_stale
    (script : Script)
    (hNumbered : s.Numbered)
    (hStale : s.Stale) :
    ∃ nows : List Int,
      ¬ Along (step script) OfLatest s (nows.map .handle) := by
  rcases hStale with ⟨stale, hMem, hActs, hPast⟩
  rcases List.append_of_mem hMem with ⟨front, back, hReady⟩
  exact ⟨_, not_along_of_queued hNumbered hReady hActs hPast⟩

/- A run that is current however it goes on is quiet. -/
theorem quiet_of_ofLatest
    (hNumbered : s.Numbered)
    (hRun : run (step script) s labels = some s')
    (hLatest : ∀ nows : List Int,
      Along (step script) OfLatest s
        (labels ++ nows.map .handle)) :
    Along (step script) Quiet s labels := by
  induction labels generalizing s with
  | nil => simp
  | cons label labels ih =>
      rcases exists_step_of_run_cons hRun with
        ⟨s₁, hStep, hRest⟩
      have hNumbered₁ := hNumbered.step hStep
      have hLatest₁ : ∀ nows : List Int,
          Along (step script) OfLatest s₁
            (labels ++ nows.map .handle) := by
        intro nows
        have hAll := hLatest nows
        rw [List.cons_append, along_cons_of_step hStep] at hAll
        exact hAll.2
      rw [along_cons_of_step hStep]
      refine ⟨?_, ih hNumbered₁ hRest hLatest₁⟩
      by_contra hNot
      -- The handler of the past is there when the run ends.
      have hStale₁ := stale_of_not_quiet hNumbered hNot hStep
      have hFront := (along_append hRest).mp (hLatest₁ [])
      have hEnd : s'.Numbered ∧ s'.Stale := by
        refine run_invariant_along
          (I := fun s => s.Numbered ∧ s.Stale) ?_
          ⟨hNumbered₁, hStale₁⟩ hFront.1 hRest
        rintro s label s' ⟨hNumbered, hStale⟩ hOf hStep
        exact ⟨hNumbered.step hStep,
          hStale.step hNumbered hOf hStep⟩
      rcases exists_not_along_of_stale script hEnd.1 hEnd.2
        with ⟨nows, hFails⟩
      exact hFails ((along_append hRest).mp (hLatest₁ nows)).2

/-
  The past is silent, however the run goes on, exactly when
  every call from outside comes while no handler that will
  act is queued.
-/
theorem silent_iff_quiet
    (hRun : run (step script) initial labels = some s) :
    (∀ nows : List Int,
      Along (step script) OfLatest initial
        (labels ++ nows.map .handle)) ↔
      Along (step script) Quiet initial labels := by
  constructor
  · exact quiet_of_ofLatest numbered_initial hRun
  · intro hQuiet nows
    apply ofLatest_of_quiet current_initial
    refine (along_append hRun).mpr ⟨hQuiet, ?_⟩
    have hHandles : ∀ label ∈ nows.map ScriptLabel.handle,
        ∃ now, label = .handle now := by
      intro label hLabel
      rcases List.mem_map.mp hLabel with ⟨now, -, rfl⟩
      exact ⟨now, rfl⟩
    refine along_of_along (I := fun _ => True)
      (fun _ _ _ _ _ _ => trivial) ?_ trivial
      (along_of_forall hHandles)
    rintro s label s' - ⟨now, rfl⟩ -
    trivial

/- A stop between the last event of a run and the next. -/
theorem silent_iff_quiet_of_testScript :
    Along (step testScript) OfLatest initial
      [.startScript 0, .expire, .handle 1, .stopScript,
        .handle 2, .handle 2] := by
  have hRun : run (step testScript) initial
      [.startScript 0, .expire, .handle 1, .stopScript] =
        some _ := rfl
  exact (silent_iff_quiet hRun).mpr (by decide) [2, 2]

/-
  The first timer has expired, the script is stopped, and
  the event is dispatched after that.
-/
theorem dispatched_after_stop :
    ¬ Along (step testScript) OfLatest initial
      [.startScript 0, .expire, .stopScript, .handle 1] ∧
    ∃ s s', run (step testScript) initial
        [.startScript 0, .expire, .stopScript] = some s ∧
      s.dispatched = [] ∧
      step testScript s (.handle 1) = some s' ∧
      s'.dispatched = [.availabilityModeCommand] := by
  refine ⟨by decide, _, _, rfl, rfl, rfl, rfl⟩

end ScriptRun

end ModemTester
