import EthercatMaster.Master.PortMonitor

/-!
# Starting the master again

Each stable link calls `ethercat_master_scan_start` again.  The notification object is initialised
by every call, because the flag that it was opened is never set, and the handle of the task of the
master is kept when the task deletes itself, so that no other one is ever started.
-/

namespace EthercatMaster

namespace MasterSystem

/-! ### What a step does -/

theorem commonOpen_frame (created : Bool) (s : MasterSystem) :
  (s.commonOpen created).2.tasks = s.tasks
    ∧ (s.commonOpen created).2.notify.masterScanTask = s.notify.masterScanTask
  := by
  cases created <;> exact ⟨rfl, rfl⟩

/-- `ethercat_app_common_open` succeeds if it creates a semaphore. -/
theorem commonOpen_eq (created : Bool) (s : MasterSystem) :
  s.commonOpen created = (created, (s.commonOpen created).2)
  := by
  cases created <;> rfl

/-- With a handle of a task, `ethercat_master_scan_start` does no more than
`ethercat_app_common_open`. -/
theorem scanStart_of_task {s : MasterSystem} (h : s.notify.masterScanTask = true)
    (created : Bool) (b : BringupSteps) :
  s.scanStart created b = s.commonOpen created
  := by
  rw [scanStart, commonOpen_eq]
  cases created with
  | false => rfl
  | true => exact if_pos ((s.commonOpen_frame true).2.trans h)

/-- Without a handle, `ethercat_master_scan_start` succeeds with a new task. -/
theorem scanStart_of_no_task {s : MasterSystem} (h : s.notify.masterScanTask = false)
    (created : Bool) (b : BringupSteps) :
  ((s.scanStart created b).1 = false ∧ (s.scanStart created b).2.tasks = s.tasks
      ∧ (s.scanStart created b).2.notify.masterScanTask = false)
    ∨ ((s.scanStart created b).1 = true
      ∧ (s.scanStart created b).2.tasks = s.tasks ++ [.bringUp (ecatInitActions b)]
      ∧ (s.scanStart created b).2.notify.masterScanTask = true)
  := by
  cases created with
  | false => exact .inl ⟨rfl, rfl, h⟩
  | true =>
      obtain ⟨htasks, hflag⟩ := s.commonOpen_frame true
      rw [h] at hflag
      rw [scanStart, commonOpen_eq]
      dsimp only
      rw [hflag, if_neg (by simp), if_neg (by simp)]
      cases hb : b.taskCreated with
      | false => exact .inl ⟨rfl, htasks, hflag⟩
      | true => exact .inr ⟨rfl, congrArg (· ++ [_]) htasks, rfl⟩

theorem monitorStart_frame (created netifOpened netifStarted taskCreated : Bool)
    (s : MasterSystem) :
  (s.monitorStart created netifOpened netifStarted taskCreated).tasks = s.tasks
    ∧ (s.monitorStart created netifOpened netifStarted taskCreated).notify.toAppNotify
      = (s.commonOpen created).2.notify.toAppNotify
  := by
  have htasks := (s.commonOpen_frame created).1
  rw [monitorStart, commonOpen_eq]
  dsimp only
  split
  · exact ⟨htasks, rfl⟩
  · exact ⟨htasks, rfl⟩

/-- A round of the monitor that opens the notification object starts the master. -/
theorem step_poll_of_some {s : MasterSystem} {linkUp : Bool} {tick tick' : UInt32}
    {created created' : Bool} {b : BringupSteps}
    (he : s.opening (.poll linkUp tick tick' created b) = some created') :
  created' = created ∧ ∃ m, s.step (.poll linkUp tick tick' created b)
    = (scanStart created b { s with monitor := m }).2
  := by
  rw [opening] at he
  split at he
  · rename_i hstable
    obtain ⟨hmonitor, hlink, hstable⟩ := hstable
    cases he
    use rfl, ⟨if s.monitor.port1LinkUpStartTick = 0 then tick
      else s.monitor.port1LinkUpStartTick, true⟩
    rw [step, if_pos hmonitor, monitorPoll, if_pos hlink]
    exact if_pos hstable
  · cases he

/-- A step that opens the notification object again while there is a handle of a task. -/
theorem step_opening_of_task {s : MasterSystem} {e : Event} {created : Bool}
    (he : s.opening e = some created) (h : s.notify.masterScanTask = true) :
  (s.step e).tasks = s.tasks
    ∧ (s.step e).notify.toAppNotify = (s.commonOpen created).2.notify.toAppNotify
  := by
  cases e with
  | monitorStart created' netifOpened netifStarted taskCreated =>
      cases he
      apply monitorStart_frame
  | poll linkUp tick tick' created' b =>
      obtain ⟨rfl, m, hstep⟩ := step_poll_of_some he
      have hflag : ({ s with monitor := m } : MasterSystem).notify.masterScanTask = true := h
      rw [hstep, scanStart_of_task hflag]
      cases created <;> exact ⟨rfl, rfl⟩
  | master i status => cases he

/-- A step that opens the notification object while there is no handle of a task. -/
theorem step_opening_of_no_task {s : MasterSystem} {e : Event} {created : Bool}
    (he : s.opening e = some created) (h : s.notify.masterScanTask = false) :
  ((s.step e).tasks = s.tasks ∧ (s.step e).notify.masterScanTask = false)
    ∨ (s.step e).notify.masterScanTask = true
      ∧ ∃ actions, (s.step e).tasks = s.tasks ++ [.bringUp actions]
  := by
  cases e with
  | monitorStart created' netifOpened netifStarted taskCreated =>
      cases he
      obtain ⟨htasks, happ⟩ := monitorStart_frame created netifOpened netifStarted taskCreated s
      left
      use htasks
      rw [step, happ, (s.commonOpen_frame created).2, h]
  | poll linkUp tick tick' created' b =>
      obtain ⟨rfl, m, hstep⟩ := step_poll_of_some he
      have hflag : ({ s with monitor := m } : MasterSystem).notify.masterScanTask = false := h
      rw [hstep]
      rcases scanStart_of_no_task hflag created b with ⟨-, htasks, hflag⟩ | ⟨-, htasks, hflag⟩
      · exact .inl ⟨htasks, hflag⟩
      · exact .inr ⟨hflag, _, htasks⟩
  | master i status => cases he

/-- A round of the monitor that opens nothing touches the monitor only. -/
theorem step_poll_of_none {s : MasterSystem} {linkUp : Bool} {tick tick' : UInt32}
    {created : Bool} {b : BringupSteps}
    (he : s.opening (.poll linkUp tick tick' created b) = none) :
  (s.step (.poll linkUp tick tick' created b)).tasks = s.tasks
    ∧ (s.step (.poll linkUp tick tick' created b)).notify = s.notify
  := by
  rw [opening] at he
  split at he
  · cases he
  · rename_i hstable
    rw [step]
    split
    · rename_i hmonitor
      rw [monitorPoll]
      split
      · rename_i hlink
        dsimp only
        rw [if_neg (fun h => hstable ⟨hmonitor, hlink, h⟩)]
        exact ⟨rfl, rfl⟩
      · exact ⟨rfl, rfl⟩
    · exact ⟨rfl, rfl⟩

/-! ### At most one task -/

/-- The handle of a task is set once a task was created, and no second one is. -/
def OneTask (s : MasterSystem) : Prop :=
  (s.notify.masterScanTask = true ∧ s.tasks.length ≤ 1)
    ∨ (s.notify.masterScanTask = false ∧ s.tasks = [])

/-- What a step of a task of the master does: it takes a step of the bring-up, enters the loop,
deletes itself or finishes a cycle. -/
theorem masterStep_cases (s : MasterSystem) (i : ℕ) (status : Option MasterStatus) :
  (s.tasks[i]? = none ∧ s.masterStep i status = s)
    ∨ (∃ action rest, s.tasks[i]? = some (.bringUp (action :: rest))
      ∧ s.masterStep i status = { s.act action with tasks := s.tasks.set i (.bringUp rest) })
    ∨ (s.tasks[i]? = some (.bringUp []) ∧ s.notify.masterRunState = .pdoRunning
      ∧ s.masterStep i status = { s with tasks := s.tasks.set i .cyclic })
    ∨ (s.tasks[i]? = some (.bringUp []) ∧ s.notify.masterRunState ≠ .pdoRunning
      ∧ s.masterStep i status = { s with tasks := s.tasks.eraseIdx i })
    ∨ (s.tasks[i]? = some .cyclic
      ∧ s.masterStep i status
        = { s with notify := status.elim s.notify s.notify.statusUpdate })
  := by
  rw [masterStep]
  split
  · rename_i htask
    exact .inl ⟨htask, rfl⟩
  · rename_i action rest htask
    exact .inr (.inl ⟨action, rest, htask, rfl⟩)
  · rename_i htask
    split
    · rename_i hrun
      exact .inr (.inr (.inl ⟨htask, hrun, rfl⟩))
    · rename_i hrun
      exact .inr (.inr (.inr (.inl ⟨htask, hrun, rfl⟩)))
  · rename_i htask
    exact .inr (.inr (.inr (.inr ⟨htask, rfl⟩)))

theorem act_masterScanTask (s : MasterSystem) (action : NotifyAction) :
  (s.act action).notify.masterScanTask = s.notify.masterScanTask
  := by
  cases action with
  | runSet state => rfl
  | scanSet state slaveCount =>
      show (ethercatAppMasterScanSetState state slaveCount _).masterScanTask = _
      rw [ethercatAppMasterScanSetState]
      split <;> rfl

theorem masterStep_masterScanTask (s : MasterSystem) (i : ℕ) (status : Option MasterStatus) :
  (s.masterStep i status).notify.masterScanTask = s.notify.masterScanTask
  := by
  rcases s.masterStep_cases i status with
    ⟨-, h⟩ | ⟨action, rest, -, h⟩ | ⟨-, -, h⟩ | ⟨-, -, h⟩ | ⟨-, h⟩
  · rw [h]
  · rw [h]
    apply s.act_masterScanTask action
  · rw [h]
  · rw [h]
  · rw [h]
    cases status <;> rfl

theorem length_masterStep_tasks (s : MasterSystem) (i : ℕ) (status : Option MasterStatus) :
  (s.masterStep i status).tasks.length ≤ s.tasks.length
  := by
  rcases s.masterStep_cases i status with
    ⟨-, h⟩ | ⟨action, rest, -, h⟩ | ⟨-, -, h⟩ | ⟨-, -, h⟩ | ⟨-, h⟩
  · rw [h]
  · rw [h, List.length_set]
  · rw [h, List.length_set]
  · rw [h]
    exact (List.eraseIdx_sublist _ _).length_le
  · rw [h]

theorem OneTask.step {s : MasterSystem} (h : s.OneTask) (e : Event) :
  (s.step e).OneTask
  := by
  have hopening : ∀ created, s.opening e = some created → (s.step e).OneTask := by
    intro created he
    rcases h with ⟨hflag, htasks⟩ | ⟨hflag, htasks⟩
    · obtain ⟨htasks', happ⟩ := step_opening_of_task he hflag
      left
      rw [happ, (s.commonOpen_frame created).2, htasks']
      exact ⟨hflag, htasks⟩
    · rcases step_opening_of_no_task he hflag with ⟨htasks', hflag'⟩ | ⟨hflag', actions, htasks'⟩
      · exact .inr ⟨hflag', htasks'.trans htasks⟩
      · left
        rw [htasks', htasks]
        exact ⟨hflag', le_rfl⟩
  cases he : s.opening e with
  | some created => exact hopening created he
  | none =>
      cases e with
      | monitorStart created netifOpened netifStarted taskCreated => cases he
      | poll linkUp tick tick' created b =>
          obtain ⟨htasks, hnotify⟩ := step_poll_of_none he
          rw [OneTask, htasks, hnotify]
          exact h
      | master i status =>
          have hflag := s.masterStep_masterScanTask i status
          have hlength := s.length_masterStep_tasks i status
          rw [OneTask, MasterSystem.step, hflag]
          rcases h with ⟨h, htasks⟩ | ⟨h, htasks⟩
          · exact .inl ⟨h, hlength.trans htasks⟩
          · rw [htasks] at hlength
            exact .inr ⟨h, List.length_eq_zero_iff.mp (Nat.le_zero.mp hlength)⟩

theorem oneTask_before (es : List Event) (i : ℕ) :
  (machine.before es i).OneTask
  := machine.invariant_before (.inr ⟨rfl, rfl⟩) (fun _ e h => h.step e) es i

/-- A task that exists is the only one, and the handle is its. -/
theorem OneTask.of_task {s : MasterSystem} (h : s.OneTask) {i : ℕ} {task : MasterTask}
    (htask : s.tasks[i]? = some task) :
  s.notify.masterScanTask = true ∧ i = 0 ∧ s.tasks = [task]
  := by
  obtain ⟨hi, hget⟩ := List.getElem?_eq_some_iff.mp htask
  rcases h with ⟨hflag, hlength⟩ | ⟨-, htasks⟩
  · obtain ⟨task', htasks⟩ := List.length_eq_one_iff.mp (by omega : s.tasks.length = 1)
    obtain rfl : i = 0 := by omega
    refine ⟨hflag, rfl, ?_⟩
    rw [← hget]
    simp [htasks]
  · rw [htasks] at hi
    cases hi

/-! ### Restarting -/

/-- The master can be started again: the handle of a task is that of a task that exists, no second
one exists, and after each successful call of `ethercat_master_scan_start` one does. -/
structure Restartable (s : MasterSystem) : Prop where
  handle : s.notify.masterScanTask = true → s.tasks ≠ []
  unique : s.tasks.length ≤ 1
  starts : ∀ created b, (s.scanStart created b).1 = true → (s.scanStart created b).2.tasks ≠ []

/-- No task of the master deletes itself in a step: one that is through with the bring-up finds the
state in which it enters the loop. -/
def Survives (s : MasterSystem) : Event → Prop
  | .master i _ => s.tasks[i]? = some (.bringUp []) → s.notify.masterRunState = .pdoRunning
  | _ => True

theorem OneTask.restartable_step_iff {s : MasterSystem} (h : s.OneTask) :
  s.Restartable ↔ (s.notify.masterScanTask = true → s.tasks ≠ [])
  := by
  constructor
  · exact Restartable.handle
  · intro hhandle
    constructor
    · exact hhandle
    · rcases h with ⟨-, h⟩ | ⟨-, h⟩
      · exact h
      · rw [h]
        apply Nat.zero_le 1
    · intro created b hstart
      cases hflag : s.notify.masterScanTask with
      | true =>
          rw [scanStart_of_task hflag, (s.commonOpen_frame created).1]
          apply hhandle hflag
      | false =>
          rcases scanStart_of_no_task hflag created b with ⟨hfail, -⟩ | ⟨-, htasks, -⟩
          · cases hfail.symm.trans hstart
          · rw [htasks]
            simp

/-- A step keeps the handle to a task that exists exactly if no task deletes itself. -/
theorem OneTask.handle_step {s : MasterSystem} (h : s.OneTask)
    (hs : s.notify.masterScanTask = true → s.tasks ≠ []) (e : Event) :
  ((s.step e).notify.masterScanTask = true → (s.step e).tasks ≠ []) ↔ s.Survives e
  := by
  cases he : s.opening e with
  | some created =>
      have hsurvives : s.Survives e := by
        cases e with
        | master i status => cases he
        | _ => trivial
      refine iff_of_true (fun hflag' => ?_) hsurvives
      rcases h with ⟨hflag, -⟩ | ⟨hflag, htasks⟩
      · rw [(step_opening_of_task he hflag).1]
        apply hs hflag
      · rcases step_opening_of_no_task he hflag with ⟨-, hnot⟩ | ⟨-, actions, htasks'⟩
        · cases hnot.symm.trans hflag'
        · rw [htasks']
          simp
  | none =>
      cases e with
      | monitorStart created netifOpened netifStarted taskCreated => cases he
      | poll linkUp tick tick' created b =>
          obtain ⟨htasks, hnotify⟩ := step_poll_of_none he
          rw [htasks, hnotify]
          apply iff_of_true hs trivial
      | master i status =>
          rw [MasterSystem.step, s.masterStep_masterScanTask, Survives]
          rcases s.masterStep_cases i status with
            ⟨htask, hstep⟩ | ⟨action, rest, htask, hstep⟩ | ⟨htask, hrun, hstep⟩
              | ⟨htask, hrun, hstep⟩ | ⟨htask, hstep⟩
          · rw [hstep, htask]
            apply iff_of_true hs nofun
          · rw [hstep, htask]
            refine iff_of_true (fun hflag => ?_) nofun
            exact fun hnil => hs hflag ((List.set_eq_nil_iff i _).mp hnil)
          · rw [hstep]
            refine iff_of_true (fun hflag => ?_) (fun _ => hrun)
            exact fun hnil => hs hflag ((List.set_eq_nil_iff i _).mp hnil)
          · obtain ⟨hflag, rfl, htasks⟩ := h.of_task htask
            rw [hstep, htasks]
            refine iff_of_false (fun hkeeps => ?_) (fun hsurvives => hrun (hsurvives rfl))
            apply hkeeps hflag rfl
          · rw [hstep, htask]
            apply iff_of_true hs nofun

/-- The master can be started again in every state of a run exactly if no task of the master deletes
itself in it. -/
theorem restartable_iff (es : List Event) :
  (∀ i ≤ es.length, (machine.before es i).Restartable)
    ↔ ∀ i e, es[i]? = some e → (machine.before es i).Survives e
  := by
  have hone := oneTask_before es
  constructor
  · intro h i e he
    have hi : i < es.length := (List.getElem?_eq_some_iff.mp he).1
    rw [← (hone i).handle_step (h i hi.le).handle]
    have hnext := (h (i + 1) hi).handle
    rw [machine.before_succ he] at hnext
    exact hnext
  · intro h i _
    rw [(hone i).restartable_step_iff]
    have hboth : ∀ s e, Survives s e →
        OneTask s ∧ (s.notify.masterScanTask = true → s.tasks ≠ []) →
        (s.step e).OneTask
          ∧ ((s.step e).notify.masterScanTask = true → (s.step e).tasks ≠ []) :=
      fun s e hsurvives hs => ⟨hs.1.step e, (hs.1.handle_step hs.2 e).mpr hsurvives⟩
    exact (machine.invariant_of
      (P := fun s => OneTask s ∧ (s.notify.masterScanTask = true → s.tasks ≠ []))
      ⟨.inr ⟨rfl, rfl⟩, nofun⟩ hboth h i).2

namespace PowerLater

/-- No drive is found. -/
def steps : BringupSteps :=
  { OneDrive.steps with ecConfigInit := 0 }

/-- The monitor is started, the link comes up, and the master finds no drive; then the link goes
down and comes up again. -/
def events : List Event :=
  [.monitorStart true true true true, .poll true 100 100 true steps,
    .poll true 600 600 true steps, .master 0 none, .master 0 none, .master 0 none,
    .poll false 700 700 true steps, .poll true 800 800 true OneDrive.steps,
    .poll true 1300 1300 true OneDrive.steps]

/-- The link is stable again and the master is not started. -/
theorem not_restartable_events :
  ¬ ∀ i ≤ events.length, (machine.before events i).Restartable
  := by
  intro h
  have hflag : (machine.before events 9).notify.masterScanTask = true := by decide +kernel
  have htasks : (machine.before events 9).tasks = [] := by decide +kernel
  exact (h 9 (by decide)).handle hflag htasks

end PowerLater

/-! ### Opening again -/

/-- `ethercat_app_common_open` has succeeded before a step of a run. -/
def Opened (es : List Event) (i : ℕ) : Prop :=
  ∃ j < i, ∃ e, es[j]? = some e ∧ (machine.before es j).opening e = some true

/-- Once it has succeeded, each call of `ethercat_app_common_open` succeeds and changes nothing in
the notification object. -/
def OpensOnce (es : List Event) : Prop :=
  ∀ i e created, es[i]? = some e → (machine.before es i).opening e = some created → Opened es i →
    ((machine.before es i).commonOpen created).1 = true
      ∧ ((machine.before es i).commonOpen created).2.notify = (machine.before es i).notify

/-- While a task of the master is in its loop, the state of the master is that of the loop. -/
def StaysRunning (es : List Event) : Prop :=
  ∀ i ≤ es.length, .cyclic ∈ (machine.before es i).tasks →
    (machine.before es i).notify.masterRunState = .pdoRunning

/-- The handle of the semaphore is one that was created. -/
def SemCreated (s : MasterSystem) : Prop :=
  ∀ sem, s.notify.masterScanDoneSem = some sem → sem < s.semaphores

theorem semCreated_commonOpen (created : Bool) (s : MasterSystem) :
  (s.commonOpen created).2.SemCreated
  := by
  cases created with
  | false =>
      intro sem hsem
      cases hsem
  | true =>
      intro sem hsem
      cases hsem
      apply Nat.lt_succ_self _

theorem semCreated_scanStart (created : Bool) (b : BringupSteps) (s : MasterSystem) :
  (s.scanStart created b).2.SemCreated
  := by
  have hopen := semCreated_commonOpen created s
  rw [scanStart, commonOpen_eq]
  dsimp only
  split
  · exact hopen
  · split
    · exact hopen
    · split
      · exact hopen
      · exact hopen

theorem SemCreated.step {s : MasterSystem} (h : s.SemCreated) (e : Event) :
  (s.step e).SemCreated
  := by
  cases e with
  | monitorStart created netifOpened netifStarted taskCreated =>
      have hopen := semCreated_commonOpen created s
      rw [MasterSystem.step, monitorStart, commonOpen_eq]
      dsimp only
      split
      · exact hopen
      · exact hopen
  | poll linkUp tick tick' created b =>
      rw [MasterSystem.step]
      split
      · rw [monitorPoll]
        split
        · dsimp only
          split
          · apply semCreated_scanStart
          · exact h
        · exact h
      · exact h
  | master i status =>
      rw [MasterSystem.step]
      rcases s.masterStep_cases i status with
        ⟨-, h'⟩ | ⟨action, rest, -, h'⟩ | ⟨-, -, h'⟩ | ⟨-, -, h'⟩ | ⟨-, h'⟩
      · rwa [h']
      · rw [h']
        exact h
      · rw [h']
        exact h
      · rw [h']
        exact h
      · rw [h']
        cases status <;> exact h

/-- No call of `ethercat_app_common_open` both succeeds and changes nothing: it creates another
semaphore. -/
theorem SemCreated.commonOpen_changes {s : MasterSystem} (h : s.SemCreated) (created : Bool) :
  ¬ ((s.commonOpen created).1 = true ∧ (s.commonOpen created).2.notify = s.notify)
  := by
  rintro ⟨hopened, hsame⟩
  rw [commonOpen_eq] at hopened
  obtain rfl : created = true := hopened
  have hsem : s.notify.masterScanDoneSem = some s.semaphores :=
    (congrArg NotifyObject.masterScanDoneSem hsame).symm
  exact absurd (h _ hsem) (lt_irrefl _)

/-- While a task is in its loop, the state of the master is that of the loop. -/
def LoopRuns (s : MasterSystem) : Prop :=
  .cyclic ∈ s.tasks → s.notify.masterRunState = .pdoRunning

/-- A step keeps the state of a loop exactly if it does not open the notification object during
it. -/
theorem OneTask.loopRuns_step {s : MasterSystem} (h : s.OneTask) (hs : s.LoopRuns) (e : Event) :
  (s.step e).LoopRuns ↔ (.cyclic ∈ s.tasks → s.opening e ≠ some true)
  := by
  cases he : s.opening e with
  | some created =>
      rcases h with ⟨hflag, -⟩ | ⟨hflag, htasks⟩
      · obtain ⟨htasks', happ⟩ := step_opening_of_task he hflag
        rw [LoopRuns, htasks', happ]
        cases created with
        | true =>
            constructor
            · intro hrun hmem
              cases hrun hmem
            · intro hnot hmem
              exact absurd rfl (hnot hmem)
        | false => exact iff_of_true hs nofun
      · rw [htasks]
        refine iff_of_true (fun hmem => ?_) nofun
        rcases step_opening_of_no_task he hflag with ⟨htasks', -⟩ | ⟨-, actions, htasks'⟩
        · rw [htasks', htasks] at hmem
          cases hmem
        · rw [htasks', htasks] at hmem
          simp at hmem
  | none =>
      refine iff_of_true ?_ nofun
      cases e with
      | monitorStart created netifOpened netifStarted taskCreated => cases he
      | poll linkUp tick tick' created b =>
          obtain ⟨htasks, hnotify⟩ := step_poll_of_none he
          rw [LoopRuns, htasks, hnotify]
          exact hs
      | master i status =>
          rw [MasterSystem.step]
          rcases s.masterStep_cases i status with
            ⟨-, hstep⟩ | ⟨action, rest, htask, hstep⟩ | ⟨-, hrun, hstep⟩
              | ⟨htask, -, hstep⟩ | ⟨-, hstep⟩
          · rwa [hstep]
          · obtain ⟨-, rfl, htasks⟩ := h.of_task htask
            rw [hstep, LoopRuns, htasks]
            simp
          · rw [hstep]
            exact fun _ => hrun
          · obtain ⟨-, rfl, htasks⟩ := h.of_task htask
            rw [hstep, LoopRuns, htasks]
            simp
          · rw [hstep]
            cases status <;> exact hs

theorem semCreated_before (es : List Event) (i : ℕ) :
  (machine.before es i).SemCreated
  := machine.invariant_before nofun (fun _ e h => h.step e) es i

/-- Each call of `ethercat_app_common_open` after the first one that succeeded is harmless exactly
if there is none, and the state of the master stays that of its loop exactly if no such call creates
a semaphore during the loop. -/
theorem undisturbed_iff (es : List Event) :
  (OpensOnce es ↔ ∀ i e, es[i]? = some e → Opened es i → (machine.before es i).opening e = none)
    ∧ (StaysRunning es ↔ ∀ i e, es[i]? = some e → .cyclic ∈ (machine.before es i).tasks →
      (machine.before es i).opening e ≠ some true)
  := by
  constructor
  · constructor
    · intro h i e he hopened
      cases hopening : (machine.before es i).opening e with
      | none => rfl
      | some created =>
          have hsame := h i e created he hopening hopened
          exact absurd hsame ((semCreated_before es i).commonOpen_changes created)
    · intro h i e created he hopening hopened
      cases (h i e he hopened).symm.trans hopening
  · constructor
    · intro h i e he
      have hi : i < es.length := (List.getElem?_eq_some_iff.mp he).1
      rw [← (oneTask_before es i).loopRuns_step (h i hi.le)]
      have hnext := h (i + 1) hi
      rw [machine.before_succ he] at hnext
      exact hnext
    · intro h i _
      have hboth : ∀ s e, (.cyclic ∈ s.tasks → s.opening e ≠ some true) →
          OneTask s ∧ LoopRuns s → (s.step e).OneTask ∧ (s.step e).LoopRuns :=
        fun s e hquiet hs => ⟨hs.1.step e, (hs.1.loopRuns_step hs.2 e).mpr hquiet⟩
      exact (machine.invariant_of (P := fun s => OneTask s ∧ LoopRuns s)
        ⟨.inr ⟨rfl, rfl⟩, nofun⟩ hboth h i).2

namespace CablePulled

/-- The master is in its loop, with values from a cycle; then the link goes down and comes up
again. -/
def events : List Event :=
  [.monitorStart true true true true, .poll true 100 100 true OneDrive.steps,
    .poll true 600 600 true OneDrive.steps, .master 0 none, .master 0 none, .master 0 none,
    .master 0 none, .master 0 none, .master 0 none,
    .master 0 (some ⟨3, 3, 0x08, 0x0237, 0x000F⟩), .poll false 700 700 true OneDrive.steps,
    .poll true 800 800 true OneDrive.steps, .poll true 1300 1300 true OneDrive.steps]

/-- The notification object is reset although the master is in its loop. -/
theorem disturbed_events :
  ¬ (OpensOnce events ∧ StaysRunning events)
  := by
  rintro ⟨-, h⟩
  have hcyclic : .cyclic ∈ (machine.before events 13).tasks := by decide +kernel
  have hidle : (machine.before events 13).notify.masterRunState = .idle := by decide +kernel
  cases hidle.symm.trans (h 13 (by decide) hcyclic)

end CablePulled

end MasterSystem

end EthercatMaster
