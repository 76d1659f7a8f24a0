import Manus.Netmiko.Locks

/-! # One user of a session at a time

A lock is released after the thread has ended that uses the session, unless a task
is cancelled while a thread is at the disconnect the task waits for.
-/

namespace Manus.Netmiko

open DeviceSessionPool

namespace Invariant

section Moves

variable {s s' : DeviceSessionPool} {t fut : ℕ} {task : AsyncTask} {key : SessionKey} {call : Call}
  {closing : Bool} {rest : List SessionKey}

theorem new (enabled : Bool) (maxWorkers : ℕ) :
    Invariant (DeviceSessionPool.new enabled maxWorkers) := by
  constructor <;> intros <;> simp_all [DeviceSessionPool.new]

theorem isOver_drop {thread : Thread} (h : thread.isRunning = false) :
    thread.drop.isOver = true := by
  cases thread <;> simp_all [Thread.isRunning, Thread.drop, Thread.isOver]

theorem isOver_drop_of_isOver {thread : Thread} (h : thread.isOver = true) :
    thread.drop.isOver = true := by
  cases thread <;> simp_all [Thread.drop, Thread.isOver]

theorem shutdownExecutor (h : Invariant s) : Invariant s.shutdownExecutor := by
  refine h.of_progress (f := fun _ call => { call with thread := call.thread.drop })
    (fun i => List.getElem?_map ..) rfl rfl fun i call hcall => ?_
  exact ⟨rfl, rfl, rfl, rfl, isOver_drop_of_isOver,
    fun hover _ hdone => isOver_drop_of_isOver (hover hdone)⟩

theorem suspendFrom {keys : List SessionKey}
    (h : ∀ task : AsyncTask, task.isFree → Invariant (s.setTask t task)) :
    Invariant (s.suspendFrom t closing keys) := by
  have hfinished : AsyncTask.finished.isFree := ⟨rfl, fun _ => AsyncTask.noConfusion⟩
  cases keys with
  | nil =>
    cases closing with
    | true => exact (h _ hfinished).shutdownExecutor
    | false => exact h _ hfinished
  | cons key rest =>
    refine h _ ?_
    unfold suspendPoint
    split
    · split <;> exact ⟨rfl, fun _ => AsyncTask.noConfusion⟩
    · exact ⟨rfl, fun _ => AsyncTask.noConfusion⟩

theorem release_setTask (s : DeviceSessionPool) (task task' : AsyncTask) :
    ((s.setTask t task).release key fut).setTask t task' =
      (s.release key fut).setTask t task' := by
  simp [DeviceSessionPool.setTask, DeviceSessionPool.release, DeviceSessionPool.modifyCall,
    modifyEntry]

theorem refused (work : Work) {task' : AsyncTask} (h : Invariant s) (ht : s.tasks[t]? = some task)
    (hholds : task.holds = none) (hunlocked : (s.entry key).locked = false)
    (hdown : s.shutDown = true) (hfree : task'.isFree) :
    Invariant (((s.lockAndSubmit t key work).release key s.calls.length).setTask t task') := by
  let holder : AsyncTask := .shielding key s.calls.length
  have hacquired : Invariant ((s.lockAndSubmit t key work).setTask t holder) :=
    h.acquire work ht hholds hunlocked rfl
  have ht' : ((s.lockAndSubmit t key work).setTask t holder).tasks[t]? = some holder :=
    List.getElem?_set_self (List.getElem?_eq_some_iff.mp ht).1
  rw [← release_setTask _ holder]
  refine hacquired.release ht' rfl (fun call hcall => ?_) hfree
  have hcall' : some call = _ := hcall.symm.trans List.getElem?_concat_length
  cases hcall'
  simp [hdown, Thread.isOver]

theorem isFree_finished : AsyncTask.finished.isFree := ⟨rfl, fun _ => AsyncTask.noConfusion⟩

theorem isFree_entering : (AsyncTask.entering closing key rest).isFree :=
  ⟨rfl, fun _ => AsyncTask.noConfusion⟩

theorem beginUse (h : Invariant s) (ht : s.tasks[t]? = some task) (hholds : task.holds = none)
    (hunlocked : (s.entry key).locked = false) : Invariant (s.beginUse t key) := by
  unfold DeviceSessionPool.beginUse
  dsimp only
  split
  · rename_i hdown
    refine (h.refused .run ht hholds hunlocked hdown isFree_finished).of_entries rfl rfl
      fun key' => ?_
    by_cases he : key' = key
    · subst he
      simp [DeviceSessionPool.setTask, DeviceSessionPool.release, DeviceSessionPool.modifyCall,
        modifyEntry]
    · simp [DeviceSessionPool.setTask, DeviceSessionPool.release, DeviceSessionPool.modifyCall,
        DeviceSessionPool.setInflight, modifyEntry, he]
  · have hacquired : Invariant ((s.lockAndSubmit t key .run).setTask t
        (.shielding key s.calls.length)) := h.acquire .run ht hholds hunlocked rfl
    exact hacquired.setInflight

theorem beginDisconnect (h : Invariant s) (ht : s.tasks[t]? = some task)
    (hholds : task.holds = none) (hunlocked : (s.entry key).locked = false) :
    Invariant (s.beginDisconnect t closing key rest) := by
  unfold DeviceSessionPool.beginDisconnect
  dsimp only
  split
  · rename_i hdown
    exact suspendFrom fun task' hfree => h.refused .disconnect ht hholds hunlocked hdown hfree
  · exact h.acquire .disconnect ht hholds hunlocked rfl

theorem isOver_of_isDone (h : Invariant s) (ht : s.tasks[t]? = some task)
    (hholds : task.holds = some (key, fut)) (hdone : s.isDone fut = true)
    (call : Call) (hcall : s.calls[fut]? = some call) : call.thread.isOver = true := by
  obtain ⟨call', hcall', hsession, -⟩ := h.held ht hholds
  rw [hcall] at hcall'
  cases hcall'
  refine h.doneOver hcall (by rw [hsession]; exact Option.some_ne_none key) ?_
  simpa [isDone, hcall] using hdone

theorem endUse (h : Invariant s) (ht : s.tasks[t]? = some (.shielding key fut))
    (hdone : s.isDone fut = true) : Invariant (s.endUse t key fut) := by
  have hcleared : Invariant (s.setInflight key none) := h.setInflight
  exact hcleared.release ht rfl (h.isOver_of_isDone ht rfl hdone) isFree_finished

theorem endDisconnect (h : Invariant s)
    (ht : s.tasks[t]? = some (.disconnecting closing key fut rest))
    (hdone : s.isDone fut = true) : Invariant (s.endDisconnect t closing key fut rest) := by
  have hover := h.isOver_of_isDone ht rfl hdone
  unfold DeviceSessionPool.endDisconnect
  split
  · exact h.release ht rfl hover isFree_finished
  · exact suspendFrom fun task' hfree => h.release ht rfl hover hfree

theorem resume (h : Invariant s) (ht : s.tasks[t]? = some task) (hs' : s.resume t task = some s') :
    Invariant s' := by
  cases task with
  | acquiring key =>
    obtain ⟨hunlocked, ⟨⟩⟩ := Option.ite_none_left_eq_some.mp hs'
    exact h.beginUse ht rfl (Bool.eq_false_iff.mpr hunlocked)
  | shielding key fut =>
    obtain ⟨hdone, ⟨⟩⟩ := Option.ite_none_right_eq_some.mp hs'
    exact h.endUse ht hdone
  | disposing fut =>
    obtain ⟨-, ⟨⟩⟩ := Option.ite_none_right_eq_some.mp hs'
    exact h.setTask ht rfl isFree_finished
  | settling closing key fut rest =>
    obtain ⟨-, ⟨⟩⟩ := Option.ite_none_right_eq_some.mp hs'
    exact h.setTask ht rfl isFree_entering
  | entering closing key rest =>
    obtain ⟨hunlocked, ⟨⟩⟩ := Option.ite_none_left_eq_some.mp hs'
    exact h.beginDisconnect ht rfl (Bool.eq_false_iff.mpr hunlocked)
  | disconnecting closing key fut rest =>
    obtain ⟨hdone, ⟨⟩⟩ := Option.ite_none_right_eq_some.mp hs'
    exact h.endDisconnect ht hdone
  | finished => cases hs'

theorem cancel (h : Invariant s) (ht : s.tasks[t]? = some task)
    (hspared : sparesDisconnect s (.cancel t) = true) (hs' : s.cancel t task = some s') :
    Invariant s' := by
  cases task with
  | acquiring key =>
    cases hs'
    exact h.setTask ht rfl isFree_finished
  | shielding key fut =>
    simp only [DeviceSessionPool.cancel] at hs'
    split at hs'
    · rename_i hdone
      cases hs'
      exact h.endUse ht hdone
    · cases hs'
      exact h.detach ht rfl
  | disposing fut =>
    cases hs'
    obtain ⟨call, hcall, hnone⟩ := h.disposing ht
    refine (h.modifyCall fun call' hcall' => ?_).setTask ht rfl isFree_finished
    rw [hcall] at hcall'
    cases hcall'
    exact ⟨rfl, rfl, rfl, rfl, isOver_drop_of_isOver, fun _ hsession => absurd hnone hsession⟩
  | settling closing key fut rest =>
    cases hs'
    exact h.setTask ht rfl isFree_entering
  | entering closing key rest =>
    cases hs'
    exact h.setTask ht rfl isFree_finished
  | disconnecting closing key fut rest =>
    cases hs'
    -- the thread is not at the disconnect, so giving the call up ends it
    have hended : ∀ call, s.calls[fut]? = some call → call.thread.drop.isOver = true := by
      intro call hcall
      refine isOver_drop (Bool.eq_false_iff.mpr fun hrunning => ?_)
      simp [sparesDisconnect, ht, hcall, hrunning] at hspared
    have habandoned : Invariant (s.modifyCall fut Call.abandon) := h.modifyCall fun call hcall =>
      ⟨rfl, rfl, rfl, rfl, isOver_drop_of_isOver, fun _ _ _ => hended call hcall⟩
    refine habandoned.release ht rfl (fun call' hcall' => ?_) isFree_finished
    obtain ⟨call, hcall, -⟩ := h.held ht rfl
    have he : call.abandon = call' := by
      simpa [DeviceSessionPool.modifyCall, hcall] using hcall'
    exact he ▸ hended call hcall
  | finished => cases hs'

theorem graceOver (h : Invariant s) (ht : s.tasks[t]? = some task)
    (hs' : s.graceOver t task = some s') : Invariant s' := by
  cases task with
  | settling closing key fut rest =>
    cases hs'
    exact h.setTask ht rfl isFree_entering
  | _ => cases hs'

theorem start {alive : Bool} (h : Invariant s) (hcall : s.calls[fut]? = some call)
    (hs' : s.start fut alive call = some s') : Invariant s' := by
  obtain ⟨⟨hqueued, -⟩, ⟨⟩⟩ := Option.ite_none_right_eq_some.mp hs'
  refine h.modifyCall fun call' hcall' => ?_
  rw [hcall] at hcall'
  cases hcall'
  refine ⟨rfl, rfl, rfl, rfl, fun hover => ?_, fun hover _ hdone => ?_⟩
  · rw [hqueued] at hover
    cases hover
  · have hover := hover hdone
    rw [hqueued] at hover
    cases hover

theorem advance {ok : Bool} (h : Invariant s) (hcall : s.calls[fut]? = some call)
    (hs' : s.advance fut ok call = some s') : Invariant s' := by
  unfold DeviceSessionPool.advance at hs'
  split at hs'
  · rename_i doing left hrunning
    have hnext : Invariant (s.modifyCall fut fun call =>
        { call with thread := .ofOps (if ok then left else call.work.cleanup doing) }) := by
      refine h.modifyCall fun call' hcall' => ?_
      rw [hcall] at hcall'
      cases hcall'
      refine ⟨rfl, rfl, rfl, rfl, fun hover => ?_, fun hover _ hdone => ?_⟩
      · rw [hrunning] at hover
        cases hover
      · have hover := hover hdone
        rw [hrunning] at hover
        cases hover
    dsimp only at hs'
    split at hs'
    · cases hs'
      refine hnext.of_entries rfl rfl fun key' => ?_
      simp only [modifyEntry, Function.update_apply]
      split
      · rename_i he
        rw [he]
      · rfl
    · cases hs'
      exact hnext
  · cases hs'

theorem notify (h : Invariant s) (hcall : s.calls[fut]? = some call)
    (hs' : s.notify fut call = some s') : Invariant s' := by
  obtain ⟨hready, ⟨⟩⟩ := Option.ite_none_right_eq_some.mp hs'
  rw [Bool.and_eq_true] at hready
  refine h.modifyCall fun call' hcall' => ?_
  rw [hcall] at hcall'
  cases hcall'
  exact ⟨rfl, rfl, rfl, rfl, id, fun _ _ _ => hready.1⟩

theorem releaseAfterInflight (h : Invariant s) (hcall : s.calls[fut]? = some call)
    (hs' : s.releaseAfterInflight fut call = some s') : Invariant s' := by
  unfold DeviceSessionPool.releaseAfterInflight at hs'
  split at hs'
  · rename_i key hsession
    obtain ⟨hready, ⟨⟩⟩ := Option.ite_none_right_eq_some.mp hs'
    obtain ⟨hdone, hafter⟩ := Bool.and_eq_true_iff.mp hready
    split
    · exact h.setInflight.callback hcall hsession hdone hafter
    · exact h.callback hcall hsession hdone hafter
  · cases hs'

theorem suspend (h : Invariant s) : Invariant (s.suspend closing) := by
  refine suspendFrom fun task hfree => ?_
  exact (h.addTask isFree_finished).setTask List.getElem?_concat_length rfl hfree

/-- What a move keeps that spares every disconnect. -/
theorem step {move : Move} (h : Invariant s) (hspared : sparesDisconnect s move = true)
    (hs' : Netmiko.step s move = some s') : Invariant s' := by
  cases move with
  | runOnDevice key =>
    cases hs'
    unfold DeviceSessionPool.runOnDevice
    split
    · refine (h.of_entries ?_ ?_ fun key' => ?_).addTask ⟨rfl, fun _ => AsyncTask.noConfusion⟩ <;>
        unfold getOrCreateEntry <;> split <;> rfl
    · exact h.dispose
  | probeLogin =>
    cases hs'
    exact h.dispose
  | suspend =>
    cases hs'
    exact h.suspend
  | close =>
    cases hs'
    unfold DeviceSessionPool.close
    split
    · exact h
    · have hclosed : Invariant { s with closed := true } := h.of_entries rfl rfl fun _ => rfl
      exact hclosed.suspend
  | resume t =>
    obtain ⟨task, ht, hs'⟩ := Option.bind_eq_some_iff.mp hs'
    exact h.resume ht hs'
  | cancel t =>
    obtain ⟨task, ht, hs'⟩ := Option.bind_eq_some_iff.mp hs'
    exact h.cancel ht hspared hs'
  | graceOver t =>
    obtain ⟨task, ht, hs'⟩ := Option.bind_eq_some_iff.mp hs'
    exact h.graceOver ht hs'
  | start fut alive =>
    obtain ⟨call, hcall, hs'⟩ := Option.bind_eq_some_iff.mp hs'
    exact h.start hcall hs'
  | advance fut ok =>
    obtain ⟨call, hcall, hs'⟩ := Option.bind_eq_some_iff.mp hs'
    exact h.advance hcall hs'
  | notify fut =>
    obtain ⟨call, hcall, hs'⟩ := Option.bind_eq_some_iff.mp hs'
    exact h.notify hcall hs'
  | releaseAfterInflight fut =>
    obtain ⟨call, hcall, hs'⟩ := Option.bind_eq_some_iff.mp hs'
    exact h.releaseAfterInflight hcall hs'

theorem released_of_idle {i : ℕ} (h : Invariant s) (hidle : s.Idle)
    (hcall : s.calls[i]? = some call) (hsession : call.session ≠ none)
    (hover : call.thread.isOver = true) : call.releases ≠ 0 := by
  intro hreleases
  obtain ⟨key, hkey⟩ := Option.ne_none_iff_exists'.mp hsession
  have hdone : call.done = true := by
    refine eq_true_of_ne_false fun hopen => ?_
    have hnone := (hidle i).2.1
    simp [Netmiko.step, hcall, DeviceSessionPool.notify, hover, hopen] at hnone
  have hisDone : s.isDone i = true := by simpa [isDone, hcall] using hdone
  obtain ⟨-, hafter | ⟨task, ht, hholds⟩⟩ := h.kept hcall hkey hreleases
  · have hnone := (hidle i).2.2
    simp [Netmiko.step, hcall, DeviceSessionPool.releaseAfterInflight, hkey, hdone, hafter] at hnone
  · have hnone := (hidle call.caller).1
    cases task with
    | shielding key' fut =>
      cases hholds
      simp [Netmiko.step, ht, DeviceSessionPool.resume, hisDone] at hnone
    | disconnecting closing key' fut rest =>
      cases hholds
      simp [Netmiko.step, ht, DeviceSessionPool.resume, hisDone] at hnone
    | _ => cases hholds

theorem oneUser (h : Invariant s) : OneUser s where
  single := by
    intro i j call call' hcall hcall' hsession hsame hrunning hrunning'
    obtain ⟨key, hkey⟩ := Option.ne_none_iff_exists'.mp hsession
    have hunreleased : ∀ {i : ℕ} {call : Call}, s.calls[i]? = some call →
        call.thread.isRunning = true → call.releases = 0 := by
      intro i call hcall hrunning
      refine Decidable.byContradiction fun hreleases => ?_
      have hover := h.after hcall hreleases
      cases hthread : call.thread <;>
        simp [hthread, Thread.isRunning, Thread.isOver] at hrunning hover
    exact h.sole hcall hcall' hkey (hsame.symm.trans hkey) (hunreleased hcall hrunning)
      (hunreleased hcall' hrunning')
  once := by
    intro call hmem
    obtain ⟨i, hcall⟩ := List.mem_iff_getElem?.mp hmem
    exact h.once hcall
  after := by
    intro call hmem
    obtain ⟨i, hcall⟩ := List.mem_iff_getElem?.mp hmem
    exact h.after hcall
  followed := by
    intro hidle call hmem hsession hover
    obtain ⟨i, hcall⟩ := List.mem_iff_getElem?.mp hmem
    have hreleased := h.released_of_idle hidle hcall hsession hover
    have honce := h.once hcall
    omega

end Moves

end Invariant

theorem not_oneUser_of_cancel {s : DeviceSessionPool} {t : ℕ}
    (h : sparesDisconnect s (.cancel t) = false) :
    ∃ s', step s (.cancel t) = some s' ∧ ¬ OneUser s' := by
  unfold sparesDisconnect at h
  dsimp only at h
  split at h
  · rename_i closing key fut rest ht
    simp only [Bool.not_eq_false', Option.any_eq_true] at h
    obtain ⟨call, hcall, hrunning⟩ := h
    refine ⟨_, by simp only [step, ht]; rfl, fun hone => ?_⟩
    have hcall' : ((s.modifyCall fut Call.abandon).release key fut).calls[fut]? =
        some { call.abandon with releases := call.releases + 1 } :=
      Invariant.getElem?_release_self (by simp [modifyCall, hcall])
    have hover := hone.after _ (List.mem_iff_getElem?.mpr ⟨fut, hcall'⟩) (Nat.succ_ne_zero _)
    cases hthread : call.thread <;>
      simp [hthread, Call.abandon, Thread.isRunning, Thread.drop, Thread.isOver] at hrunning hover
  · cases h

/-- Whatever tasks run, suspend, close and are cancelled, every state of a run has one user for
each session, and every lock is released once and after the thread, if and only if no task is
cancelled while a thread is at the disconnect it waits for. -/
theorem run_oneUser_iff (enabled : Bool) (maxWorkers : ℕ) (moves : List Move) :
    (∀ before after s, before ++ after = moves →
      runSteps step (.new enabled maxWorkers) before = some s → OneUser s) ↔
    along step sparesDisconnect (.new enabled maxWorkers) moves = true := by
  constructor
  · intro h
    rw [along_iff]
    rintro before move after s hmoves hrun
    refine eq_true_of_ne_false fun hspared => ?_
    cases move with
    | cancel t =>
      obtain ⟨s', hs', hnot⟩ := not_oneUser_of_cancel hspared
      refine hnot (h (before ++ [.cancel t]) after s' (by simpa using hmoves) ?_)
      rw [runSteps_append, hrun]
      exact (bind_pure _).trans hs'
    | _ => cases hspared
  · rintro h before after s rfl hrun
    have hkeeps : ∀ s move s', sparesDisconnect s move = true → step s move = some s' →
        Invariant s → Invariant s' := fun _ _ _ hspared hs' hinv => hinv.step hspared hs'
    exact (runSteps_induction hkeeps hrun (along_append hrun h).1
      (.new enabled maxWorkers)).oneUser

/-- A device is used once. Then `suspend` is cancelled while a thread disconnects the session, and
the next user of the device gets the lock. -/
def cancelledSuspend : List Move :=
  let key := ("10.0.0.1", "cisco_ios", "lab")
  [.runOnDevice key, .resume 0, .start 0 false, .advance 0 true, .advance 0 true, .notify 0,
    .resume 0, .suspend, .resume 1, .start 1 true, .cancel 1, .runOnDevice key, .resume 2,
    .start 2 true]

theorem cancelledSuspend_shared : ∃ s, runSteps step (.new true 10) cancelledSuspend = some s ∧
    (∃ call call', s.calls[1]? = some call ∧ s.calls[2]? = some call' ∧
      call.session = call'.session ∧ call.thread = .running .disconnect [] ∧
      call'.thread = .running .op []) ∧ ¬ OneUser s := by
  refine ⟨_, rfl, ⟨_, _, rfl, rfl, rfl, rfl, rfl⟩, fun h => ?_⟩
  have hsame := h.single 1 2 _ _ rfl rfl (by decide) rfl rfl rfl
  cases hsame

end Manus.Netmiko
