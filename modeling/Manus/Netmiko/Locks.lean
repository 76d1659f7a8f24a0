import Manus.Lib.Table
import Manus.Netmiko.SessionPool

/-! # Who holds the lock of a session

The lock is held for one call at a time, from its acquisition to its release, by the
task that waits for the call or by the callback that the task has left behind.
-/

namespace Manus.Netmiko

open DeviceSessionPool

def AsyncTask.holds : AsyncTask → Option (SessionKey × ℕ)
  | .shielding key fut => some (key, fut)
  | .disconnecting _ key fut _ => some (key, fut)
  | _ => none

def AsyncTask.isFree (task : AsyncTask) : Prop :=
  task.holds = none ∧ ∀ fut, task ≠ .disposing fut

/-- Who holds the lock of which session, and that the threads keep to it. -/
structure Invariant (s : DeviceSessionPool) : Prop where
  held : ∀ {t : ℕ} {task : AsyncTask} {key : SessionKey} {fut : ℕ}, s.tasks[t]? = some task →
    task.holds = some (key, fut) → ∃ call, s.calls[fut]? = some call ∧ call.session = some key ∧
      call.caller = t ∧ call.releases = 0 ∧ call.releaseAfter = false
  disposing : ∀ {t fut : ℕ}, s.tasks[t]? = some (.disposing fut) →
    ∃ call, s.calls[fut]? = some call ∧ call.session = none
  detached : ∀ {i : ℕ} {call : Call}, s.calls[i]? = some call → call.releaseAfter = true →
    call.releases = 0
  kept : ∀ {i : ℕ} {call : Call} {key : SessionKey}, s.calls[i]? = some call →
    call.session = some key → call.releases = 0 → (s.entry key).locked = true ∧
      (call.releaseAfter = true ∨
        ∃ task, s.tasks[call.caller]? = some task ∧ task.holds = some (key, i))
  sole : ∀ {i j : ℕ} {call call' : Call} {key : SessionKey}, s.calls[i]? = some call →
    s.calls[j]? = some call' → call.session = some key → call'.session = some key →
    call.releases = 0 → call'.releases = 0 → i = j
  once : ∀ {i : ℕ} {call : Call}, s.calls[i]? = some call → call.releases ≤ 1
  after : ∀ {i : ℕ} {call : Call}, s.calls[i]? = some call → call.releases ≠ 0 →
    call.thread.isOver = true
  doneOver : ∀ {i : ℕ} {call : Call}, s.calls[i]? = some call → call.session ≠ none →
    call.done = true → call.thread.isOver = true

namespace Invariant

section Frames

variable {s s' : DeviceSessionPool}

theorem of_entries (h : Invariant s) (hcalls : s'.calls = s.calls) (htasks : s'.tasks = s.tasks)
    (hlocked : ∀ key, (s'.entry key).locked = (s.entry key).locked) : Invariant s' where
  held := by rw [hcalls, htasks]; exact h.held
  disposing := by rw [hcalls, htasks]; exact h.disposing
  detached := by rw [hcalls]; exact h.detached
  kept := by simp only [hcalls, htasks, hlocked]; exact h.kept
  sole := by rw [hcalls]; exact h.sole
  once := by rw [hcalls]; exact h.once
  after := by rw [hcalls]; exact h.after
  doneOver := by rw [hcalls]; exact h.doneOver

structure Progress (call call' : Call) : Prop where
  session : call'.session = call.session
  caller : call'.caller = call.caller
  releases : call'.releases = call.releases
  releaseAfter : call'.releaseAfter = call.releaseAfter
  isOver : call.thread.isOver = true → call'.thread.isOver = true
  doneOver : (call.done = true → call.thread.isOver = true) → call.session ≠ none →
    call'.done = true → call'.thread.isOver = true

theorem of_progress (h : Invariant s) {f : ℕ → Call → Call}
    (hcalls : ∀ i, s'.calls[i]? = s.calls[i]?.map (f i)) (htasks : s'.tasks = s.tasks)
    (hentry : s'.entry = s.entry)
    (hf : ∀ i call, s.calls[i]? = some call → Progress call (f i call)) : Invariant s' where
  held := by
    intro t task key fut ht hholds
    obtain ⟨call, hcall, hsession, hcaller, hreleases, hafter⟩ := h.held (htasks ▸ ht) hholds
    have hp := hf fut call hcall
    exact ⟨f fut call, by rw [hcalls, hcall]; rfl, hp.session.trans hsession,
      hp.caller.trans hcaller, hp.releases.trans hreleases, hp.releaseAfter.trans hafter⟩
  disposing := by
    intro t fut ht
    obtain ⟨call, hcall, hsession⟩ := h.disposing (htasks ▸ ht)
    exact ⟨f fut call, by rw [hcalls, hcall]; rfl, (hf fut call hcall).session.trans hsession⟩
  detached := by
    intro i call' hcall' hafter
    obtain ⟨call, hcall, rfl⟩ := Option.map_eq_some_iff.mp ((hcalls i).symm.trans hcall')
    have hp := hf i call hcall
    exact hp.releases.trans (h.detached hcall (hp.releaseAfter.symm.trans hafter))
  kept := by
    intro i call' key hcall' hsession hreleases
    obtain ⟨call, hcall, rfl⟩ := Option.map_eq_some_iff.mp ((hcalls i).symm.trans hcall')
    have hp := hf i call hcall
    rw [hentry, hp.releaseAfter, hp.caller, htasks]
    exact h.kept hcall (hp.session.symm.trans hsession) (hp.releases.symm.trans hreleases)
  sole := by
    intro i j ci cj key hi hj hsi hsj hri hrj
    obtain ⟨call, hcall, rfl⟩ := Option.map_eq_some_iff.mp ((hcalls i).symm.trans hi)
    obtain ⟨call', hcall', rfl⟩ := Option.map_eq_some_iff.mp ((hcalls j).symm.trans hj)
    have hp := hf i call hcall
    have hp' := hf j call' hcall'
    exact h.sole hcall hcall' (hp.session.symm.trans hsi) (hp'.session.symm.trans hsj)
      (hp.releases.symm.trans hri) (hp'.releases.symm.trans hrj)
  once := by
    intro i call' hcall'
    obtain ⟨call, hcall, rfl⟩ := Option.map_eq_some_iff.mp ((hcalls i).symm.trans hcall')
    rw [(hf i call hcall).releases]
    exact h.once hcall
  after := by
    intro i call' hcall' hreleases
    obtain ⟨call, hcall, rfl⟩ := Option.map_eq_some_iff.mp ((hcalls i).symm.trans hcall')
    have hp := hf i call hcall
    exact hp.isOver (h.after hcall (hp.releases ▸ hreleases))
  doneOver := by
    intro i call' hcall' hsession hdone
    obtain ⟨call, hcall, rfl⟩ := Option.map_eq_some_iff.mp ((hcalls i).symm.trans hcall')
    have hp := hf i call hcall
    rw [hp.session] at hsession
    exact hp.doneOver (h.doneOver hcall hsession) hsession hdone

theorem modifyCall (h : Invariant s) {fut : ℕ} {f : Call → Call}
    (hf : ∀ call, s.calls[fut]? = some call → Progress call (f call)) :
    Invariant (s.modifyCall fut f) := by
  refine h.of_progress (f := fun i call => if fut = i then f call else call) (fun i => ?_) rfl rfl
    fun i call hcall => ?_
  · exact List.getElem?_modify ..
  · split
    · rename_i he
      exact hf call (he ▸ hcall)
    · exact ⟨rfl, rfl, rfl, rfl, id, fun hover _ => hover⟩

theorem setTask (h : Invariant s) {t : ℕ} {task task' : AsyncTask} (ht : s.tasks[t]? = some task)
    (hholds : task.holds = none) (hfree : task'.isFree) : Invariant (s.setTask t task') where
  held := by
    intro t' task₀ key fut ht' hholds'
    rcases getElem?_set_some ht' with ⟨rfl, rfl⟩ | ⟨-, ht'⟩
    · rw [hfree.1] at hholds'
      cases hholds'
    · exact h.held ht' hholds'
  disposing := by
    intro t' fut ht'
    rcases getElem?_set_some ht' with ⟨rfl, he⟩ | ⟨-, ht'⟩
    · exact absurd he (hfree.2 fut)
    · exact h.disposing ht'
  detached := h.detached
  kept := by
    intro i call key hcall hsession hreleases
    obtain ⟨hlocked, hafter | ⟨task₀, ht₀, hholds₀⟩⟩ := h.kept hcall hsession hreleases
    · exact ⟨hlocked, .inl hafter⟩
    · refine ⟨hlocked, .inr ⟨task₀, ?_, hholds₀⟩⟩
      rw [DeviceSessionPool.setTask, List.getElem?_set_ne, ht₀]
      rintro rfl
      rw [ht] at ht₀
      cases ht₀
      rw [hholds] at hholds₀
      cases hholds₀
  sole := h.sole
  once := h.once
  after := h.after
  doneOver := h.doneOver

theorem addTask (h : Invariant s) {task : AsyncTask} (hfree : task.isFree) :
    Invariant (s.addTask task) where
  held := by
    intro t task₀ key fut ht hholds
    rcases getElem?_concat_some ht with ht | ⟨rfl, rfl⟩
    · exact h.held ht hholds
    · rw [hfree.1] at hholds
      cases hholds
  disposing := by
    intro t fut ht
    rcases getElem?_concat_some ht with ht | ⟨rfl, he⟩
    · exact h.disposing ht
    · exact absurd he.symm (hfree.2 fut)
  detached := h.detached
  kept := by
    intro i call key hcall hsession hreleases
    obtain ⟨hlocked, hafter | ⟨task₀, ht₀, hholds₀⟩⟩ := h.kept hcall hsession hreleases
    · exact ⟨hlocked, .inl hafter⟩
    · exact ⟨hlocked, .inr ⟨task₀, getElem?_concat_of_some ht₀, hholds₀⟩⟩
  sole := h.sole
  once := h.once
  after := h.after
  doneOver := h.doneOver

end Frames

section Locks

variable {s s' : DeviceSessionPool} {t fut : ℕ} {task task' : AsyncTask} {key : SessionKey}
  {call call' : Call}

/-- A free lock is acquired by a task that holds none. -/
theorem acquire (work : Work) (h : Invariant s) (ht : s.tasks[t]? = some task)
    (hholds : task.holds = none) (hfree : (s.entry key).locked = false)
    (htask' : task'.holds = some (key, s.calls.length)) :
    Invariant ((s.lockAndSubmit t key work).setTask t task') where
  held := by
    intro t' task₀ key' fut' ht' hholds'
    rcases getElem?_set_some ht' with ⟨rfl, rfl⟩ | ⟨-, ht'⟩
    · rw [htask'] at hholds'
      cases hholds'
      exact ⟨_, List.getElem?_concat_length, rfl, rfl, rfl, rfl⟩
    · obtain ⟨call, hcall, hfacts⟩ := h.held ht' hholds'
      exact ⟨call, getElem?_concat_of_some hcall, hfacts⟩
  disposing := by
    intro t' fut' ht'
    rcases getElem?_set_some ht' with ⟨rfl, rfl⟩ | ⟨-, ht'⟩
    · cases htask'
    · obtain ⟨call, hcall, hsession⟩ := h.disposing ht'
      exact ⟨call, getElem?_concat_of_some hcall, hsession⟩
  detached := by
    intro i call hcall hafter
    rcases getElem?_concat_some hcall with hcall | ⟨rfl, rfl⟩
    · exact h.detached hcall hafter
    · rfl
  kept := by
    intro i call key' hcall hsession hreleases
    rcases getElem?_concat_some hcall with hcall | ⟨rfl, rfl⟩
    · obtain ⟨hlocked, hholder⟩ := h.kept hcall hsession hreleases
      have hne : key' ≠ key := by
        rintro rfl
        rw [hlocked] at hfree
        cases hfree
      refine ⟨?_, hholder.imp id ?_⟩
      · simpa [DeviceSessionPool.setTask, lockAndSubmit, modifyEntry, hne] using hlocked
      · rintro ⟨task₀, ht₀, hholds₀⟩
        refine ⟨task₀, ?_, hholds₀⟩
        rw [DeviceSessionPool.setTask, List.getElem?_set_ne, lockAndSubmit, modifyEntry, ht₀]
        rintro rfl
        rw [ht] at ht₀
        cases ht₀
        rw [hholds] at hholds₀
        cases hholds₀
    · cases hsession
      refine ⟨?_, .inr ⟨task', ?_, htask'⟩⟩
      · simp [DeviceSessionPool.setTask, lockAndSubmit, modifyEntry]
      · exact List.getElem?_set_self (List.getElem?_eq_some_iff.mp ht).1
  sole := by
    intro i j ci cj key' hi hj hsi hsj hri hrj
    -- the lock is free, so no call on this session was unreleased before
    have hold : ∀ {i : ℕ} {call : Call}, s.calls[i]? = some call → call.session = some key →
        call.releases ≠ 0 := by
      intro i call hcall hsession hreleases
      rw [(h.kept hcall hsession hreleases).1] at hfree
      cases hfree
    rcases getElem?_concat_some hi with hi | ⟨rfl, rfl⟩
    · rcases getElem?_concat_some hj with hj | ⟨rfl, rfl⟩
      · exact h.sole hi hj hsi hsj hri hrj
      · cases hsj
        exact absurd hri (hold hi hsi)
    · cases hsi
      rcases getElem?_concat_some hj with hj | ⟨rfl, rfl⟩
      · exact absurd hrj (hold hj hsj)
      · rfl
  once := by
    intro i call hcall
    rcases getElem?_concat_some hcall with hcall | ⟨rfl, rfl⟩
    · exact h.once hcall
    · exact Nat.zero_le _
  after := by
    intro i call hcall hreleases
    rcases getElem?_concat_some hcall with hcall | ⟨rfl, rfl⟩
    · exact h.after hcall hreleases
    · exact absurd rfl hreleases
  doneOver := by
    intro i call hcall hsession hdone
    rcases getElem?_concat_some hcall with hcall | ⟨rfl, rfl⟩
    · exact h.doneOver hcall hsession hdone
    · simp only at hdone
      simp [hdone, Thread.isOver]

/-- A call that is over is released, and nobody holds the lock for it any more. -/
theorem of_released (h : Invariant s) (hcall : s.calls[fut]? = some call)
    (hsession : call.session = some key) (hreleases : call.releases = 0)
    (hover : call.thread.isOver = true) (hcall' : s'.calls[fut]? = some call')
    (hsame : call'.session = call.session ∧ call'.thread = call.thread)
    (hreleased : call'.releases = 1 ∧ call'.releaseAfter = false)
    (hcalls : ∀ i, i ≠ fut → s'.calls[i]? = s.calls[i]?)
    (hentry : ∀ key', key' ≠ key → (s'.entry key').locked = (s.entry key').locked)
    (hold : ∀ (t : ℕ) (task : AsyncTask), s'.tasks[t]? = some task →
      task.isFree ∨ s.tasks[t]? = some task ∧ ∀ key', task.holds ≠ some (key', fut))
    (hnew : ∀ (t : ℕ) (task : AsyncTask) (key' : SessionKey) (i : ℕ), s.tasks[t]? = some task →
      task.holds = some (key', i) → i ≠ fut → s'.tasks[t]? = some task) : Invariant s' where
  held := by
    intro t' task' key' fut' ht' hholds'
    rcases hold t' task' ht' with hfree | ⟨ht', hne⟩
    · rw [hfree.1] at hholds'
      cases hholds'
    · obtain ⟨call₀, hcall₀, hfacts⟩ := h.held ht' hholds'
      refine ⟨call₀, ?_, hfacts⟩
      rw [hcalls fut' (by rintro rfl; exact hne key' hholds'), hcall₀]
  disposing := by
    intro t' fut' ht'
    rcases hold t' _ ht' with hfree | ⟨ht', -⟩
    · exact absurd rfl (hfree.2 fut')
    · obtain ⟨call₀, hcall₀, hnone⟩ := h.disposing ht'
      refine ⟨call₀, ?_, hnone⟩
      rw [hcalls, hcall₀]
      rintro rfl
      rw [hcall] at hcall₀
      cases hcall₀
      rw [hsession] at hnone
      cases hnone
  detached := by
    intro i call₀ hcall₀ hafter
    by_cases hi : i = fut
    · subst hi
      rw [hcall'] at hcall₀
      cases hcall₀
      rw [hreleased.2] at hafter
      cases hafter
    · exact h.detached (hcalls i hi ▸ hcall₀) hafter
  kept := by
    intro i call₀ key' hcall₀ hsession₀ hreleases₀
    have hi : i ≠ fut := by
      rintro rfl
      rw [hcall'] at hcall₀
      cases hcall₀
      rw [hreleased.1] at hreleases₀
      cases hreleases₀
    rw [hcalls i hi] at hcall₀
    have hne : key' ≠ key := by
      rintro rfl
      exact hi (h.sole hcall₀ hcall hsession₀ hsession hreleases₀ hreleases)
    rw [hentry key' hne]
    refine (h.kept hcall₀ hsession₀ hreleases₀).imp_right (Or.imp_right ?_)
    rintro ⟨task₀, ht₀, hholds₀⟩
    exact ⟨task₀, hnew _ task₀ key' i ht₀ hholds₀ hi, hholds₀⟩
  sole := by
    have hpast : ∀ {i : ℕ} {call₀ : Call}, s'.calls[i]? = some call₀ → call₀.releases = 0 →
        s.calls[i]? = some call₀ := by
      intro i call₀ hcall₀ hreleases₀
      rw [← hcalls i, hcall₀]
      rintro rfl
      rw [hcall'] at hcall₀
      cases hcall₀
      rw [hreleased.1] at hreleases₀
      cases hreleases₀
    intro i j ci cj key' hi hj hsi hsj hri hrj
    exact h.sole (hpast hi hri) (hpast hj hrj) hsi hsj hri hrj
  once := by
    intro i call₀ hcall₀
    by_cases hi : i = fut
    · subst hi
      rw [hcall'] at hcall₀
      cases hcall₀
      exact Nat.le_of_eq hreleased.1
    · exact h.once (hcalls i hi ▸ hcall₀)
  after := by
    intro i call₀ hcall₀ hreleases₀
    by_cases hi : i = fut
    · subst hi
      rw [hcall'] at hcall₀
      cases hcall₀
      rw [hsame.2, hover]
    · exact h.after (hcalls i hi ▸ hcall₀) hreleases₀
  doneOver := by
    intro i call₀ hcall₀ hsession₀ hdone
    by_cases hi : i = fut
    · subst hi
      rw [hcall'] at hcall₀
      cases hcall₀
      rw [hsame.2, hover]
    · exact h.doneOver (hcalls i hi ▸ hcall₀) hsession₀ hdone

theorem getElem?_release_self (hcall : s.calls[fut]? = some call) :
    (s.release key fut).calls[fut]? = some { call with releases := call.releases + 1 } := by
  simp [DeviceSessionPool.release, DeviceSessionPool.modifyCall, modifyEntry, hcall]

theorem getElem?_release_ne {i : ℕ} (hi : i ≠ fut) :
    (s.release key fut).calls[i]? = s.calls[i]? := by
  simp [DeviceSessionPool.release, DeviceSessionPool.modifyCall, modifyEntry, hi.symm]

theorem release_locked {f : ℕ} {key' : SessionKey} (hne : key' ≠ key) :
    ((s.release key f).entry key').locked = (s.entry key').locked := by
  simp [DeviceSessionPool.release, DeviceSessionPool.modifyCall, modifyEntry, hne]

theorem release (h : Invariant s) (ht : s.tasks[t]? = some task)
    (hholds : task.holds = some (key, fut))
    (hover : ∀ call, s.calls[fut]? = some call → call.thread.isOver = true)
    (hfree : task'.isFree) : Invariant ((s.release key fut).setTask t task') := by
  obtain ⟨call, hcall, hsession, hcaller, hreleases, hafter⟩ := h.held ht hholds
  refine h.of_released hcall hsession hreleases (hover call hcall) (getElem?_release_self hcall)
    ⟨rfl, rfl⟩ ⟨congrArg (· + 1) hreleases, hafter⟩ (fun i => getElem?_release_ne)
    (fun key' => release_locked (f := fut))
    (fun t' task₀ ht' => ?_) fun t' task₀ key' i ht' hholds' hi => ?_
  · rcases getElem?_set_some ht' with ⟨rfl, rfl⟩ | ⟨hne, ht'⟩
    · exact .inl hfree
    · refine .inr ⟨ht', fun key' hholds' => hne ?_⟩
      obtain ⟨call', hcall', -, hcaller', -⟩ := h.held ht' hholds'
      rw [hcall] at hcall'
      cases hcall'
      exact hcaller.symm.trans hcaller'
  · refine (List.getElem?_set_ne ?_).trans ht'
    rintro rfl
    rw [ht] at ht'
    cases ht'
    rw [hholds] at hholds'
    cases hholds'
    exact hi rfl

theorem setInflight {inflight : Option ℕ} (h : Invariant s) :
    Invariant (s.setInflight key inflight) := by
  refine h.of_entries rfl rfl fun key' => ?_
  by_cases he : key' = key
  · subst he
    simp [DeviceSessionPool.setInflight, modifyEntry]
  · simp [DeviceSessionPool.setInflight, modifyEntry, he]

theorem callback (h : Invariant s) (hcall : s.calls[fut]? = some call)
    (hsession : call.session = some key) (hdone : call.done = true)
    (hafter : call.releaseAfter = true) :
    Invariant
      ((s.modifyCall fut fun call => { call with releaseAfter := false }).release key fut) := by
  have hover := h.doneOver hcall (by rw [hsession]; exact Option.some_ne_none key) hdone
  have hcall' : (s.modifyCall fut fun call => { call with releaseAfter := false }).calls[fut]? =
      some { call with releaseAfter := false } := by
    simp [DeviceSessionPool.modifyCall, hcall]
  have hreleases := h.detached hcall hafter
  refine h.of_released hcall hsession hreleases hover (getElem?_release_self hcall') ⟨rfl, rfl⟩
    ⟨congrArg (· + 1) hreleases, rfl⟩ (fun i hi => ?_) (fun key' hne => ?_)
    (fun t task ht => .inr ⟨ht, fun key' hholds => ?_⟩) fun t task key' i ht _ _ => ht
  · rw [getElem?_release_ne hi]
    simp [DeviceSessionPool.modifyCall, hi.symm]
  · rw [release_locked hne]
    rfl
  · obtain ⟨call₀, hcall₀, -, -, -, hafter₀⟩ := h.held ht hholds
    rw [hcall] at hcall₀
    cases hcall₀
    rw [hafter] at hafter₀
    cases hafter₀

/-- A cancelled task leaves the lock to the callback. -/
theorem detach (h : Invariant s) (ht : s.tasks[t]? = some task)
    (hholds : task.holds = some (key, fut)) : Invariant (s.detach t fut) := by
  obtain ⟨call, hcall, hsession, hcaller, hreleases, hafter⟩ := h.held ht hholds
  have hself : (s.detach t fut).calls[fut]? = some { call with releaseAfter := true } := by
    simp [DeviceSessionPool.detach, DeviceSessionPool.modifyCall, DeviceSessionPool.setTask, hcall]
  have hother : ∀ i, i ≠ fut → (s.detach t fut).calls[i]? = s.calls[i]? := by
    intro i hi
    simp [DeviceSessionPool.detach, DeviceSessionPool.modifyCall, DeviceSessionPool.setTask,
      hi.symm]
  -- apart from who releases it, a call is as before
  have hpast : ∀ {i : ℕ} {call' : Call}, (s.detach t fut).calls[i]? = some call' →
      ∃ call₀, s.calls[i]? = some call₀ ∧ call'.session = call₀.session ∧
        call'.caller = call₀.caller ∧ call'.releases = call₀.releases ∧
        call'.thread = call₀.thread ∧ call'.done = call₀.done := by
    intro i call' hcall'
    by_cases hi : i = fut
    · subst hi
      rw [hself] at hcall'
      cases hcall'
      exact ⟨call, hcall, rfl, rfl, rfl, rfl, rfl⟩
    · exact ⟨call', hother i hi ▸ hcall', rfl, rfl, rfl, rfl, rfl⟩
  constructor
  case held =>
    intro t' task' key' fut' ht' hholds'
    rcases getElem?_set_some ht' with ⟨rfl, rfl⟩ | ⟨hne, ht'⟩
    · cases hholds'
    · obtain ⟨call', hcall', hfacts⟩ := h.held ht' hholds'
      refine ⟨call', (hother fut' ?_).trans hcall', hfacts⟩
      rintro rfl
      rw [hcall] at hcall'
      cases hcall'
      exact hne (hcaller.symm.trans hfacts.2.1)
  case disposing =>
    intro t' fut' ht'
    rcases getElem?_set_some ht' with ⟨rfl, he⟩ | ⟨-, ht'⟩
    · cases he
    · obtain ⟨call', hcall', hnone⟩ := h.disposing ht'
      refine ⟨call', (hother fut' ?_).trans hcall', hnone⟩
      rintro rfl
      rw [hcall] at hcall'
      cases hcall'
      rw [hsession] at hnone
      cases hnone
  case detached =>
    intro i call' hcall' hafter'
    by_cases hi : i = fut
    · subst hi
      rw [hself] at hcall'
      cases hcall'
      exact hreleases
    · exact h.detached (hother i hi ▸ hcall') hafter'
  case kept =>
    intro i call' key' hcall' hsession' hreleases'
    by_cases hi : i = fut
    · subst hi
      rw [hself] at hcall'
      cases hcall'
      exact ⟨(h.kept hcall hsession' hreleases').1, .inl rfl⟩
    · rw [hother i hi] at hcall'
      refine (h.kept hcall' hsession' hreleases').imp_right (Or.imp_right ?_)
      rintro ⟨task₀, ht₀, hholds₀⟩
      refine ⟨task₀, (List.getElem?_set_ne ?_).trans ht₀, hholds₀⟩
      rintro rfl
      rw [ht] at ht₀
      cases ht₀
      rw [hholds] at hholds₀
      cases hholds₀
      exact hi rfl
  case sole =>
    intro i j ci cj key' hi hj hsi hsj hri hrj
    obtain ⟨call₀, hcall₀, hs₀, -, hr₀, -⟩ := hpast hi
    obtain ⟨call₁, hcall₁, hs₁, -, hr₁, -⟩ := hpast hj
    exact h.sole hcall₀ hcall₁ (hs₀ ▸ hsi) (hs₁ ▸ hsj) (hr₀ ▸ hri) (hr₁ ▸ hrj)
  case once =>
    intro i call' hcall'
    obtain ⟨call₀, hcall₀, -, -, hr₀, -⟩ := hpast hcall'
    exact hr₀ ▸ h.once hcall₀
  case after =>
    intro i call' hcall' hreleases'
    obtain ⟨call₀, hcall₀, -, -, hr₀, hthread, -⟩ := hpast hcall'
    exact hthread ▸ h.after hcall₀ (hr₀ ▸ hreleases')
  case doneOver =>
    intro i call' hcall' hsession' hdone
    obtain ⟨call₀, hcall₀, hs₀, -, -, hthread, hd₀⟩ := hpast hcall'
    exact hthread ▸ h.doneOver hcall₀ (hs₀ ▸ hsession') (hd₀ ▸ hdone)

/-- A call on a session that is not pooled holds no lock. -/
theorem dispose {work : Work} (h : Invariant s) : Invariant (s.dispose work) := by
  unfold DeviceSessionPool.dispose
  split
  · exact h
  constructor
  case held =>
    intro t task key fut ht hholds
    rcases getElem?_concat_some ht with ht | ⟨rfl, rfl⟩
    · obtain ⟨call, hcall, hfacts⟩ := h.held ht hholds
      exact ⟨call, getElem?_concat_of_some hcall, hfacts⟩
    · cases hholds
  case disposing =>
    intro t fut ht
    rcases getElem?_concat_some ht with ht | ⟨rfl, he⟩
    · obtain ⟨call, hcall, hnone⟩ := h.disposing ht
      exact ⟨call, getElem?_concat_of_some hcall, hnone⟩
    · cases he
      exact ⟨_, List.getElem?_concat_length, rfl⟩
  case detached =>
    intro i call hcall hafter
    rcases getElem?_concat_some hcall with hcall | ⟨rfl, rfl⟩
    · exact h.detached hcall hafter
    · rfl
  case kept =>
    intro i call key hcall hsession hreleases
    rcases getElem?_concat_some hcall with hcall | ⟨rfl, rfl⟩
    · refine (h.kept hcall hsession hreleases).imp_right (Or.imp_right ?_)
      rintro ⟨task, ht, hholds⟩
      exact ⟨task, getElem?_concat_of_some ht, hholds⟩
    · cases hsession
  case sole =>
    intro i j ci cj key hi hj hsi hsj hri hrj
    rcases getElem?_concat_some hi with hi | ⟨rfl, rfl⟩
    · rcases getElem?_concat_some hj with hj | ⟨rfl, rfl⟩
      · exact h.sole hi hj hsi hsj hri hrj
      · cases hsj
    · cases hsi
  case once =>
    intro i call hcall
    rcases getElem?_concat_some hcall with hcall | ⟨rfl, rfl⟩
    · exact h.once hcall
    · exact Nat.zero_le _
  case after =>
    intro i call hcall hreleases
    rcases getElem?_concat_some hcall with hcall | ⟨rfl, rfl⟩
    · exact h.after hcall hreleases
    · exact absurd rfl hreleases
  case doneOver =>
    intro i call hcall hsession hdone
    rcases getElem?_concat_some hcall with hcall | ⟨rfl, rfl⟩
    · exact h.doneOver hcall hsession hdone
    · exact absurd rfl hsession

end Locks

end Invariant

end Manus.Netmiko
