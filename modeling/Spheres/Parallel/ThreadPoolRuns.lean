import Mathlib.Algebra.BigOperators.Fin
import Mathlib.Algebra.Order.BigOperators.Group.Finset
import Spheres.Parallel.ThreadPool

/-!
# Runs of the thread pool

Every state that a run reaches has the properties of the handshake: bodies run
once for each task and only during its call, nothing runs when a call returns,
and nothing shared is touched after the destructor. The handshake also makes
progress: a measure charges every wake-up to the step that causes it, and a
blocked submitter always finds a worker that can move.
-/

namespace Spheres.Parallel.ThreadPool

open Library.Rounds

variable {n : Nat} {T : Type*}

/-- The next action of the worker reads the context or the counter. -/
def Accesses : WorkerPc T → Prop
  | .wait | .blocked | .enter | .running _ => True
  | _ => False

/-- What every reachable state has. -/
structure Handshake (tasks : List T) (p : ThreadPool n T) : Prop where
  /-- A body runs during its call, after the counter was raised and before the
  worker's own flag is, and for the first time. -/
  running : ∀ w t, (p.worker w).pc = .running t → ∃ j, tasks[j]? = some t ∧
    p.calls = callsFrom tasks j ∧ (p.submitter ≠ .setTask ∧ ∀ i, p.submitter ≠ .reset i) ∧
    p.jobDone w = false ∧ p.ran w = tasks.take (j + 1)
  /-- When a call has returned, every worker has run the bodies of the tasks
  submitted so far, each once and in order, and runs none. -/
  returned : p.submitter = .setTask → ∃ j, p.calls = callsFrom tasks j ∧
    ∀ w, p.ran w = tasks.take j ∧ ∀ t, (p.worker w).pc ≠ .running t
  /-- After the destructor nobody touches the context or the counter. -/
  destroyed : p.submitter = .done → ∀ w, p.ran w = tasks ∧ ¬ Accesses (p.worker w).pc

section Safety

variable {tasks : List T} {p : ThreadPool n T}

theorem not_running_of_rests {pc : WorkerPc T} (h : Rests pc) (t : T) : pc ≠ .running t := by
  rintro rfl
  exact h

theorem not_running_of_leaves {pc : WorkerPc T} (h : Leaves pc) (t : T) : pc ≠ .running t := by
  rintro rfl
  exact h

theorem Busy.running {j : Nat} {call : ParallelTask T} (h : Busy tasks j call p) {w : Fin n} {t : T}
    (hpc : (p.worker w).pc = .running t) :
    tasks[j]? = some t ∧ p.jobDone w = false ∧ p.ran w = tasks.take (j + 1) := by
  obtain ⟨behind, -, hs⟩ := h.serving w
  rw [hpc] at hs
  generalize p.jobDone w = flag at hs ⊢
  generalize p.ran w = bodies at hs ⊢
  have hhead := h.head
  cases hs with
  | behind hrests => exact hrests.elim
  | served _ hrests => exact hrests.elim
  | left _ hleaves => exact hleaves.elim
  | running hc =>
    rcases Nat.lt_or_ge j tasks.length with hj | hj
    · rw [callsFrom_of_lt hj, List.head?_cons, hc, Option.some.injEq] at hhead
      cases hhead
      exact ⟨List.getElem?_eq_getElem hj, rfl, List.take_append_getElem hj⟩
    · obtain rfl : j = tasks.length := Nat.le_antisymm h.le hj
      rw [callsFrom_length, List.head?_cons, hc] at hhead
      cases hhead

theorem handshake_of_inv (h : Inv tasks p) : Handshake tasks p := by
  unfold Inv at h
  refine ⟨fun w t hpc => ?_, fun hsub => ?_, fun hsub w => ?_⟩
  · cases hsub : p.submitter with
    | setTask =>
      simp only [hsub] at h
      obtain ⟨j, hidle⟩ := h
      exact absurd hpc (not_running_of_rests (hidle.rests w) t)
    | reset i =>
      simp only [hsub] at h
      obtain ⟨j, hidle, -⟩ := h
      exact absurd hpc (not_running_of_rests (hidle.rests w) t)
    | notifyAll =>
      simp only [hsub] at h
      obtain ⟨j, call, hbusy⟩ := h
      obtain ⟨htask, hflag, hran⟩ := hbusy.running hpc
      exact ⟨j, htask, hbusy.calls, by simp, hflag, hran⟩
    | wait i =>
      simp only [hsub] at h
      obtain ⟨j, call, hbusy, -⟩ := h
      obtain ⟨htask, hflag, hran⟩ := hbusy.running hpc
      exact ⟨j, htask, hbusy.calls, by simp, hflag, hran⟩
    | blocked i =>
      simp only [hsub] at h
      obtain ⟨j, call, hbusy, -⟩ := h
      obtain ⟨htask, hflag, hran⟩ := hbusy.running hpc
      exact ⟨j, htask, hbusy.calls, by simp, hflag, hran⟩
    | done =>
      simp only [hsub] at h
      exact absurd hpc (not_running_of_leaves (h.2 w).1 t)
  · simp only [hsub] at h
    obtain ⟨j, hidle⟩ := h
    exact ⟨j, hidle.calls, fun w => ⟨hidle.ran w, not_running_of_rests (hidle.rests w)⟩⟩
  · simp only [hsub] at h
    obtain ⟨hleaves, hran⟩ := h.2 w
    refine ⟨hran, ?_⟩
    revert hleaves
    cases (p.worker w).pc <;> simp [Leaves, Accesses]

end Safety

/-! ## Progress -/

/-- The price of what a worker can still do before it blocks or ends; a worker
that has a task to take is charged for the whole task. -/
def workerCost (globalTaskId : UInt64) (wk : Worker T) : Nat :=
  match wk.pc with
  | .blocked | .terminated => 0
  | .exitNotify => 2
  | .exitStore => 4
  | .wait => if globalTaskId = wk.taskId then 2 else 12
  | .notify => if globalTaskId = wk.taskId then 4 else 14
  | .store => 6
  | .running _ => 8
  | .enter => 10

/-- The price of what the submitter can still do, with the wake-ups it causes. -/
def submitterCost (n : Nat) (calls : Nat) : SubmitterPc n → Nat
  | .done => 0
  | .setTask => (25 * n + 4) * calls
  | .reset i => (25 * n + 4) * (calls - 1) + 24 * n + 3 + (n - i)
  | .notifyAll => (25 * n + 4) * (calls - 1) + 14 * n + 2
  | .wait i => (25 * n + 4) * (calls - 1) + 2 * (n - i) + 1
  | .blocked i => (25 * n + 4) * (calls - 1) + 2 * (n - i)

def measure (p : ThreadPool n T) : Nat :=
  submitterCost n p.calls.length p.submitter + ∑ w, workerCost p.globalTaskId (p.worker w)

section Progress

variable {tasks : List T} {p : ThreadPool n T} {wk : Worker T} {g : UInt64}

theorem Busy.store {j : Nat} {call : ParallelTask T} (h : Busy tasks j call p) {w : Fin n}
    (hpc : (p.worker w).pc = .store) : p.globalTaskId = (p.worker w).taskId := by
  obtain ⟨behind, hid, hs⟩ := h.serving w
  rw [hpc] at hs
  generalize p.jobDone w = flag at hs
  generalize p.ran w = bodies at hs
  cases hs with
  | behind hrests => exact hrests.elim
  | store => simpa using hid
  | served _ hrests => exact hrests.elim
  | left _ hleaves => exact hleaves.elim

/-- A worker that raises its flag has taken the task. -/
theorem inv_store (h : Inv tasks p) {w : Fin n} (hpc : (p.worker w).pc = .store) :
    p.globalTaskId = (p.worker w).taskId := by
  unfold Inv at h
  have hnot : ¬ Rests (p.worker w).pc := by simp [hpc, Rests]
  cases hsub : p.submitter with
  | setTask =>
    simp only [hsub] at h
    obtain ⟨j, hidle⟩ := h
    exact absurd (hidle.rests w) hnot
  | reset i =>
    simp only [hsub] at h
    obtain ⟨j, hidle, -⟩ := h
    exact absurd (hidle.rests w) hnot
  | notifyAll =>
    simp only [hsub] at h
    obtain ⟨j, call, hbusy⟩ := h
    exact hbusy.store hpc
  | wait i =>
    simp only [hsub] at h
    obtain ⟨j, call, hbusy, -⟩ := h
    exact hbusy.store hpc
  | blocked i =>
    simp only [hsub] at h
    obtain ⟨j, call, hbusy, -⟩ := h
    exact hbusy.store hpc
  | done =>
    simp only [hsub] at h
    have hleaves := (h.2 w).1
    simp [hpc, Leaves] at hleaves

/-- A step of a worker that is not blocked and has not ended lowers its cost. -/
theorem workerStep_cost (h : Inv tasks p) (w : Fin n) :
    ((p.worker w).pc = .blocked ∨ (p.worker w).pc = .terminated) ∧ p.workerStep w false = p ∨
      workerCost p.globalTaskId ((p.workerStep w false).worker w) + 2 ≤
        workerCost p.globalTaskId (p.worker w) := by
  cases hpc : (p.worker w).pc with
  | blocked => exact Or.inl ⟨Or.inl rfl, by simp [workerStep, hpc]⟩
  | terminated => exact Or.inl ⟨Or.inr rfl, by simp [workerStep, hpc]⟩
  | wait =>
    right
    by_cases hid : p.globalTaskId = (p.worker w).taskId
    · simp [workerStep, hpc, hid, workerCost]
    · simp [workerStep, hpc, hid, workerCost]
  | enter =>
    right
    cases htask : p.task <;> simp [workerStep, hpc, htask, workerCost]
  | notify =>
    right
    by_cases hid : p.globalTaskId = (p.worker w).taskId
    · simp [workerStep, hpc, hid, workerCost]
    · simp [workerStep, hpc, hid, workerCost]
  | running t => exact Or.inr (by simp [workerStep, hpc, workerCost])
  | store =>
    have hid := inv_store h hpc
    right
    have hstored : (p.storeDone w).worker w = p.worker w := rfl
    simp only [workerStep, hpc, worker_setPc_self, workerCost]
    rw [hstored, if_pos hid]
  | exitStore => exact Or.inr (by simp [workerStep, hpc, workerCost])
  | exitNotify => exact Or.inr (by simp [workerStep, hpc, workerCost])

/-- Waking the submitter costs one. -/
theorem submitterCost_le {w : Fin n} {p' : ThreadPool n T} (h : Frame w p p') :
    submitterCost n p'.calls.length p'.submitter ≤
      submitterCost n p.calls.length p.submitter + 1 := by
  rw [h.calls]
  rcases h.submitter with heq | ⟨heq, heq'⟩
  · rw [heq]
    exact Nat.le_succ _
  · rw [heq, heq']
    exact le_rfl

theorem measure_workerStep (h : Inv tasks p) (w : Fin n) :
    p.workerStep w false = p ∨ measure (p.workerStep w false) < measure p := by
  rcases workerStep_cost h w with ⟨-, hsame⟩ | hcost
  · exact Or.inl hsame
  · right
    have hframe := frame_workerStep p w false
    have hsplit : ∀ f : Fin n → Nat, ∑ v, f v = f w + ∑ v ∈ Finset.univ.erase w, f v := fun f =>
      (Finset.add_sum_erase _ f (Finset.mem_univ w)).symm
    have hothers : ∑ v ∈ Finset.univ.erase w,
        workerCost p.globalTaskId ((p.workerStep w false).worker v) =
          ∑ v ∈ Finset.univ.erase w, workerCost p.globalTaskId (p.worker v) :=
      Finset.sum_congr rfl fun v hv => by rw [hframe.worker v (Finset.ne_of_mem_erase hv)]
    have hsub := submitterCost_le hframe
    rw [measure, measure, hframe.globalTaskId, hsplit, hsplit fun v =>
      workerCost p.globalTaskId (p.worker v), hothers]
    omega

/-- The raise of the counter gives every worker a task to take. -/
theorem workerCost_raise (h : Rests wk.pc) (hid : wk.taskId = g) :
    workerCost (g + 1) wk ≤ workerCost g wk + 10 := by
  subst hid
  have hne := succ_ne_self wk.taskId
  cases hpc : wk.pc with
  | wait => simp [workerCost, hpc, hne]
  | blocked => simp [workerCost, hpc]
  | notify => simp [workerCost, hpc, hne]
  | _ => simp [hpc, Rests] at h

theorem workerCost_wake (g : UInt64) (wk : Worker T) :
    workerCost g (wake wk) ≤ workerCost g wk + 12 := by
  unfold wake
  split
  · simp only [workerCost]
    split <;> omega
  · exact Nat.le_add_right _ _

/-- A bound on the costs of all workers after a change that concerns them all. -/
theorem sum_le_sum_add {f f' : Fin n → Nat} {d : Nat} (h : ∀ w, f' w ≤ f w + d) :
    ∑ w, f' w ≤ (∑ w, f w) + d * n := by
  refine (Finset.sum_le_sum fun w _ => h w).trans_eq ?_
  rw [Finset.sum_add_distrib, Finset.sum_const, Finset.card_univ, Fintype.card_fin,
    Nat.nsmul_eq_mul, Nat.mul_comm]

theorem measure_submitterStep (h : Inv tasks p) :
    ((∃ i, p.submitter = .blocked i) ∨ p.submitter = .done) ∧ p.submitterStep false = p ∨
      measure (p.submitterStep false) < measure p := by
  have hinv := h
  unfold Inv at h
  cases hsub : p.submitter with
  | blocked i => exact Or.inl ⟨Or.inl ⟨i, rfl⟩, by simp [submitterStep, hsub]⟩
  | done => exact Or.inl ⟨Or.inr rfl, by simp [submitterStep, hsub]⟩
  | setTask =>
    right
    simp only [hsub] at h
    obtain ⟨j, hidle⟩ := h
    cases hcalls : p.calls with
    | nil =>
      have := hidle.calls
      simp [hcalls, callsFrom] at this
    | cons call rest =>
      simp only [submitterStep, hsub, hcalls, measure, submitterCost, List.length_cons,
        Nat.mul_succ, Nat.add_sub_cancel]
      omega
  | reset i =>
    right
    simp only [hsub] at h
    obtain ⟨j, hidle, -⟩ := h
    by_cases hi : i < n
    · simp only [submitterStep, hsub, dif_pos hi, measure, submitterCost]
      omega
    · have hraise := sum_le_sum_add fun w => workerCost_raise (hidle.rests w) (hidle.taskId w)
      simp only [submitterStep, hsub, dif_neg hi, measure, submitterCost]
      omega
  | notifyAll =>
    right
    have hwake := sum_le_sum_add fun w => workerCost_wake p.globalTaskId (p.worker w)
    simp only [submitterStep, hsub, measure, submitterCost]
    omega
  | wait i =>
    right
    simp only [hsub] at h
    obtain ⟨j, call, hbusy, -⟩ := h
    by_cases hi : i < n
    · by_cases hflag : p.jobDone ⟨i, hi⟩ = true
      · simp only [submitterStep, hsub, dif_pos hi, if_pos hflag, measure, submitterCost]
        omega
      · simp only [submitterStep, hsub, dif_pos hi, if_neg hflag, measure, submitterCost]
        omega
    · rcases Nat.lt_or_ge j tasks.length with hj | hj
      · have hcalls := hbusy.calls.trans (callsFrom_of_lt hj)
        simp only [submitterStep, hsub, dif_neg hi, hcalls, measure, submitterCost,
          List.length_cons, Nat.add_sub_cancel]
        omega
      · obtain rfl : j = tasks.length := Nat.le_antisymm hbusy.le hj
        have hcalls := hbusy.calls.trans (callsFrom_length tasks)
        simp only [submitterStep, hsub, dif_neg hi, hcalls, measure, submitterCost]
        omega

/-- The destructor has returned and all workers have ended. -/
def Ended (p : ThreadPool n T) : Prop :=
  p.submitter = .done ∧ ∀ w, (p.worker w).pc = .terminated

theorem ended_step (h : Ended p) (x : Option (Fin n) × Bool) : Ended (p.step x) := by
  obtain ⟨w, label⟩ := x
  cases w with
  | none => simpa [step, submitterStep, h.1] using h
  | some w => simpa [step, workerStep, h.2 w] using h

/-- A worker whose flag is down has the task still to take or is serving it. -/
theorem Serving.lowered {call : ParallelTask T} {before bodies : List T} {pc : WorkerPc T}
    {behind : Bool} (h : Serving call before pc behind false bodies) :
    behind = true ∧ Rests pc ∨ ¬ Rests pc ∧ pc ≠ .terminated := by
  cases h with
  | behind hrests => exact Or.inl ⟨rfl, hrests⟩
  | enter => exact Or.inr ⟨id, by simp⟩
  | running => exact Or.inr ⟨id, by simp⟩
  | store => exact Or.inr ⟨id, by simp⟩
  | exitStore => exact Or.inr ⟨id, by simp⟩

/-- The worker that a blocked submitter waits for is neither blocked nor ended. -/
theorem Busy.awaited {j : Nat} {call : ParallelTask T} (h : Busy tasks j call p) {i : Fin n}
    (hawake : p.globalTaskId ≠ (p.worker i).taskId → (p.worker i).pc ≠ .blocked)
    (hann : p.jobDone i = true → (p.worker i).pc = .notify ∨ (p.worker i).pc = .exitNotify) :
    (p.worker i).pc ≠ .blocked ∧ (p.worker i).pc ≠ .terminated := by
  obtain ⟨behind, hid, hs⟩ := h.serving i
  cases hflag : p.jobDone i with
  | true => rcases hann hflag with hpc | hpc <;> simp [hpc]
  | false =>
    rw [hflag] at hs
    rcases hs.lowered with ⟨rfl, hrests⟩ | ⟨hnot, hne⟩
    · refine ⟨hawake fun heq => ?_, fun hpc => ?_⟩
      · rw [heq] at hid
        exact succ_ne_self _ hid.symm
      · rw [hpc] at hrests
        exact hrests
    · refine ⟨fun hpc => hnot ?_, hne⟩
      rw [hpc]
      trivial

/-- In every state that is not final some process can move. -/
theorem exists_move (h : Inv tasks p) (hnot : ¬ Ended p) :
    ∃ t, ∀ label, label = false → p.step (t, label) ≠ p := by
  have hworker : ∀ w, (p.worker w).pc ≠ .blocked → (p.worker w).pc ≠ .terminated →
      ∃ t, ∀ label, label = false → p.step (t, label) ≠ p := by
    intro w hblocked hterminated
    refine ⟨some w, ?_⟩
    rintro label rfl hsame
    have hsame : p.workerStep w false = p := hsame
    rcases workerStep_cost h w with ⟨hpc, -⟩ | hcost
    · exact hpc.elim hblocked hterminated
    · rw [hsame] at hcost
      omega
  have hinv := h
  unfold Inv at h
  cases hsub : p.submitter with
  | done =>
    simp only [hsub] at h
    obtain ⟨w, hw⟩ : ∃ w, (p.worker w).pc ≠ .terminated := by
      by_contra hall
      push Not at hall
      exact hnot ⟨hsub, hall⟩
    refine hworker w ?_ hw
    intro hpc
    have hleaves := (h.2 w).1
    simp [hpc, Leaves] at hleaves
  | blocked i =>
    simp only [hsub] at h
    obtain ⟨j, call, hbusy, -, hawake, hann⟩ := h
    obtain ⟨hblocked, hterminated⟩ := hbusy.awaited (hawake i) hann
    exact hworker i hblocked hterminated
  | _ =>
    refine ⟨none, ?_⟩
    rintro label rfl hsame
    have hsame : p.submitterStep false = p := hsame
    rcases measure_submitterStep hinv with ⟨hidle, -⟩ | hless
    · simp [hsub] at hidle
    · rw [hsame] at hless
      omega

/-- The handshake of the pool. Under every schedule every state has the
properties of `Handshake`; and once every process has had a turn in each of
enough rounds, in which bodies end and no process wakes without reason, the
destructor has returned, all workers have ended, and each has run the body of
each task exactly once. -/
theorem threadPool_handshake (n : Nat) (tasks : List T) :
    (∀ sched : List (Option (Fin n) × Bool),
        Handshake tasks (run step sched (start n tasks))) ∧
      ∀ rounds : List (List (Option (Fin n) × Bool)),
        (∀ xs ∈ rounds, IsRound xs ∧ ∀ x ∈ xs, x.2 = false) →
        measure (start n tasks) < rounds.length →
        Ended (run step rounds.flatten (start n tasks)) ∧
          ∀ w, (run step rounds.flatten (start n tasks)).ran w = tasks := by
  have hreach : ∀ sched : List (Option (Fin n) × Bool),
      Inv tasks (run step sched (start n tasks)) := fun sched =>
    run_inv (Inv tasks) (fun _ x h => inv_step h x) sched (inv_start n tasks)
  refine ⟨fun sched => handshake_of_inv (hreach sched), fun rounds hrounds hlength => ?_⟩
  have hended : Ended (run step rounds.flatten (start n tasks)) := by
    apply run_rounds (fun _ x h => inv_step h x) _ (fun _ x h => ended_step h x)
      (fun _ h hnot => exists_move h hnot) rounds hrounds (inv_start n tasks) hlength
    rintro p ⟨w, label⟩ h rfl
    cases w with
    | none => exact (measure_submitterStep h).imp_left And.right
    | some w => exact measure_workerStep h w
  exact ⟨hended, fun w => ((handshake_of_inv (hreach _)).destroyed hended.1 w).1⟩

/-- Two workers, two tasks and two hundred rounds. -/
theorem threadPool_handshake_two :
    Ended (run step (List.replicate 200 [(none, false), (some 0, false), (some 1, false)]).flatten
        (start 2 [true, false])) ∧
      ∀ w, (run step (List.replicate 200
        [(none, false), (some 0, false), (some 1, false)]).flatten (start 2 [true, false])).ran w =
          [true, false] := by
  refine (threadPool_handshake 2 [true, false]).2 _ (fun xs hxs => ?_) ?_
  · obtain rfl := List.eq_of_mem_replicate hxs
    exact ⟨fun t => ⟨false, by revert t; decide⟩, by decide⟩
  · rw [List.length_replicate]
    decide

end Progress

end Spheres.Parallel.ThreadPool
