import Mathlib.Logic.Function.Basic
import Mathlib.Data.List.Basic
import Spheres.Library.Rounds

/-!
# The handshake of the thread pool

The submitter and the workers are processes with sequentially consistent
atomics. `global_task_id` counts the submitted tasks, every worker counts the
tasks it has taken, and `job_done` is one flag for each worker, reset by the
submitter before it raises the counter. A wait that finds its argument blocks
until it is notified or woken without reason, and then compares again.

The labels of a schedule say what the machine decides: whether a blocked
process wakes without reason, and whether the body of a task goes on.
-/

namespace Spheres.Parallel

/-- `context->task`: a task with a body, or the request to exit. -/
inductive ParallelTask (T : Type*) where
  | nop
  | body (t : T)
  | exit
  deriving DecidableEq

/-- Where a worker stands in `spheres_worker`. -/
inductive WorkerPc (T : Type*) where
  | wait
  | blocked
  | enter
  | running (t : T)
  | store
  | notify
  | exitStore
  | exitNotify
  | terminated
  deriving DecidableEq

/-- Where the submitter stands in `submit_and_block` or `~ThreadPool`. -/
inductive SubmitterPc (n : Nat) where
  | setTask
  | reset (i : Nat)
  | notifyAll
  | wait (i : Nat)
  | blocked (i : Fin n)
  | done
  deriving DecidableEq

structure Worker (T : Type*) where
  pc : WorkerPc T
  taskId : UInt64

/-- The pool with its submitter. `calls` are the calls of `submit_and_block` from
the current one on and the destructor; `ran` records the bodies that a worker
has begun. -/
structure ThreadPool (n : Nat) (T : Type*) where
  globalTaskId : UInt64
  task : ParallelTask T
  jobDone : Fin n → Bool
  submitter : SubmitterPc n
  calls : List (ParallelTask T)
  worker : Fin n → Worker T
  ran : Fin n → List T

namespace ThreadPool

variable {n : Nat} {T : Type*}

/-- The constructor, before the first of some submitted tasks. -/
def start (n : Nat) (tasks : List T) : ThreadPool n T where
  globalTaskId := 0
  task := .nop
  jobDone := fun _ => true
  submitter := .setTask
  calls := tasks.map .body ++ [.exit]
  worker := fun _ => ⟨.wait, 0⟩
  ran := fun _ => []

def setPc (p : ThreadPool n T) (w : Fin n) (pc : WorkerPc T) : ThreadPool n T :=
  { p with worker := Function.update p.worker w { p.worker w with pc } }

/-- `job_done->notify_one()` of a worker. -/
def notifyOne (p : ThreadPool n T) (w : Fin n) : ThreadPool n T :=
  if p.submitter = .blocked w then { p with submitter := .wait w } else p

/-- `job_done->store(true)` of a worker. -/
def storeDone (p : ThreadPool n T) (w : Fin n) : ThreadPool n T :=
  { p with jobDone := Function.update p.jobDone w true }

/-- `spheres_worker`, one access to the shared state at a time. -/
def workerStep (p : ThreadPool n T) (w : Fin n) (label : Bool) : ThreadPool n T :=
  match (p.worker w).pc with
  | .wait =>
    if p.globalTaskId = (p.worker w).taskId then p.setPc w .blocked
    else { p with worker := Function.update p.worker w ⟨.enter, (p.worker w).taskId + 1⟩ }
  | .blocked => if label then p.setPc w .wait else p
  | .enter =>
    match p.task with
    | .nop => p.setPc w .store
    | .body t => { p.setPc w (.running t) with ran := Function.update p.ran w (p.ran w ++ [t]) }
    | .exit => p.setPc w .exitStore
  | .running _ => if label then p else p.setPc w .store
  | .store => (p.storeDone w).setPc w .notify
  | .notify => (p.notifyOne w).setPc w .wait
  | .exitStore => (p.storeDone w).setPc w .exitNotify
  | .exitNotify => (p.notifyOne w).setPc w .terminated
  | .terminated => p

/-- `notify_all` wakes a worker that is blocked. -/
def wake (wk : Worker T) : Worker T :=
  match wk.pc with
  | .blocked => { wk with pc := .wait }
  | _ => wk

/-- `submit_and_block` for each task, then `~ThreadPool`. -/
def submitterStep (p : ThreadPool n T) (label : Bool) : ThreadPool n T :=
  match p.submitter with
  | .setTask =>
    match p.calls with
    | [] => { p with submitter := .done }
    | call :: _ => { p with task := call, submitter := .reset 0 }
  | .reset i =>
    if h : i < n then
      { p with jobDone := Function.update p.jobDone ⟨i, h⟩ false, submitter := .reset (i + 1) }
    else { p with globalTaskId := p.globalTaskId + 1, submitter := .notifyAll }
  | .notifyAll => { p with worker := fun w => wake (p.worker w), submitter := .wait 0 }
  | .wait i =>
    if h : i < n then
      if p.jobDone ⟨i, h⟩ then { p with submitter := .wait (i + 1) }
      else { p with submitter := .blocked ⟨i, h⟩ }
    else
      match p.calls with
      | .body _ :: rest => { p with calls := rest, submitter := .setTask }
      | _ => { p with calls := [], submitter := .done }
  | .blocked i => if label then { p with submitter := .wait i } else p
  | .done => p

/-- One step: `none` is the submitter. -/
def step (p : ThreadPool n T) (x : Option (Fin n) × Bool) : ThreadPool n T :=
  match x.1 with
  | none => p.submitterStep x.2
  | some w => p.workerStep w x.2

/-! ## What holds during a call -/

/-- The worker is on its way to the next wait or there. -/
def Rests : WorkerPc T → Prop
  | .notify | .wait | .blocked => True
  | _ => False

/-- The worker has left the loop or is about to. -/
def Leaves : WorkerPc T → Prop
  | .exitNotify | .terminated => True
  | _ => False

/-- How a worker serves a call, before which it has run the bodies `before`:
where it stands, whether it has still to take the task, its flag, and the bodies
it has begun. -/
inductive Serving (call : ParallelTask T) (before : List T) :
    WorkerPc T → Bool → Bool → List T → Prop
  | behind {pc : WorkerPc T} (h : Rests pc) : Serving call before pc true false before
  | enter : Serving call before .enter false false before
  | running {t : T} (h : call = .body t) :
      Serving call before (.running t) false false (before ++ [t])
  | store {t : T} (h : call = .body t) : Serving call before .store false false (before ++ [t])
  | served {t : T} {pc : WorkerPc T} (h : call = .body t) (hpc : Rests pc) :
      Serving call before pc false true (before ++ [t])
  | exitStore (h : call = .exit) : Serving call before .exitStore false false before
  | left {pc : WorkerPc T} (h : call = .exit) (hpc : Leaves pc) :
      Serving call before pc false true before

/-- The calls that are left when `j` of the tasks have been served. -/
def callsFrom (tasks : List T) (j : Nat) : List (ParallelTask T) :=
  (tasks.drop j).map .body ++ [.exit]

/-- Between two calls and until the counter is raised, every worker has taken
all tasks submitted so far and rests. -/
structure Idle (tasks : List T) (j : Nat) (p : ThreadPool n T) : Prop where
  le : j ≤ tasks.length
  calls : p.calls = callsFrom tasks j
  taskId : ∀ w, (p.worker w).taskId = p.globalTaskId
  rests : ∀ w, Rests (p.worker w).pc
  ran : ∀ w, p.ran w = tasks.take j

/-- From the raise of the counter on, every worker serves the call. -/
structure Busy (tasks : List T) (j : Nat) (call : ParallelTask T) (p : ThreadPool n T) : Prop where
  le : j ≤ tasks.length
  calls : p.calls = callsFrom tasks j
  head : (callsFrom tasks j).head? = some call
  task : p.task = call
  serving : ∀ w, ∃ behind : Bool,
    p.globalTaskId = (p.worker w).taskId + (if behind then 1 else 0) ∧
    Serving call (tasks.take j) (p.worker w).pc behind (p.jobDone w) (p.ran w)

/-- The invariant of the pool, by the position of the submitter. -/
def Inv (tasks : List T) (p : ThreadPool n T) : Prop :=
  match p.submitter with
  | .setTask => ∃ j, Idle tasks j p
  | .reset i => ∃ j, Idle tasks j p ∧ (callsFrom tasks j).head? = some p.task ∧
      ∀ w, w.val < i → p.jobDone w = false
  | .notifyAll => ∃ j call, Busy tasks j call p
  | .wait i => ∃ j call, Busy tasks j call p ∧ (∀ w, w.val < i → p.jobDone w = true) ∧
      ∀ w, p.globalTaskId ≠ (p.worker w).taskId → (p.worker w).pc ≠ .blocked
  | .blocked i => ∃ j call, Busy tasks j call p ∧ (∀ w, w < i → p.jobDone w = true) ∧
      (∀ w, p.globalTaskId ≠ (p.worker w).taskId → (p.worker w).pc ≠ .blocked) ∧
      (p.jobDone i = true → (p.worker i).pc = .notify ∨ (p.worker i).pc = .exitNotify)
  | .done => p.calls = [] ∧ ∀ w, Leaves (p.worker w).pc ∧ p.ran w = tasks

/-! ## The steps of a worker -/

section WorkerStep

variable {p : ThreadPool n T} {w v : Fin n} {label : Bool}

@[simp] theorem worker_setPc_self (p : ThreadPool n T) (w : Fin n) (pc : WorkerPc T) :
    (p.setPc w pc).worker w = { p.worker w with pc } := Function.update_self _ _ _

theorem worker_setPc_of_ne (h : v ≠ w) (p : ThreadPool n T) (pc : WorkerPc T) :
    (p.setPc w pc).worker v = p.worker v := Function.update_of_ne h _ _

@[simp] theorem jobDone_storeDone_self (p : ThreadPool n T) (w : Fin n) :
    (p.storeDone w).jobDone w = true := Function.update_self _ _ _

theorem jobDone_storeDone_of_ne (h : v ≠ w) (p : ThreadPool n T) :
    (p.storeDone w).jobDone v = p.jobDone v := Function.update_of_ne h _ _

@[simp] theorem setPc_globalTaskId (p : ThreadPool n T) (w : Fin n) (pc : WorkerPc T) :
    (p.setPc w pc).globalTaskId = p.globalTaskId := rfl

@[simp] theorem setPc_task (p : ThreadPool n T) (w : Fin n) (pc : WorkerPc T) :
    (p.setPc w pc).task = p.task := rfl

@[simp] theorem setPc_calls (p : ThreadPool n T) (w : Fin n) (pc : WorkerPc T) :
    (p.setPc w pc).calls = p.calls := rfl

@[simp] theorem setPc_jobDone (p : ThreadPool n T) (w : Fin n) (pc : WorkerPc T) :
    (p.setPc w pc).jobDone = p.jobDone := rfl

@[simp] theorem setPc_ran (p : ThreadPool n T) (w : Fin n) (pc : WorkerPc T) :
    (p.setPc w pc).ran = p.ran := rfl

@[simp] theorem setPc_submitter (p : ThreadPool n T) (w : Fin n) (pc : WorkerPc T) :
    (p.setPc w pc).submitter = p.submitter := rfl

/-- A notification changes nothing but the submitter. -/
theorem notifyOne_eq (p : ThreadPool n T) (w : Fin n) :
    p.notifyOne w = { p with submitter := (p.notifyOne w).submitter } := by
  unfold notifyOne
  split <;> rfl

@[simp] theorem notifyOne_globalTaskId (p : ThreadPool n T) (w : Fin n) :
    (p.notifyOne w).globalTaskId = p.globalTaskId := by rw [notifyOne_eq]

@[simp] theorem notifyOne_task (p : ThreadPool n T) (w : Fin n) :
    (p.notifyOne w).task = p.task := by rw [notifyOne_eq]

@[simp] theorem notifyOne_calls (p : ThreadPool n T) (w : Fin n) :
    (p.notifyOne w).calls = p.calls := by rw [notifyOne_eq]

@[simp] theorem notifyOne_jobDone (p : ThreadPool n T) (w : Fin n) :
    (p.notifyOne w).jobDone = p.jobDone := by rw [notifyOne_eq]

@[simp] theorem notifyOne_worker (p : ThreadPool n T) (w : Fin n) :
    (p.notifyOne w).worker = p.worker := by rw [notifyOne_eq]

@[simp] theorem notifyOne_ran (p : ThreadPool n T) (w : Fin n) :
    (p.notifyOne w).ran = p.ran := by rw [notifyOne_eq]

/-- After the notification the submitter is not blocked on the worker. -/
theorem notifyOne_submitter (p : ThreadPool n T) (w : Fin n) :
    (p.submitter ≠ .blocked w ∧ (p.notifyOne w).submitter = p.submitter) ∨
      (p.submitter = .blocked w ∧ (p.notifyOne w).submitter = .wait w) := by
  unfold notifyOne
  split
  · exact Or.inr ⟨‹_›, rfl⟩
  · exact Or.inl ⟨‹_›, rfl⟩

/-- What a step of one worker leaves alone. -/
structure Frame (w : Fin n) (p p' : ThreadPool n T) : Prop where
  globalTaskId : p'.globalTaskId = p.globalTaskId
  task : p'.task = p.task
  calls : p'.calls = p.calls
  worker : ∀ v, v ≠ w → p'.worker v = p.worker v
  jobDone : ∀ v, v ≠ w → p'.jobDone v = p.jobDone v
  ran : ∀ v, v ≠ w → p'.ran v = p.ran v
  submitter : p'.submitter = p.submitter ∨ p.submitter = .blocked w ∧ p'.submitter = .wait w

theorem Frame.submitter_eq (h : Frame w p p') {pc : SubmitterPc n} (hsub : p.submitter = pc)
    (hpc : ∀ i, pc ≠ .blocked i) : p'.submitter = pc := by
  rcases h.submitter with heq | ⟨heq, -⟩
  · rw [heq, hsub]
  · exact absurd (hsub.symm.trans heq) (hpc w)

theorem frame_refl (w : Fin n) (p : ThreadPool n T) : Frame w p p :=
  ⟨rfl, rfl, rfl, fun _ _ => rfl, fun _ _ => rfl, fun _ _ => rfl, Or.inl rfl⟩

theorem frame_setPc (p : ThreadPool n T) (w : Fin n) (pc : WorkerPc T) :
    Frame w p (p.setPc w pc) :=
  ⟨rfl, rfl, rfl, fun _ hv => worker_setPc_of_ne hv p pc, fun _ _ => rfl, fun _ _ => rfl,
    Or.inl rfl⟩

theorem frame_notifyOne (p : ThreadPool n T) (w : Fin n) (pc : WorkerPc T) :
    Frame w p ((p.notifyOne w).setPc w pc) where
  globalTaskId := by simp
  task := by simp
  calls := by simp
  worker v hv := by rw [worker_setPc_of_ne hv, notifyOne_worker]
  jobDone v _ := by simp
  ran v _ := by simp
  submitter := by
    rcases notifyOne_submitter p w with ⟨-, h⟩ | h
    · exact Or.inl h
    · exact Or.inr h

theorem frame_storeDone (p : ThreadPool n T) (w : Fin n) (pc : WorkerPc T) :
    Frame w p ((p.storeDone w).setPc w pc) :=
  ⟨rfl, rfl, rfl, fun _ hv => worker_setPc_of_ne hv _ pc,
    fun _ hv => jobDone_storeDone_of_ne hv p, fun _ _ => rfl, Or.inl rfl⟩

theorem frame_workerStep (p : ThreadPool n T) (w : Fin n) (label : Bool) :
    Frame w p (p.workerStep w label) := by
  unfold workerStep
  cases (p.worker w).pc with
  | wait =>
    simp only
    split
    · exact frame_setPc p w _
    · exact ⟨rfl, rfl, rfl, fun _ hv => Function.update_of_ne hv _ _, fun _ _ => rfl,
        fun _ _ => rfl, Or.inl rfl⟩
  | blocked =>
    simp only
    split
    · exact frame_setPc p w _
    · exact frame_refl w p
  | enter =>
    simp only
    split
    · exact frame_setPc p w _
    · exact ⟨rfl, rfl, rfl, fun _ hv => worker_setPc_of_ne hv p _, fun _ _ => rfl,
        fun _ hv => Function.update_of_ne hv _ _, Or.inl rfl⟩
    · exact frame_setPc p w _
  | running t =>
    simp only
    split
    · exact frame_refl w p
    · exact frame_setPc p w _
  | store => exact frame_storeDone p w _
  | notify => exact frame_notifyOne p w _
  | exitStore => exact frame_storeDone p w _
  | exitNotify => exact frame_notifyOne p w _
  | terminated => exact frame_refl w p

/-- What one step of a worker can do to its position, its count of tasks, its flag
and its record. -/
inductive Move (p : ThreadPool n T) (w : Fin n) : Worker T → Bool → List T → Prop
  | stay : Move p w (p.worker w) (p.jobDone w) (p.ran w)
  | sleep (hpc : (p.worker w).pc = .wait) (hid : p.globalTaskId = (p.worker w).taskId) :
      Move p w ⟨.blocked, (p.worker w).taskId⟩ (p.jobDone w) (p.ran w)
  | take (hpc : (p.worker w).pc = .wait) (hid : p.globalTaskId ≠ (p.worker w).taskId) :
      Move p w ⟨.enter, (p.worker w).taskId + 1⟩ (p.jobDone w) (p.ran w)
  | wake (hpc : (p.worker w).pc = .blocked) :
      Move p w ⟨.wait, (p.worker w).taskId⟩ (p.jobDone w) (p.ran w)
  | skip (hpc : (p.worker w).pc = .enter) (htask : p.task = .nop) :
      Move p w ⟨.store, (p.worker w).taskId⟩ (p.jobDone w) (p.ran w)
  | begin {t : T} (hpc : (p.worker w).pc = .enter) (htask : p.task = .body t) :
      Move p w ⟨.running t, (p.worker w).taskId⟩ (p.jobDone w) (p.ran w ++ [t])
  | exit (hpc : (p.worker w).pc = .enter) (htask : p.task = .exit) :
      Move p w ⟨.exitStore, (p.worker w).taskId⟩ (p.jobDone w) (p.ran w)
  | finish {t : T} (hpc : (p.worker w).pc = .running t) :
      Move p w ⟨.store, (p.worker w).taskId⟩ (p.jobDone w) (p.ran w)
  | store (hpc : (p.worker w).pc = .store) :
      Move p w ⟨.notify, (p.worker w).taskId⟩ true (p.ran w)
  | notify (hpc : (p.worker w).pc = .notify) :
      Move p w ⟨.wait, (p.worker w).taskId⟩ (p.jobDone w) (p.ran w)
  | exitStore (hpc : (p.worker w).pc = .exitStore) :
      Move p w ⟨.exitNotify, (p.worker w).taskId⟩ true (p.ran w)
  | exitNotify (hpc : (p.worker w).pc = .exitNotify) :
      Move p w ⟨.terminated, (p.worker w).taskId⟩ (p.jobDone w) (p.ran w)

theorem move_workerStep (p : ThreadPool n T) (w : Fin n) (label : Bool) :
    Move p w ((p.workerStep w label).worker w) ((p.workerStep w label).jobDone w)
      ((p.workerStep w label).ran w) := by
  cases hpc : (p.worker w).pc with
  | wait =>
    by_cases hid : p.globalTaskId = (p.worker w).taskId
    · simp only [workerStep, hpc, if_pos hid, worker_setPc_self, setPc_jobDone, setPc_ran]
      exact .sleep hpc hid
    · simp only [workerStep, hpc, if_neg hid, Function.update_self]
      exact .take hpc hid
  | blocked =>
    cases label with
    | true =>
      simp only [workerStep, hpc, if_true, worker_setPc_self, setPc_jobDone, setPc_ran]
      exact .wake hpc
    | false =>
      simp only [workerStep, hpc, Bool.false_eq_true, if_false]
      exact .stay
  | enter =>
    cases htask : p.task with
    | nop =>
      simp only [workerStep, hpc, htask, worker_setPc_self, setPc_jobDone, setPc_ran]
      exact .skip hpc htask
    | body t =>
      simp only [workerStep, hpc, htask, worker_setPc_self, setPc_jobDone, Function.update_self]
      exact .begin hpc htask
    | exit =>
      simp only [workerStep, hpc, htask, worker_setPc_self, setPc_jobDone, setPc_ran]
      exact .exit hpc htask
  | running t =>
    cases label with
    | true =>
      simp only [workerStep, hpc, if_true]
      exact .stay
    | false =>
      simp only [workerStep, hpc, Bool.false_eq_true, if_false, worker_setPc_self, setPc_jobDone,
        setPc_ran]
      exact .finish hpc
  | store =>
    simp only [workerStep, hpc, worker_setPc_self, setPc_jobDone, jobDone_storeDone_self, setPc_ran]
    exact .store hpc
  | notify =>
    simp only [workerStep, hpc, worker_setPc_self, setPc_jobDone, setPc_ran, notifyOne_worker,
      notifyOne_jobDone, notifyOne_ran]
    exact .notify hpc
  | exitStore =>
    simp only [workerStep, hpc, worker_setPc_self, setPc_jobDone, jobDone_storeDone_self, setPc_ran]
    exact .exitStore hpc
  | exitNotify =>
    simp only [workerStep, hpc, worker_setPc_self, setPc_jobDone, setPc_ran, notifyOne_worker,
      notifyOne_jobDone, notifyOne_ran]
    exact .exitNotify hpc
  | terminated =>
    simp only [workerStep, hpc]
    exact .stay

/-- A worker that notifies leaves the submitter awake, as far as it is concerned. -/
theorem workerStep_notifies (hpc : (p.worker w).pc = .notify ∨ (p.worker w).pc = .exitNotify)
    (label : Bool) : (p.workerStep w label).submitter ≠ .blocked w := by
  have hawake : ∀ pc, ((p.notifyOne w).setPc w pc).submitter ≠ .blocked w := by
    intro pc
    rcases notifyOne_submitter p w with ⟨hne, heq⟩ | ⟨-, heq⟩
    · rwa [setPc_submitter, heq]
    · simp [heq]
  rcases hpc with hpc | hpc
  · simpa only [workerStep, hpc] using hawake .wait
  · simpa only [workerStep, hpc] using hawake .terminated

/-- A resting worker with nothing to take goes on resting. -/
theorem Move.rests {wk : Worker T} {flag : Bool} {bodies : List T} (h : Move p w wk flag bodies)
    (hrests : Rests (p.worker w).pc) (hid : (p.worker w).taskId = p.globalTaskId) :
    Rests wk.pc ∧ wk.taskId = p.globalTaskId ∧ flag = p.jobDone w ∧ bodies = p.ran w := by
  cases h with
  | stay => exact ⟨hrests, hid, rfl, rfl⟩
  | sleep => exact ⟨trivial, hid, rfl, rfl⟩
  | take _ hne => exact absurd hid.symm hne
  | wake => exact ⟨trivial, hid, rfl, rfl⟩
  | notify => exact ⟨trivial, hid, rfl, rfl⟩
  | skip hpc => simp [hpc, Rests] at hrests
  | begin hpc => simp [hpc, Rests] at hrests
  | exit hpc => simp [hpc, Rests] at hrests
  | finish hpc => simp [hpc, Rests] at hrests
  | store hpc => simp [hpc, Rests] at hrests
  | exitStore hpc => simp [hpc, Rests] at hrests
  | exitNotify hpc => simp [hpc, Rests] at hrests

/-- Between two calls workers only rest. -/
theorem Idle.workerStep {tasks : List T} {j : Nat} (h : Idle tasks j p) (w : Fin n)
    (label : Bool) :
    Idle tasks j (p.workerStep w label) ∧ (p.workerStep w label).jobDone = p.jobDone := by
  have hframe := frame_workerStep p w label
  obtain ⟨hrests, hid, hflag, hran⟩ := (move_workerStep p w label).rests (h.rests w) (h.taskId w)
  refine ⟨⟨h.le, hframe.calls.trans h.calls, ?_, ?_, ?_⟩, ?_⟩
  · intro v
    rw [hframe.globalTaskId]
    by_cases hv : v = w
    · rw [hv, hid]
    · rw [hframe.worker v hv]
      exact h.taskId v
  · intro v
    by_cases hv : v = w
    · rw [hv]
      exact hrests
    · rw [hframe.worker v hv]
      exact h.rests v
  · intro v
    by_cases hv : v = w
    · rw [hv, hran]
      exact h.ran w
    · rw [hframe.ran v hv]
      exact h.ran v
  · funext v
    by_cases hv : v = w
    · rw [hv, hflag]
    · exact hframe.jobDone v hv

theorem succ_ne_self (x : UInt64) : x + 1 ≠ x := by
  intro h
  simp at h

theorem Rests.not_leaves {pc : WorkerPc T} (h : Rests pc) : ¬ Leaves pc := by
  cases pc <;> simp_all [Rests, Leaves]

/-- Where a worker rests plays no part in how it serves a call. -/
theorem Serving.rest {call : ParallelTask T} {before bodies : List T} {pc pc' : WorkerPc T}
    {behind flag : Bool} (h : Serving call before pc behind flag bodies) (hpc : Rests pc)
    (hpc' : Rests pc') : Serving call before pc' behind flag bodies := by
  cases h with
  | behind => exact .behind hpc'
  | served hc => exact .served hc hpc'
  | left _ hleaves => exact absurd hleaves hpc.not_leaves
  | _ => exact hpc.elim

/-- A worker goes on serving the call. -/
theorem Move.serving {call : ParallelTask T} {before : List T} (hcall : call ≠ .nop)
    (htask : p.task = call) {wk : Worker T} {flag : Bool} {bodies : List T}
    (h : Move p w wk flag bodies) {behind : Bool}
    (hid : p.globalTaskId = (p.worker w).taskId + (if behind then 1 else 0))
    (hs : Serving call before (p.worker w).pc behind (p.jobDone w) (p.ran w)) :
    ∃ behind' : Bool, p.globalTaskId = wk.taskId + (if behind' then 1 else 0) ∧
      Serving call before wk.pc behind' flag bodies := by
  have hontime : behind = false → p.globalTaskId = (p.worker w).taskId := by
    intro hb
    rw [hid, hb]
    simp
  generalize hflag : p.jobDone w = old at hs
  generalize hran : p.ran w = oldBodies at hs
  cases h with
  | stay => exact ⟨behind, hid, hflag ▸ hran ▸ hs⟩
  | sleep hpc =>
    rw [hpc] at hs
    rw [hflag, hran]
    exact ⟨behind, hid, hs.rest trivial trivial⟩
  | take hpc hdiff =>
    rw [hpc] at hs
    rw [hflag, hran]
    cases hs with
    | behind => exact ⟨false, by simpa using hid, .enter⟩
    | served => exact absurd (hontime rfl) hdiff
    | left _ hleaves => exact hleaves.elim
  | wake hpc =>
    rw [hpc] at hs
    rw [hflag, hran]
    exact ⟨behind, hid, hs.rest trivial trivial⟩
  | skip hpc hnop => exact absurd (htask.symm.trans hnop) hcall
  | begin hpc hbody =>
    rw [hpc] at hs
    rw [hflag, hran]
    cases hs with
    | behind hrests => exact hrests.elim
    | enter => exact ⟨false, hid, .running (htask.symm.trans hbody)⟩
    | served _ hrests => exact hrests.elim
    | left _ hleaves => exact hleaves.elim
  | exit hpc hexit =>
    rw [hpc] at hs
    rw [hflag, hran]
    cases hs with
    | behind hrests => exact hrests.elim
    | enter => exact ⟨false, hid, .exitStore (htask.symm.trans hexit)⟩
    | served _ hrests => exact hrests.elim
    | left _ hleaves => exact hleaves.elim
  | finish hpc =>
    rw [hpc] at hs
    rw [hflag, hran]
    cases hs with
    | behind hrests => exact hrests.elim
    | running hc => exact ⟨false, hid, .store hc⟩
    | served _ hrests => exact hrests.elim
    | left _ hleaves => exact hleaves.elim
  | store hpc =>
    rw [hpc] at hs
    rw [hran]
    cases hs with
    | behind hrests => exact hrests.elim
    | store hc => exact ⟨false, hid, .served hc trivial⟩
    | served _ hrests => exact hrests.elim
    | left _ hleaves => exact hleaves.elim
  | notify hpc =>
    rw [hpc] at hs
    rw [hflag, hran]
    exact ⟨behind, hid, hs.rest trivial trivial⟩
  | exitStore hpc =>
    rw [hpc] at hs
    rw [hran]
    cases hs with
    | behind hrests => exact hrests.elim
    | served _ hrests => exact hrests.elim
    | exitStore hc => exact ⟨false, hid, .left hc trivial⟩
    | left _ hleaves => exact hleaves.elim
  | exitNotify hpc =>
    rw [hpc] at hs
    rw [hflag, hran]
    cases hs with
    | behind hrests => exact hrests.elim
    | served _ hrests => exact hrests.elim
    | left hc => exact ⟨false, hid, .left hc trivial⟩

/-- The flag of a worker is only raised by it, and just before it notifies. -/
theorem Move.flag {wk : Worker T} {flag : Bool} {bodies : List T} (h : Move p w wk flag bodies)
    (hdone : p.jobDone w = true) : flag = true := by
  cases h with
  | store => rfl
  | exitStore => rfl
  | _ => exact hdone

theorem Move.announces {wk : Worker T} {flag : Bool} {bodies : List T}
    (h : Move p w wk flag bodies)
    (hpc : (p.worker w).pc ≠ .notify ∧ (p.worker w).pc ≠ .exitNotify)
    (hold : p.jobDone w = true → (p.worker w).pc = .notify ∨ (p.worker w).pc = .exitNotify)
    (hflag : flag = true) : wk.pc = .notify ∨ wk.pc = .exitNotify := by
  cases h with
  | store => exact Or.inl rfl
  | exitStore => exact Or.inr rfl
  | _ => exact absurd (hold hflag) (by simpa using hpc)

/-- A worker that has a task to take does not fall asleep. -/
theorem Move.awake {wk : Worker T} {flag : Bool} {bodies : List T} (h : Move p w wk flag bodies)
    (hold : p.globalTaskId ≠ (p.worker w).taskId → (p.worker w).pc ≠ .blocked)
    (hdiff : p.globalTaskId ≠ wk.taskId) : wk.pc ≠ .blocked := by
  cases h with
  | stay => exact hold hdiff
  | sleep _ hid => exact absurd hid hdiff
  | _ => simp

/-- Nothing brings back a worker that leaves. -/
theorem Move.leaves {wk : Worker T} {flag : Bool} {bodies : List T} (h : Move p w wk flag bodies)
    (hleaves : Leaves (p.worker w).pc) : Leaves wk.pc ∧ bodies = p.ran w := by
  cases h with
  | stay => exact ⟨hleaves, rfl⟩
  | exitNotify => exact ⟨trivial, rfl⟩
  | sleep hpc => simp [hpc, Leaves] at hleaves
  | take hpc => simp [hpc, Leaves] at hleaves
  | wake hpc => simp [hpc, Leaves] at hleaves
  | skip hpc => simp [hpc, Leaves] at hleaves
  | begin hpc => simp [hpc, Leaves] at hleaves
  | exit hpc => simp [hpc, Leaves] at hleaves
  | finish hpc => simp [hpc, Leaves] at hleaves
  | store hpc => simp [hpc, Leaves] at hleaves
  | notify hpc => simp [hpc, Leaves] at hleaves
  | exitStore hpc => simp [hpc, Leaves] at hleaves

theorem callsFrom_ne_nop {tasks : List T} {j : Nat} {call : ParallelTask T}
    (h : (callsFrom tasks j).head? = some call) : call ≠ .nop := by
  rintro rfl
  rcases List.mem_append.mp (List.mem_of_head? h) with hmem | hmem
  · obtain ⟨t, -, ht⟩ := List.mem_map.mp hmem
    cases ht
  · cases List.mem_singleton.mp hmem

/-- During a call a worker goes on serving it. -/
theorem Busy.workerStep {tasks : List T} {j : Nat} {call : ParallelTask T}
    (h : Busy tasks j call p) (w : Fin n) (label : Bool) :
    Busy tasks j call (p.workerStep w label) := by
  have hframe := frame_workerStep p w label
  refine ⟨h.le, hframe.calls.trans h.calls, h.head, hframe.task.trans h.task, fun v => ?_⟩
  rw [hframe.globalTaskId]
  by_cases hv : v = w
  · subst hv
    obtain ⟨behind, hid, hs⟩ := h.serving v
    exact (move_workerStep p v label).serving (callsFrom_ne_nop h.head) h.task hid hs
  · rw [hframe.worker v hv, hframe.jobDone v hv, hframe.ran v hv]
    exact h.serving v

end WorkerStep

/-! ## The invariant -/

section Invariant

variable {tasks : List T} {p : ThreadPool n T}

theorem inv_workerStep (h : Inv tasks p) (w : Fin n) (label : Bool) :
    Inv tasks (p.workerStep w label) := by
  have hframe := frame_workerStep p w label
  have hmove := move_workerStep p w label
  have hflag : ∀ v, p.jobDone v = true → (p.workerStep w label).jobDone v = true := by
    intro v hv
    by_cases hvw : v = w
    · subst hvw
      exact hmove.flag hv
    · rw [hframe.jobDone v hvw, hv]
  have hawake : (∀ v, p.globalTaskId ≠ (p.worker v).taskId → (p.worker v).pc ≠ .blocked) →
      ∀ v, (p.workerStep w label).globalTaskId ≠ ((p.workerStep w label).worker v).taskId →
        ((p.workerStep w label).worker v).pc ≠ .blocked := by
    intro hold v
    rw [hframe.globalTaskId]
    by_cases hvw : v = w
    · subst hvw
      exact hmove.awake (hold v)
    · rw [hframe.worker v hvw]
      exact hold v
  unfold Inv at h
  cases hsub : p.submitter with
  | setTask =>
    have hsub' : (p.workerStep w label).submitter = .setTask :=
      hframe.submitter_eq hsub fun i => by simp
    simp only [hsub] at h
    simp only [Inv, hsub']
    obtain ⟨j, hidle⟩ := h
    exact ⟨j, (hidle.workerStep w label).1⟩
  | reset i =>
    have hsub' : (p.workerStep w label).submitter = .reset i :=
      hframe.submitter_eq hsub fun i => by simp
    simp only [hsub] at h
    simp only [Inv, hsub', hframe.task]
    obtain ⟨j, hidle, hhead, hreset⟩ := h
    obtain ⟨hidle', hdone⟩ := hidle.workerStep w label
    exact ⟨j, hidle', hhead, fun v hv => by rw [hdone, hreset v hv]⟩
  | notifyAll =>
    have hsub' : (p.workerStep w label).submitter = .notifyAll :=
      hframe.submitter_eq hsub fun i => by simp
    simp only [hsub] at h
    simp only [Inv, hsub']
    obtain ⟨j, call, hbusy⟩ := h
    exact ⟨j, call, hbusy.workerStep w label⟩
  | wait i =>
    have hsub' : (p.workerStep w label).submitter = .wait i :=
      hframe.submitter_eq hsub fun i => by simp
    simp only [hsub] at h
    simp only [Inv, hsub']
    obtain ⟨j, call, hbusy, hdone, hold⟩ := h
    exact ⟨j, call, hbusy.workerStep w label, fun v hv => hflag v (hdone v hv), hawake hold⟩
  | blocked i =>
    simp only [hsub] at h
    obtain ⟨j, call, hbusy, hdone, hold, hann⟩ := h
    rcases hframe.submitter with heq | ⟨heq, heq'⟩
    · have hsub' : (p.workerStep w label).submitter = .blocked i := by rw [heq, hsub]
      simp only [Inv, hsub']
      refine ⟨j, call, hbusy.workerStep w label, fun v hv => hflag v (hdone v hv), hawake hold, ?_⟩
      by_cases hi : i = w
      · subst hi
        refine hmove.announces ⟨fun hpc => ?_, fun hpc => ?_⟩ hann
        · exact workerStep_notifies (Or.inl hpc) label hsub'
        · exact workerStep_notifies (Or.inr hpc) label hsub'
      · rw [hframe.jobDone i hi, hframe.worker i hi]
        exact hann
    · obtain rfl : i = w := by simpa [hsub] using heq
      simp only [Inv, heq']
      exact ⟨j, call, hbusy.workerStep i label, fun v hv => hflag v (hdone v hv), hawake hold⟩
  | done =>
    have hsub' : (p.workerStep w label).submitter = .done :=
      hframe.submitter_eq hsub fun i => by simp
    simp only [hsub] at h
    simp only [Inv, hsub']
    refine ⟨hframe.calls.trans h.1, fun v => ?_⟩
    by_cases hv : v = w
    · subst hv
      obtain ⟨hleaves, hran⟩ := hmove.leaves (h.2 v).1
      exact ⟨hleaves, hran.trans (h.2 v).2⟩
    · rw [hframe.worker v hv, hframe.ran v hv]
      exact h.2 v

theorem wake_taskId (wk : Worker T) : (wake wk).taskId = wk.taskId := by
  unfold wake
  split <;> rfl

theorem wake_pc_ne (wk : Worker T) : (wake wk).pc ≠ .blocked := by
  unfold wake
  split
  · simp
  · assumption

/-- Being woken is no step of serving. -/
theorem Serving.wake {call : ParallelTask T} {before bodies : List T} {wk : Worker T}
    {behind flag : Bool} (h : Serving call before wk.pc behind flag bodies) :
    Serving call before (wake wk).pc behind flag bodies := by
  unfold ThreadPool.wake
  split
  · rename_i hpc
    rw [hpc] at h
    exact h.rest trivial trivial
  · exact h

theorem callsFrom_of_lt {tasks : List T} {j : Nat} (h : j < tasks.length) :
    callsFrom tasks j = .body tasks[j] :: callsFrom tasks (j + 1) := by
  rw [callsFrom, List.drop_eq_getElem_cons h]
  rfl

theorem callsFrom_length (tasks : List T) : callsFrom tasks tasks.length = [.exit] := by
  rw [callsFrom, List.drop_length]
  rfl

/-- A worker whose flag is raised has served the call. -/
theorem Serving.raised {call : ParallelTask T} {before bodies : List T} {pc : WorkerPc T}
    {behind : Bool} (h : Serving call before pc behind true bodies) :
    behind = false ∧ ((∃ t, call = .body t ∧ Rests pc ∧ bodies = before ++ [t]) ∨
      call = .exit ∧ Leaves pc ∧ bodies = before) := by
  cases h with
  | served hc hpc => exact ⟨rfl, Or.inl ⟨_, hc, hpc, rfl⟩⟩
  | left hc hpc => exact ⟨rfl, Or.inr ⟨hc, hpc, rfl⟩⟩

/-- Only the counter is raised: every worker is behind. -/
theorem Idle.raise {j : Nat} (h : Idle tasks j p)
    (hhead : (callsFrom tasks j).head? = some p.task) (hreset : ∀ w, p.jobDone w = false) :
    Busy tasks j p.task
      { p with globalTaskId := p.globalTaskId + 1, submitter := .notifyAll } := by
  refine ⟨h.le, h.calls, hhead, rfl, fun w => ⟨true, ?_, ?_⟩⟩
  · simp only [if_true, h.taskId w]
  · rw [hreset w, h.ran w]
    exact .behind (h.rests w)

section Call

variable {j : Nat} {call : ParallelTask T}

/-- A call does not depend on where the submitter stands. -/
theorem Busy.setSubmitter (h : Busy tasks j call p) (pc : SubmitterPc n) :
    Busy tasks j call { p with submitter := pc } :=
  ⟨h.le, h.calls, h.head, h.task, h.serving⟩

theorem Busy.wakeAll (h : Busy tasks j call p) :
    Busy tasks j call { p with worker := fun w => wake (p.worker w) } := by
  refine ⟨h.le, h.calls, h.head, h.task, fun w => ?_⟩
  obtain ⟨behind, hid, hs⟩ := h.serving w
  exact ⟨behind, by rwa [wake_taskId], hs.wake⟩

/-- When all flags are raised, all workers have served the call. -/
theorem Busy.raised (h : Busy tasks j call p) (hdone : ∀ w, p.jobDone w = true) (w : Fin n) :
    p.globalTaskId = (p.worker w).taskId ∧
      ((∃ t, call = .body t ∧ Rests (p.worker w).pc ∧ p.ran w = tasks.take j ++ [t]) ∨
        call = .exit ∧ Leaves (p.worker w).pc ∧ p.ran w = tasks.take j) := by
  obtain ⟨behind, hid, hs⟩ := h.serving w
  rw [hdone w] at hs
  obtain ⟨rfl, hcase⟩ := hs.raised
  exact ⟨by simpa using hid, hcase⟩

/-- After a task the pool is idle. -/
theorem Busy.idle (h : Busy tasks j call p) (hdone : ∀ w, p.jobDone w = true)
    (hj : j < tasks.length) :
    Idle tasks (j + 1) { p with calls := callsFrom tasks (j + 1), submitter := .setTask } := by
  have hhead := h.head
  rw [callsFrom_of_lt hj, List.head?_cons, Option.some.injEq] at hhead
  refine ⟨hj, rfl, fun w => (h.raised hdone w).1.symm, fun w => ?_, fun w => ?_⟩
  · rcases (h.raised hdone w).2 with ⟨t, -, hrests, -⟩ | ⟨hc, -⟩
    · exact hrests
    · cases hhead.trans hc
  · rcases (h.raised hdone w).2 with ⟨t, hc, -, hran⟩ | ⟨hc, -⟩
    · cases hhead.trans hc
      rw [hran, List.take_append_getElem hj]
    · cases hhead.trans hc

/-- After `exit` all workers have left. -/
theorem Busy.left (h : Busy tasks tasks.length call p) (hdone : ∀ w, p.jobDone w = true)
    (w : Fin n) : Leaves (p.worker w).pc ∧ p.ran w = tasks := by
  have hhead := h.head
  rw [callsFrom_length, List.head?_cons, Option.some.injEq] at hhead
  rcases (h.raised hdone w).2 with ⟨t, hc, -⟩ | ⟨-, hleaves, hran⟩
  · cases hhead.trans hc
  · exact ⟨hleaves, by rw [hran, List.take_length]⟩

end Call

theorem inv_submitterStep (h : Inv tasks p) (label : Bool) :
    Inv tasks (p.submitterStep label) := by
  unfold Inv at h
  cases hsub : p.submitter with
  | setTask =>
    simp only [hsub] at h
    obtain ⟨j, hidle⟩ := h
    cases hcalls : p.calls with
    | nil =>
      have := hidle.calls
      simp [hcalls, callsFrom] at this
    | cons call rest =>
      simp only [submitterStep, hsub, hcalls, Inv]
      refine ⟨j, ⟨hidle.le, hcalls.symm.trans hidle.calls, hidle.taskId, hidle.rests, hidle.ran⟩,
        ?_, by simp⟩
      rw [← hidle.calls, hcalls, List.head?_cons]
  | reset i =>
    simp only [hsub] at h
    obtain ⟨j, hidle, hhead, hreset⟩ := h
    by_cases hi : i < n
    · simp only [submitterStep, hsub, dif_pos hi, Inv]
      refine ⟨j, ⟨hidle.le, hidle.calls, hidle.taskId, hidle.rests, hidle.ran⟩, hhead, ?_⟩
      intro w hw
      by_cases hwi : w = ⟨i, hi⟩
      · rw [hwi, Function.update_self]
      · rw [Function.update_of_ne hwi]
        refine hreset w ?_
        have : w.val ≠ i := fun heq => hwi (Fin.ext heq)
        omega
    · simp only [submitterStep, hsub, dif_neg hi, Inv]
      exact ⟨j, p.task, hidle.raise hhead fun w => hreset w (by omega)⟩
  | notifyAll =>
    simp only [hsub] at h
    obtain ⟨j, call, hbusy⟩ := h
    simp only [submitterStep, hsub, Inv]
    exact ⟨j, call, hbusy.wakeAll.setSubmitter _, by simp, fun w _ => wake_pc_ne _⟩
  | wait i =>
    simp only [hsub] at h
    obtain ⟨j, call, hbusy, hdone, hold⟩ := h
    by_cases hi : i < n
    · by_cases hflag : p.jobDone ⟨i, hi⟩ = true
      · simp only [submitterStep, hsub, dif_pos hi, if_pos hflag, Inv]
        refine ⟨j, call, hbusy.setSubmitter _, ?_, hold⟩
        intro w hw
        by_cases hwi : w.val = i
        · rwa [show w = ⟨i, hi⟩ from Fin.ext hwi]
        · exact hdone w (by omega)
      · simp only [submitterStep, hsub, dif_pos hi, if_neg hflag, Inv]
        exact ⟨j, call, hbusy.setSubmitter _, fun w hw => hdone w hw, hold,
          fun h => absurd h hflag⟩
    · have hall : ∀ w, p.jobDone w = true := fun w => hdone w (by omega)
      rcases Nat.lt_or_ge j tasks.length with hj | hj
      · simp only [submitterStep, hsub, dif_neg hi, hbusy.calls, callsFrom_of_lt hj, Inv]
        exact ⟨j + 1, hbusy.idle hall hj⟩
      · obtain rfl : j = tasks.length := Nat.le_antisymm hbusy.le hj
        simp only [submitterStep, hsub, dif_neg hi, hbusy.calls, callsFrom_length, Inv]
        exact ⟨trivial, hbusy.left hall⟩
  | blocked i =>
    simp only [hsub] at h
    cases label with
    | true =>
      obtain ⟨j, call, hbusy, hdone, hold, -⟩ := h
      simp only [submitterStep, hsub, if_true, Inv]
      exact ⟨j, call, hbusy.setSubmitter _, fun w hw => hdone w hw, hold⟩
    | false =>
      simpa only [submitterStep, hsub, Bool.false_eq_true, if_false, Inv] using h
  | done =>
    simp only [hsub] at h
    simpa only [submitterStep, hsub, Inv] using h

theorem inv_start (n : Nat) (tasks : List T) : Inv tasks (start n tasks) :=
  ⟨0, Nat.zero_le _, rfl, fun _ => rfl, fun _ => trivial, fun _ => rfl⟩

theorem inv_step (h : Inv tasks p) (x : Option (Fin n) × Bool) : Inv tasks (p.step x) := by
  obtain ⟨w, label⟩ := x
  cases w with
  | none => exact inv_submitterStep h label
  | some w => exact inv_workerStep h w label

end Invariant

end ThreadPool

end Spheres.Parallel
