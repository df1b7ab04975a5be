import Spheres.Library.Outcome
import Spheres.Library.Steps
import Spheres.Parallel.ThreadPoolRuns

/-!
# Tasks that run on the pool

A call of `submit_and_block` is one transition for its caller: the task is
submitted, the threads run its body under some schedule, and the caller goes on
with what they leave. In the pool the accesses of the bodies are interleaved with
those of the handshake, one worker may be done before another one has begun, and
late workers are still on their way to the next wait when the next task comes.
`PoolRun.reached` shows that a caller sees nothing of this: what a run of the
pool has made of the memory when a call returns, a sequence of calls makes of it.
-/

namespace Spheres.Parallel

open Library Library.Interleaving

variable {n : Nat} {T M σ τ : Type*}

/-- The tasks of a pool. `M` is the memory that the caller keeps from call to call,
`σ` what the threads share during a call, and `τ` the state of one thread. -/
structure Bodies (n : Nat) (T M σ τ : Type*) where
  /-- What the caller stores before it submits the task. -/
  submit : T → M → Option M
  shared : T → M → σ
  /-- The state of a worker that begins the body. -/
  enter : T → M → Fin n → τ
  act : T → M → Bool → σ → τ → Option (σ × τ)
  isDone : T → M → τ → Bool
  /-- What the caller makes of the results. -/
  finish : T → M → σ → (Fin n → τ) → Option M

/-- The pool with its memory and with the states of the threads. -/
structure PoolRun (n : Nat) (T M σ τ : Type*) where
  pool : ThreadPool n T
  memory : M
  config : Config (Fin n) σ τ

namespace Bodies

variable (B : Bodies n T M σ τ)

/-- The threads as they begin the body of a task. -/
def initial (t : T) (m : M) : Config (Fin n) σ τ := ⟨B.shared t m, B.enter t m⟩

/-- A call of `submit_and_block` as its caller sees it. -/
def call (t : T) (m : M) (sched : List (Fin n × Bool)) : Outcome M :=
  (Outcome.ofOption (B.submit t m)).bind fun m' =>
  (complete (B.act t m') (B.isDone t m') sched (B.initial t m')).bind fun c =>
  Outcome.ofOption (B.finish t m' c.shared c.threads)

/-- One access of a worker to the shared state: in the body of a task an access of this
body, and else one of the handshake. -/
def workerStep (s : PoolRun n T M σ τ) (w : Fin n) (label : Bool) : Option (PoolRun n T M σ τ) :=
  match (s.pool.worker w).pc with
  | .enter =>
    match s.pool.task with
    | .body t =>
      some ⟨s.pool.workerStep w label, s.memory, s.config.shared,
        Function.update s.config.threads w (B.enter t s.memory w)⟩
    | _ => some { s with pool := s.pool.workerStep w label }
  | .running t =>
    if B.isDone t s.memory (s.config.threads w) then
      some { s with pool := s.pool.workerStep w false }
    else (Interleaving.step (B.act t s.memory) s.config (w, label)).map fun config =>
      { s with config }
  | _ => some { s with pool := s.pool.workerStep w label }

/-- The submitter writes the context before a call and reads the results after it. -/
def submitterStep (s : PoolRun n T M σ τ) (label : Bool) : Option (PoolRun n T M σ τ) :=
  match s.pool.submitter, s.pool.calls with
  | .setTask, .body t :: _ =>
    (B.submit t s.memory).map fun memory =>
      ⟨s.pool.submitterStep label, memory, B.shared t memory, s.config.threads⟩
  | .wait i, .body t :: _ =>
    if i < n then some { s with pool := s.pool.submitterStep label }
    else (B.finish t s.memory s.config.shared s.config.threads).map fun memory =>
      { s with pool := s.pool.submitterStep label, memory }
  | _, _ => some { s with pool := s.pool.submitterStep label }

def step (s : PoolRun n T M σ τ) (x : Option (Fin n) × Bool) : Option (PoolRun n T M σ τ) :=
  match x.1 with
  | none => B.submitterStep s x.2
  | some w => B.workerStep s w x.2

/-- The pool before the first of some tasks; nothing is known of `config`. -/
def start (tasks : List T) (m : M) (config : Config (Fin n) σ τ) : PoolRun n T M σ τ :=
  ⟨ThreadPool.start n tasks, m, config⟩

/-- The tasks are called one after the other. -/
def Calls : M → List T → M → Prop :=
  Steps fun m t m' => ∃ sched, B.call t m sched = .returned m'

variable {B}

/-- A body that works on a part of the state is called as the program on this part. -/
theorem call_view {ε' σ' τ' : Type*} {act' : ε' → σ' → τ' → Option (σ' × τ')}
    {t : T} {m m' : M} (π : σ → σ') (ρ : τ → τ') (g : Bool → ε') (isDone' : τ' → Bool)
    (f : Config (Fin n) σ' τ' → Outcome M) (hsubmit : B.submit t m = some m')
    (hact : ∀ e s x, (B.act t m' e s x).map (Prod.map π ρ) = act' (g e) (π s) (ρ x))
    (hdone : ∀ x, B.isDone t m' x = isDone' (ρ x))
    (hfinish : ∀ c : Config (Fin n) σ τ,
      Outcome.ofOption (B.finish t m' c.shared c.threads) = f (c.view π ρ))
    (sched : List (Fin n × Bool)) :
    B.call t m sched = (complete act' isDone' (sched.map fun x => (x.1, g x.2))
      ((B.initial t m').view π ρ)).bind f := by
  rw [call, hsubmit, Outcome.ofOption_some, Outcome.bind_returned, ← complete_view hact hdone]
  simp only [hfinish]

theorem call_of_run {t : T} {m m' m'' : M} {sched : List (Fin n × Bool)}
    {c : Config (Fin n) σ τ} (hsubmit : B.submit t m = some m')
    (hrun : run (B.act t m') sched (B.initial t m') = some c)
    (hdone : ∀ w, B.isDone t m' (c.threads w) = true) (hfinish : B.finish t m' c.shared c.threads =
      some m'') : B.call t m sched = .returned m'' := by
  rw [call, hsubmit, Outcome.ofOption_some, Outcome.bind_returned,
    complete_eq_returned.mpr ⟨hrun, hdone⟩, Outcome.bind_returned, hfinish, Outcome.ofOption_some]

/-- A task that is not submitted. -/
theorem call_of_submit {t : T} {m : M} (hsubmit : B.submit t m = none) :
    B.call t m [] = .fault := by
  rw [call, hsubmit]
  rfl

/-- An access without a meaning. -/
theorem call_of_act {t : T} {m m' : M} {sched : List (Fin n × Bool)}
    (hsubmit : B.submit t m = some m')
    (hrun : run (B.act t m') sched (B.initial t m') = none) : B.call t m sched = .fault := by
  rw [call, hsubmit, Outcome.ofOption_some, Outcome.bind_returned, complete, hrun]
  rfl

/-- Results that the caller cannot use. -/
theorem call_of_finish {t : T} {m m' : M} {sched : List (Fin n × Bool)}
    {c : Config (Fin n) σ τ} (hsubmit : B.submit t m = some m')
    (hrun : run (B.act t m') sched (B.initial t m') = some c)
    (hdone : ∀ w, B.isDone t m' (c.threads w) = true)
    (hfinish : B.finish t m' c.shared c.threads = none) : B.call t m sched = .fault := by
  rw [call, hsubmit, Outcome.ofOption_some, Outcome.bind_returned,
    complete_eq_returned.mpr ⟨hrun, hdone⟩, Outcome.bind_returned, hfinish]
  rfl

/-! ## Accesses -/

variable (B)

/-- What one access of a worker leaves. -/
inductive Access (s : PoolRun n T M σ τ) (w : Fin n) : Option (PoolRun n T M σ τ) → Prop
  | begin {t : T} {label : Bool} (hpc : (s.pool.worker w).pc = .enter)
      (htask : s.pool.task = .body t) :
    Access s w (some ⟨s.pool.workerStep w label, s.memory, s.config.shared,
      Function.update s.config.threads w (B.enter t s.memory w)⟩)
  | body {t : T} {label : Bool} (hpc : (s.pool.worker w).pc = .running t) :
    Access s w ((Interleaving.step (B.act t s.memory) s.config (w, label)).map fun config =>
      { s with config })
  | finish {t : T} (hpc : (s.pool.worker w).pc = .running t)
      (hdone : B.isDone t s.memory (s.config.threads w) = true) :
    Access s w (some { s with pool := s.pool.workerStep w false })
  | other {label : Bool} (hpc : ∀ t, (s.pool.worker w).pc ≠ .running t)
      (henter : (s.pool.worker w).pc = .enter → ∀ t, s.pool.task ≠ .body t) :
    Access s w (some { s with pool := s.pool.workerStep w label })

theorem access_workerStep (s : PoolRun n T M σ τ) (w : Fin n) (label : Bool) :
    B.Access s w (B.workerStep s w label) := by
  unfold workerStep
  cases hpc : (s.pool.worker w).pc with
  | enter =>
    cases htask : s.pool.task with
    | body t => exact .begin hpc htask
    | _ => exact .other (by simp [hpc]) fun _ t => by simp [htask]
  | running t =>
    simp only
    split
    · exact .finish hpc ‹_›
    · exact .body hpc
  | _ => exact .other (by simp [hpc]) fun h => by simp [hpc] at h

end Bodies

/-! ## What the handshake gives -/

namespace ThreadPool

variable {tasks : List T} {p : ThreadPool n T} {w : Fin n}

theorem length_callsFrom (tasks : List T) (j : Nat) :
    (callsFrom tasks j).length = tasks.length - j + 1 := by
  rw [callsFrom, List.length_append, List.length_map, List.length_drop, List.length_singleton]

/-- The calls that are left say how many tasks have been served. -/
theorem callsFrom_inj {j j' : Nat} (hj : j ≤ tasks.length) (hj' : j' ≤ tasks.length)
    (h : callsFrom tasks j = callsFrom tasks j') : j = j' := by
  have hlength := congrArg List.length h
  rw [length_callsFrom, length_callsFrom] at hlength
  omega

/-- A worker that takes a task has run the bodies of the earlier ones. -/
theorem Busy.entering {j : Nat} {call : ParallelTask T} (h : Busy tasks j call p)
    (hpc : (p.worker w).pc = .enter) : p.ran w = tasks.take j := by
  obtain ⟨behind, -, hs⟩ := h.serving w
  rw [hpc] at hs
  generalize p.jobDone w = flag at hs
  generalize p.ran w = bodies at hs ⊢
  cases hs with
  | enter => rfl
  | behind hrests => exact hrests.elim
  | served _ hrests => exact hrests.elim
  | left => rfl

theorem ran_of_enter (h : Inv tasks p) (hpc : (p.worker w).pc = .enter) :
    ∃ j, j ≤ tasks.length ∧ p.calls = callsFrom tasks j ∧ p.ran w = tasks.take j := by
  unfold Inv at h
  have hrests : ¬ Rests (p.worker w).pc := by simp [hpc, Rests]
  cases hsub : p.submitter with
  | setTask =>
    simp only [hsub] at h
    obtain ⟨j, hidle⟩ := h
    exact absurd (hidle.rests w) hrests
  | reset i =>
    simp only [hsub] at h
    obtain ⟨j, hidle, -⟩ := h
    exact absurd (hidle.rests w) hrests
  | notifyAll =>
    simp only [hsub] at h
    obtain ⟨j, call, hbusy⟩ := h
    exact ⟨j, hbusy.le, hbusy.calls, hbusy.entering hpc⟩
  | wait i =>
    simp only [hsub] at h
    obtain ⟨j, call, hbusy, -⟩ := h
    exact ⟨j, hbusy.le, hbusy.calls, hbusy.entering hpc⟩
  | blocked i =>
    simp only [hsub] at h
    obtain ⟨j, call, hbusy, -⟩ := h
    exact ⟨j, hbusy.le, hbusy.calls, hbusy.entering hpc⟩
  | done =>
    simp only [hsub] at h
    have hleaves := (h.2 w).1
    simp [hpc, Leaves] at hleaves

theorem idle_of_setTask (h : Inv tasks p) (hsub : p.submitter = .setTask) :
    ∃ j, Idle tasks j p := by
  unfold Inv at h
  simpa only [hsub] using h

/-- When the submitter has waited for all workers, each of them has run the body of the task
and runs it no more. -/
theorem served_of_wait (h : Inv tasks p) {i : Nat} (hsub : p.submitter = .wait i) (hi : n ≤ i)
    {t : T} (htask : p.task = .body t) (w : Fin n) :
    (∀ t', (p.worker w).pc ≠ .running t') ∧ ∃ j ≤ tasks.length,
      p.calls = callsFrom tasks j ∧ p.ran w = tasks.take j ++ [t] := by
  unfold Inv at h
  simp only [hsub] at h
  obtain ⟨j, call, hbusy, hdone, -⟩ := h
  have hcall := hbusy.task.symm.trans htask
  rcases (hbusy.raised (fun v => hdone v (v.isLt.trans_le hi)) w).2 with
    ⟨t', ht', hrests, hran⟩ | ⟨hexit, -⟩
  · cases hcall.symm.trans ht'
    exact ⟨not_running_of_rests hrests, j, hbusy.le, hbusy.calls, hran⟩
  · cases hcall.symm.trans hexit

/-- Only a worker that takes a task begins a body. -/
theorem Move.ran {wk : Worker T} {flag : Bool} {bodies : List T} (h : Move p w wk flag bodies)
    (hpc : (p.worker w).pc = .enter → ∀ t, p.task ≠ .body t) : bodies = p.ran w := by
  cases h with
  | begin henter htask => exact absurd htask (hpc henter _)
  | _ => rfl

theorem ran_workerStep (hpc : (p.worker w).pc = .enter → ∀ t, p.task ≠ .body t) (label : Bool) :
    (p.workerStep w label).ran = p.ran := by
  funext v
  by_cases hv : v = w
  · rw [hv]
    exact (move_workerStep p w label).ran hpc
  · exact (frame_workerStep p w label).ran v hv

theorem running_workerStep (hpc : ∀ t, (p.worker w).pc ≠ .running t) (label : Bool) {v : Fin n}
    {t : T} (h : (p.worker v).pc = .running t) :
    ((p.workerStep w label).worker v).pc = .running t := by
  have hv : v ≠ w := by
    rintro rfl
    exact hpc t h
  rwa [(frame_workerStep p w label).worker v hv]

/-- A worker that runs on leaves the pool as it is. -/
theorem workerStep_running {t : T} (hpc : (p.worker w).pc = .running t) :
    p.workerStep w true = p := by
  simp only [workerStep, hpc, if_true]

theorem workerStep_begin {t : T} (hpc : (p.worker w).pc = .enter) (htask : p.task = .body t)
    (label : Bool) :
    ((p.workerStep w label).worker w).pc = .running t ∧
      (p.workerStep w label).ran w = p.ran w ++ [t] := by
  simp only [workerStep, hpc, htask, worker_setPc_self, Function.update_self, and_self]

/-- The submitter in the middle of a call. -/
structure Inside (p p' : ThreadPool n T) : Prop where
  calls : p'.calls = p.calls
  task : p'.task = p.task
  ran : p'.ran = p.ran
  running : ∀ w t, (p.worker w).pc = .running t → (p'.worker w).pc = .running t
  submitter : p'.submitter ≠ .setTask ∧ p'.submitter ≠ .done

theorem inside_submitterStep (hset : p.submitter ≠ .setTask) (hdone : p.submitter ≠ .done)
    (hwait : ∀ i, p.submitter = .wait i → i < n) (label : Bool) :
    Inside p (p.submitterStep label) := by
  unfold submitterStep
  cases hsub : p.submitter with
  | setTask => exact absurd hsub hset
  | done => exact absurd hsub hdone
  | reset i =>
    simp only
    split
    · exact ⟨rfl, rfl, rfl, fun _ _ h => h, by simp⟩
    · exact ⟨rfl, rfl, rfl, fun _ _ h => h, by simp⟩
  | notifyAll => exact ⟨rfl, rfl, rfl, fun w t h => by simp [wake, h], by simp⟩
  | wait i =>
    simp only [dif_pos (hwait i hsub)]
    split
    · exact ⟨rfl, rfl, rfl, fun _ _ h => h, by simp⟩
    · exact ⟨rfl, rfl, rfl, fun _ _ h => h, by simp⟩
  | blocked i =>
    simp only
    split
    · exact ⟨rfl, rfl, rfl, fun _ _ h => h, by simp⟩
    · exact ⟨rfl, rfl, rfl, fun _ _ h => h, by simp [hsub]⟩

end ThreadPool

/-! ## A call in progress -/

namespace Bodies

variable (B : Bodies n T M σ τ) (tasks : List T) (m₀ : M)

/-- A call that has no meaning after the calls before it. -/
def Faults : Prop :=
  ∃ j t m sched, tasks[j]? = some t ∧ B.Calls m₀ (tasks.take j) m ∧ B.call t m sched = .fault

/-- An access after which `P` holds, or one without a meaning, as some call has none. -/
def Proceeds (P : PoolRun n T M σ τ → Prop) (o : Option (PoolRun n T M σ τ)) : Prop :=
  (∃ s', o = some s' ∧ P s') ∨ o = none ∧ B.Faults tasks m₀

/-- The threads of call `j`; those that have still to begin are as they will begin. -/
def joined (j : Nat) (t : T) (s : PoolRun n T M σ τ) : Config (Fin n) σ τ where
  shared := s.config.shared
  threads w := if (s.pool.ran w).length = j then B.enter t s.memory w else s.config.threads w

/-- Call `j` is in progress: so far its threads are in a run of the body, and who has
begun the body and does not run it any more is done. -/
structure Working (j : Nat) (t : T) (s : PoolRun n T M σ τ) : Prop where
  calls : s.pool.calls = ThreadPool.callsFrom tasks j
  here : tasks[j]? = some t
  task : s.pool.task = .body t
  run : ∃ m sched, B.Calls m₀ (tasks.take j) m ∧ B.submit t m = some s.memory ∧
    Interleaving.run (B.act t s.memory) sched (B.initial t s.memory) = some (B.joined j t s)
  ends : ∀ w, (s.pool.ran w).length ≠ j →
    (∃ t', (s.pool.worker w).pc = .running t') ∨
      B.isDone t s.memory (s.config.threads w) = true

/-- All tasks have been served and the workers leave. -/
structure Exiting (s : PoolRun n T M σ τ) : Prop where
  calls : s.pool.calls = ThreadPool.callsFrom tasks tasks.length
  task : s.pool.task = .exit
  reached : B.Calls m₀ tasks s.memory

/-- A call is in progress. -/
def InCall (s : PoolRun n T M σ τ) : Prop :=
  (∃ j t, B.Working tasks m₀ j t s) ∨ B.Exiting tasks m₀ s

/-- The invariant: between two calls the memory is what the calls before have made of it. -/
structure Inv (s : PoolRun n T M σ τ) : Prop where
  pool : ThreadPool.Inv tasks s.pool
  reached : match s.pool.submitter with
    | .setTask => ∃ j ≤ tasks.length, s.pool.calls = ThreadPool.callsFrom tasks j ∧
      B.Calls m₀ (tasks.take j) s.memory
    | .done => B.Calls m₀ tasks s.memory
    | _ => B.InCall tasks m₀ s

variable {B tasks m₀} {s : PoolRun n T M σ τ} {j : Nat} {t : T} {w : Fin n}

theorem Working.lt (h : B.Working tasks m₀ j t s) : j < tasks.length :=
  (List.getElem?_eq_some_iff.mp h.here).1

/-- What a call is does not depend on the rest of the pool. -/
theorem Working.setPool (h : B.Working tasks m₀ j t s) {p : ThreadPool n T}
    (hcalls : p.calls = s.pool.calls) (htask : p.task = s.pool.task) (hran : p.ran = s.pool.ran)
    (hrunning : ∀ v t', (s.pool.worker v).pc = .running t' →
      (p.worker v).pc = .running t' ∨ B.isDone t s.memory (s.config.threads v) = true) :
    B.Working tasks m₀ j t { s with pool := p } := by
  have hjoined : B.joined j t { s with pool := p } = B.joined j t s := by
    unfold joined
    rw [hran]
  refine ⟨hcalls.trans h.calls, h.here, htask.trans h.task, ?_, fun v hv => ?_⟩
  · rw [hjoined]
    exact h.run
  · rcases h.ends v (by rwa [← hran]) with ⟨t', ht'⟩ | hdone
    · exact (hrunning v t' ht').imp_left fun hpc => ⟨t', hpc⟩
    · exact Or.inr hdone

/-- A worker begins the body. -/
theorem Working.begin (h : B.Working tasks m₀ j t s) (hpool : ThreadPool.Inv tasks s.pool)
    (hpc : (s.pool.worker w).pc = .enter) (label : Bool) :
    B.Working tasks m₀ j t ⟨s.pool.workerStep w label, s.memory, s.config.shared,
      Function.update s.config.threads w (B.enter t s.memory w)⟩ := by
  have hframe := ThreadPool.frame_workerStep s.pool w label
  obtain ⟨hrunning, hran⟩ := ThreadPool.workerStep_begin hpc h.task label
  obtain ⟨j', hj', hcalls, htake⟩ := ThreadPool.ran_of_enter hpool hpc
  obtain rfl : j' = j := ThreadPool.callsFrom_inj hj' h.lt.le (hcalls.symm.trans h.calls)
  have hlength : (s.pool.ran w).length = j' := by
    rw [htake, List.length_take, Nat.min_eq_left hj']
  refine ⟨hframe.calls.trans h.calls, h.here, hframe.task.trans h.task, ?_, fun v hv => ?_⟩
  · obtain ⟨m, sched, hm, hsubmit, hrun⟩ := h.run
    refine ⟨m, sched, hm, hsubmit, hrun.trans (congrArg some ?_)⟩
    simp only [joined]
    congr 1
    funext v
    by_cases hvw : v = w
    · subst hvw
      rw [if_pos hlength, hran, List.length_append, hlength, List.length_singleton,
        if_neg (Nat.succ_ne_self j'), Function.update_self]
    · rw [hframe.ran v hvw, Function.update_of_ne hvw]
  · by_cases hvw : v = w
    · subst hvw
      exact Or.inl ⟨t, hrunning⟩
    · simp only [hframe.worker v hvw, Function.update_of_ne hvw]
      simp only [hframe.ran v hvw] at hv
      exact h.ends v hv

/-- The body that a worker runs is the one of the call. -/
theorem Working.running (h : B.Working tasks m₀ j t s) (hpool : ThreadPool.Inv tasks s.pool)
    {t' : T} (hpc : (s.pool.worker w).pc = .running t') :
    t' = t ∧ (s.pool.ran w).length ≠ j := by
  obtain ⟨j', hhere, hcalls, -, -, hran⟩ := (ThreadPool.handshake_of_inv hpool).running w t' hpc
  have hlt : j' < tasks.length := (List.getElem?_eq_some_iff.mp hhere).1
  obtain rfl : j' = j := ThreadPool.callsFrom_inj hlt.le h.lt.le (hcalls.symm.trans h.calls)
  refine ⟨Option.some.inj (hhere.symm.trans h.here), ?_⟩
  rw [hran, List.length_take, Nat.min_eq_left hlt]
  exact Nat.succ_ne_self j'

/-- An access in the body is one step of its threads. -/
theorem Working.act (h : B.Working tasks m₀ j t s) (hran : (s.pool.ran w).length ≠ j)
    (hpc : (s.pool.worker w).pc = .running t) {label : Bool} {config : Config (Fin n) σ τ}
    (hstep : Interleaving.step (B.act t s.memory) s.config (w, label) = some config) :
    B.Working tasks m₀ j t { s with config } := by
  obtain ⟨m, sched, hm, hsubmit, hrun⟩ := h.run
  obtain ⟨shared, x, hact, rfl⟩ := Interleaving.step_eq_some hstep
  have hjoined : Interleaving.step (B.act t s.memory) (B.joined j t s) (w, label) =
      some ⟨shared, Function.update (B.joined j t s).threads w x⟩ := by
    apply Interleaving.step_of_act
    simp only [joined, if_neg hran]
    exact hact
  refine ⟨h.calls, h.here, h.task, ⟨m, sched ++ [(w, label)], hm, hsubmit, ?_⟩, fun v hv => ?_⟩
  · rw [Interleaving.run_append hrun]
    refine (Interleaving.run_cons.mpr ⟨_, hjoined, rfl⟩).trans (congrArg some ?_)
    simp only [joined]
    congr 1
    funext v
    by_cases hvw : v = w
    · subst hvw
      rw [Function.update_self, if_neg hran, Function.update_self]
    · rw [Function.update_of_ne hvw, Function.update_of_ne hvw]
  · by_cases hvw : v = w
    · subst hvw
      exact Or.inl ⟨t, hpc⟩
    · simp only [Function.update_of_ne hvw]
      exact h.ends v hv

/-- An access in the body without a meaning. -/
theorem Working.fault (h : B.Working tasks m₀ j t s) (hran : (s.pool.ran w).length ≠ j)
    {label : Bool}
    (hstep : Interleaving.step (B.act t s.memory) s.config (w, label) = none) :
    B.Faults tasks m₀ := by
  obtain ⟨m, sched, hm, hsubmit, hrun⟩ := h.run
  have hjoined : Interleaving.step (B.act t s.memory) (B.joined j t s) (w, label) = none := by
    simp only [Interleaving.step, joined, if_neg hran]
    simpa only [Interleaving.step, Option.map_eq_none_iff] using hstep
  refine ⟨j, t, m, sched ++ [(w, label)], h.here, hm, call_of_act hsubmit ?_⟩
  rw [Interleaving.run_append hrun, Interleaving.run, hjoined]
  rfl

/-- A worker in the middle of a call. -/
theorem Working.workerStep (h : B.Working tasks m₀ j t s) (hpool : ThreadPool.Inv tasks s.pool)
    (w : Fin n) (label : Bool) :
    B.Proceeds tasks m₀ (fun s' => B.Working tasks m₀ j t s' ∧
      ∃ label', s'.pool = s.pool.workerStep w label') (B.workerStep s w label) := by
  have haccess := B.access_workerStep s w label
  generalize B.workerStep s w label = o at haccess ⊢
  have hframe := ThreadPool.frame_workerStep s.pool w
  cases haccess with
  | @begin t' label hpc htask =>
    obtain rfl : t' = t := by
      have heq := htask.symm.trans h.task
      cases heq
      rfl
    exact Or.inl ⟨_, rfl, h.begin hpool hpc label, label, rfl⟩
  | @body t' label hpc =>
    obtain ⟨rfl, hran⟩ := h.running hpool hpc
    cases hstep : Interleaving.step (B.act t' s.memory) s.config (w, label) with
    | none => exact Or.inr ⟨rfl, h.fault hran hstep⟩
    | some config =>
      exact Or.inl ⟨_, rfl, h.act hran hpc hstep, true,
        (ThreadPool.workerStep_running hpc).symm⟩
  | @finish t' hpc hdone =>
    obtain ⟨rfl, -⟩ := h.running hpool hpc
    refine Or.inl ⟨_, rfl, h.setPool (hframe false).calls (hframe false).task
      (ThreadPool.ran_workerStep (by simp [hpc]) false) fun v t'' hv => ?_, false, rfl⟩
    by_cases hvw : v = w
    · exact Or.inr (hvw ▸ hdone)
    · rw [(hframe false).worker v hvw]
      exact Or.inl hv
  | @other label hpc henter =>
    exact Or.inl ⟨_, rfl, h.setPool (hframe label).calls (hframe label).task
      (ThreadPool.ran_workerStep henter label) (fun v t' hv =>
        Or.inl (ThreadPool.running_workerStep hpc label hv)), label, rfl⟩

/-- Outside the bodies a worker leaves the memory alone. -/
theorem workerStep_rest (hpc : ∀ t, (s.pool.worker w).pc ≠ .running t) (label : Bool) :
    ∃ s' label', B.workerStep s w label = some s' ∧ s'.memory = s.memory ∧
      s'.pool = s.pool.workerStep w label' := by
  have haccess := B.access_workerStep s w label
  generalize B.workerStep s w label = o at haccess ⊢
  cases haccess with
  | begin => exact ⟨_, _, rfl, rfl, rfl⟩
  | body h => exact absurd h (hpc _)
  | finish h => exact absurd h (hpc _)
  | other => exact ⟨_, _, rfl, rfl, rfl⟩

/-- After the last task no worker runs a body. -/
theorem Exiting.not_running (h : B.Exiting tasks m₀ s) (hpool : ThreadPool.Inv tasks s.pool)
    (w : Fin n) (t : T) : (s.pool.worker w).pc ≠ .running t := by
  intro hpc
  obtain ⟨j, hhere, hcalls, -⟩ := (ThreadPool.handshake_of_inv hpool).running w t hpc
  have hlt : j < tasks.length := (List.getElem?_eq_some_iff.mp hhere).1
  have heq := ThreadPool.callsFrom_inj hlt.le le_rfl (hcalls.symm.trans h.calls)
  omega

theorem Exiting.setPool (h : B.Exiting tasks m₀ s) {s' : PoolRun n T M σ τ}
    (hcalls : s'.pool.calls = s.pool.calls) (htask : s'.pool.task = s.pool.task)
    (hmemory : s'.memory = s.memory) : B.Exiting tasks m₀ s' :=
  ⟨hcalls.trans h.calls, htask.trans h.task, hmemory ▸ h.reached⟩

theorem InCall.workerStep (h : B.InCall tasks m₀ s) (hpool : ThreadPool.Inv tasks s.pool)
    (w : Fin n) (label : Bool) :
    B.Proceeds tasks m₀ (fun s' => B.InCall tasks m₀ s' ∧
      ∃ label', s'.pool = s.pool.workerStep w label') (B.workerStep s w label) := by
  rcases h with ⟨j, t, hworking⟩ | hexiting
  · rcases hworking.workerStep hpool w label with ⟨s', hstep, h', hpool'⟩ | hfault
    · exact Or.inl ⟨s', hstep, Or.inl ⟨j, t, h'⟩, hpool'⟩
    · exact Or.inr hfault
  · obtain ⟨s', label', hstep, hmemory, hpool'⟩ :=
      workerStep_rest (hexiting.not_running hpool w) label
    have hframe := ThreadPool.frame_workerStep s.pool w label'
    rw [← hpool'] at hframe
    exact Or.inl ⟨s', hstep, Or.inr (hexiting.setPool hframe.calls hframe.task hmemory),
      label', hpool'⟩

theorem InCall.setPool (h : B.InCall tasks m₀ s) {p : ThreadPool n T}
    (hp : ThreadPool.Inside s.pool p) : B.InCall tasks m₀ { s with pool := p } := by
  rcases h with ⟨j, t, hworking⟩ | hexiting
  · exact Or.inl ⟨j, t, hworking.setPool hp.calls hp.task hp.ran fun v t' hv =>
      Or.inl (hp.running v t' hv)⟩
  · exact Or.inr (hexiting.setPool hp.calls hp.task rfl)

theorem Inv.of_inCall (hpool : ThreadPool.Inv tasks s.pool) (h : B.InCall tasks m₀ s)
    (hsub : s.pool.submitter ≠ .setTask ∧ s.pool.submitter ≠ .done) : B.Inv tasks m₀ s := by
  refine ⟨hpool, ?_⟩
  cases hpc : s.pool.submitter with
  | setTask => exact absurd hpc hsub.1
  | done => exact absurd hpc hsub.2
  | _ => exact h

theorem Inv.inCall (h : B.Inv tasks m₀ s) (hset : s.pool.submitter ≠ .setTask)
    (hdone : s.pool.submitter ≠ .done) : B.InCall tasks m₀ s := by
  have hreached := h.reached
  cases hpc : s.pool.submitter with
  | setTask => exact absurd hpc hset
  | done => exact absurd hpc hdone
  | _ => simpa only [hpc] using hreached

/-- The task is submitted. -/
theorem Working.submitted (hpool : ThreadPool.Inv tasks s.pool)
    (hsub : s.pool.submitter = .setTask) (hj : j < tasks.length)
    (hcalls : s.pool.calls = ThreadPool.callsFrom tasks j)
    (hreached : B.Calls m₀ (tasks.take j) s.memory) {memory : M}
    (hsubmit : B.submit tasks[j] s.memory = some memory) (label : Bool) :
    B.Working tasks m₀ j tasks[j] ⟨s.pool.submitterStep label, memory,
      B.shared tasks[j] memory, s.config.threads⟩ := by
  obtain ⟨j', hidle⟩ := ThreadPool.idle_of_setTask hpool hsub
  obtain rfl : j' = j :=
    ThreadPool.callsFrom_inj hidle.le hj.le (hidle.calls.symm.trans hcalls)
  have hstep : s.pool.submitterStep label =
      { s.pool with task := .body tasks[j'], submitter := .reset 0 } := by
    simp only [ThreadPool.submitterStep, hsub, hcalls, ThreadPool.callsFrom_of_lt hj]
  have hlength : ∀ w, (s.pool.ran w).length = j' := by
    intro w
    rw [hidle.ran w, List.length_take, Nat.min_eq_left hj.le]
  rw [hstep]
  refine ⟨hcalls, List.getElem?_eq_getElem hj, rfl,
    ⟨s.memory, [], hreached, hsubmit, congrArg some ?_⟩, fun w hw => absurd (hlength w) hw⟩
  simp only [initial, joined, hlength, if_true]

/-- All workers have raised their flags. -/
theorem Working.served (h : B.Working tasks m₀ j t s) (hpool : ThreadPool.Inv tasks s.pool)
    {i : Nat} (hsub : s.pool.submitter = .wait i) (hi : n ≤ i) :
    (∀ w, B.isDone t s.memory (s.config.threads w) = true) ∧ B.joined j t s = s.config := by
  have hran : ∀ w, (s.pool.ran w).length ≠ j := by
    intro w
    obtain ⟨-, j', hj', hcalls, hran⟩ := ThreadPool.served_of_wait hpool hsub hi h.task w
    obtain rfl : j' = j := ThreadPool.callsFrom_inj hj' h.lt.le (hcalls.symm.trans h.calls)
    rw [hran, List.length_append, List.length_take, Nat.min_eq_left hj', List.length_singleton]
    exact Nat.succ_ne_self j'
  refine ⟨fun w => ?_, ?_⟩
  · rcases h.ends w (hran w) with ⟨t', hrunning⟩ | hdone
    · exact absurd hrunning ((ThreadPool.served_of_wait hpool hsub hi h.task w).1 t')
    · exact hdone
  · simp only [joined, hran, if_false]

theorem Inv.workerStep (h : B.Inv tasks m₀ s) (w : Fin n) (label : Bool) :
    B.Proceeds tasks m₀ (B.Inv tasks m₀) (B.workerStep s w label) := by
  have hhandshake := ThreadPool.handshake_of_inv h.pool
  have hreached := h.reached
  by_cases hset : s.pool.submitter = .setTask
  · simp only [hset] at hreached
    obtain ⟨j, hj, hcalls, hreached⟩ := hreached
    obtain ⟨s', label', hstep, hmemory, hpool⟩ := workerStep_rest (B := B) (w := w)
      (fun t ht => by
        obtain ⟨_, _, _, hne, _⟩ := hhandshake.running w t ht
        exact hne.1 hset) label
    have hframe := ThreadPool.frame_workerStep s.pool w label'
    refine Or.inl ⟨s', hstep, hpool ▸ ThreadPool.inv_workerStep h.pool w label', ?_⟩
    rw [hpool, hframe.submitter_eq hset (by simp), hmemory]
    exact ⟨j, hj, hframe.calls.trans hcalls, hreached⟩
  by_cases hdone : s.pool.submitter = .done
  · simp only [hdone] at hreached
    obtain ⟨s', label', hstep, hmemory, hpool⟩ := workerStep_rest (B := B) (w := w)
      (fun t ht => (hhandshake.destroyed hdone w).2 (by rw [ht]; trivial)) label
    have hframe := ThreadPool.frame_workerStep s.pool w label'
    refine Or.inl ⟨s', hstep, hpool ▸ ThreadPool.inv_workerStep h.pool w label', ?_⟩
    rw [hpool, hframe.submitter_eq hdone (by simp), hmemory]
    exact hreached
  · rcases (h.inCall hset hdone).workerStep h.pool w label with
      ⟨s', hstep, hcall, label', hpool⟩ | hfault
    · refine Or.inl ⟨s', hstep, .of_inCall (hpool ▸ ThreadPool.inv_workerStep h.pool w label')
        hcall ?_⟩
      rw [hpool]
      rcases (ThreadPool.frame_workerStep s.pool w label').submitter with heq | ⟨-, heq⟩
      · rw [heq]
        exact ⟨hset, hdone⟩
      · simp [heq]
    · exact Or.inr hfault

/-- Between two calls. -/
theorem Inv.setTask (h : B.Inv tasks m₀ s) (hset : s.pool.submitter = .setTask) (label : Bool) :
    B.Proceeds tasks m₀ (B.Inv tasks m₀) (B.submitterStep s label) := by
  have hpool := ThreadPool.inv_submitterStep h.pool label
  have hreached := h.reached
  simp only [hset] at hreached
  obtain ⟨j, hj, hcalls, hreached⟩ := hreached
  rcases hj.lt_or_eq with hlt | rfl
  · have hcall := hcalls.trans (ThreadPool.callsFrom_of_lt hlt)
    cases hsubmit : B.submit tasks[j] s.memory with
    | none =>
      refine Or.inr ⟨?_, j, tasks[j], s.memory, [], List.getElem?_eq_getElem hlt, hreached,
        call_of_submit hsubmit⟩
      simp only [submitterStep, hset, hcall, hsubmit, Option.map_none]
    | some memory =>
      refine Or.inl ⟨⟨s.pool.submitterStep label, memory, B.shared tasks[j] memory,
        s.config.threads⟩, ?_, .of_inCall hpool
          (Or.inl ⟨j, _, .submitted h.pool hset hlt hcalls hreached hsubmit label⟩) ?_⟩
      · simp only [submitterStep, hset, hcall, hsubmit, Option.map_some]
      · simp only [ThreadPool.submitterStep, hset, hcall]
        simp
  · have hcall := hcalls.trans (ThreadPool.callsFrom_length tasks)
    refine Or.inl ⟨{ s with pool := s.pool.submitterStep label }, ?_, .of_inCall hpool
      (Or.inr ⟨?_, ?_, by rwa [List.take_length] at hreached⟩) ?_⟩
    · simp only [submitterStep, hset, hcall]
    · simp only [ThreadPool.submitterStep, hset, hcall]
      exact hcall.symm.trans hcalls
    · simp only [ThreadPool.submitterStep, hset, hcall]
    · simp only [ThreadPool.submitterStep, hset, hcall]
      simp

/-- The submitter has waited for all workers. -/
theorem Inv.waited (h : B.Inv tasks m₀ s) {i : Nat} (hsub : s.pool.submitter = .wait i)
    (hi : ¬ i < n) (label : Bool) :
    B.Proceeds tasks m₀ (B.Inv tasks m₀) (B.submitterStep s label) := by
  have hpool := ThreadPool.inv_submitterStep h.pool label
  rcases h.inCall (by simp [hsub]) (by simp [hsub]) with ⟨j, t, hworking⟩ | hexiting
  · have hlt := hworking.lt
    obtain rfl : tasks[j] = t :=
      Option.some.inj ((List.getElem?_eq_getElem hlt).symm.trans hworking.here)
    have hcall := hworking.calls.trans (ThreadPool.callsFrom_of_lt hlt)
    obtain ⟨hdone, hjoined⟩ := hworking.served h.pool hsub (not_lt.mp hi)
    obtain ⟨m, sched, hm, hsubmit, hrun⟩ := hworking.run
    rw [hjoined] at hrun
    cases hfinish : B.finish tasks[j] s.memory s.config.shared s.config.threads with
    | none =>
      refine Or.inr ⟨?_, j, tasks[j], m, sched, hworking.here, hm,
        call_of_finish hsubmit hrun hdone hfinish⟩
      simp only [submitterStep, hsub, hcall, if_neg hi, hfinish, Option.map_none]
    | some memory =>
      refine Or.inl ⟨⟨s.pool.submitterStep label, memory, s.config⟩, ?_, hpool, ?_⟩
      · simp only [submitterStep, hsub, hcall, if_neg hi, hfinish, Option.map_some]
      · simp only [ThreadPool.submitterStep, hsub, hcall, dif_neg hi]
        refine ⟨j + 1, hlt, rfl, ?_⟩
        rw [← List.take_append_getElem hlt]
        exact hm.concat ⟨sched, call_of_run hsubmit hrun hdone hfinish⟩
  · have hcall := hexiting.calls.trans (ThreadPool.callsFrom_length tasks)
    refine Or.inl ⟨{ s with pool := s.pool.submitterStep label }, ?_, hpool, ?_⟩
    · simp only [submitterStep, hsub, hcall]
    · simp only [ThreadPool.submitterStep, hsub, hcall, dif_neg hi]
      exact hexiting.reached

theorem Inv.submitterStep (h : B.Inv tasks m₀ s) (label : Bool) :
    B.Proceeds tasks m₀ (B.Inv tasks m₀) (B.submitterStep s label) := by
  have hpool := ThreadPool.inv_submitterStep h.pool label
  by_cases hset : s.pool.submitter = .setTask
  · exact h.setTask hset label
  by_cases hdone : s.pool.submitter = .done
  · refine Or.inl ⟨s, ?_, h⟩
    simp only [Bodies.submitterStep, hdone, ThreadPool.submitterStep]
  by_cases hwait : ∀ i, s.pool.submitter = .wait i → i < n
  · have hinside := ThreadPool.inside_submitterStep hset hdone hwait label
    refine Or.inl ⟨{ s with pool := s.pool.submitterStep label }, ?_,
      .of_inCall hpool ((h.inCall hset hdone).setPool hinside) hinside.submitter⟩
    unfold Bodies.submitterStep
    split
    · exact absurd ‹_› hset
    · rw [if_pos (hwait _ ‹_›)]
    · rfl
  · push Not at hwait
    obtain ⟨i, hi, hge⟩ := hwait
    exact h.waited hi (not_lt.mpr hge) label

theorem Inv.step (h : B.Inv tasks m₀ s) (x : Option (Fin n) × Bool) :
    B.Proceeds tasks m₀ (B.Inv tasks m₀) (B.step s x) := by
  obtain ⟨w, label⟩ := x
  cases w with
  | none => exact h.submitterStep label
  | some w => exact h.workerStep w label

theorem inv_start (tasks : List T) (m : M) (config : Config (Fin n) σ τ) :
    B.Inv tasks m (start tasks m config) :=
  ⟨ThreadPool.inv_start n tasks, 0, Nat.zero_le _, rfl, .nil m⟩

/-- A run of the pool keeps the invariant, unless a call has no meaning. -/
theorem Inv.run (h : B.Inv tasks m₀ s) (sched : List (Option (Fin n) × Bool)) :
    B.Proceeds tasks m₀ (B.Inv tasks m₀) (sched.foldlM B.step s) := by
  induction sched generalizing s with
  | nil => exact Or.inl ⟨s, rfl, h⟩
  | cons x sched ih =>
    rw [List.foldlM_cons]
    rcases h.step x with ⟨s', hstep, h'⟩ | ⟨hstep, hfault⟩
    · rw [hstep]
      exact ih h'
    · rw [hstep]
      exact Or.inr ⟨rfl, hfault⟩

/-- Whatever the accesses of the bodies and of the handshake are interleaved with: when a call
has returned, the memory is what the calls so far make of it one after the other. -/
theorem reached {config : Config (Fin n) σ τ} {sched : List (Option (Fin n) × Bool)}
    (hrun : sched.foldlM B.step (start tasks m₀ config) = some s) :
    (s.pool.submitter = .setTask → ∃ j ≤ tasks.length,
      s.pool.calls = ThreadPool.callsFrom tasks j ∧ B.Calls m₀ (tasks.take j) s.memory) ∧
    (s.pool.submitter = .done → B.Calls m₀ tasks s.memory) := by
  rcases (inv_start tasks m₀ config).run sched with ⟨s', hrun', h⟩ | ⟨hrun', -⟩
  · obtain rfl : s = s' := Option.some.inj (hrun.symm.trans hrun')
    have hreached := h.reached
    refine ⟨fun hset => ?_, fun hdone => ?_⟩
    · simpa only [hset] using hreached
    · simpa only [hdone] using hreached
  · cases hrun.symm.trans hrun'

/-- A run of the pool has a meaning as long as the calls have one. -/
theorem exists_run (h : ¬ B.Faults tasks m₀) (config : Config (Fin n) σ τ)
    (sched : List (Option (Fin n) × Bool)) :
    ∃ s, sched.foldlM B.step (start tasks m₀ config) = some s := by
  rcases (inv_start tasks m₀ config).run sched with ⟨s, hrun, -⟩ | ⟨-, hfault⟩
  · exact ⟨s, hrun⟩
  · exact absurd hfault h

theorem not_faults_nil : ¬ B.Faults [] m₀ := by
  rintro ⟨j, t, -, -, hhere, -⟩
  cases hhere

theorem not_faults_append {first rest : List T} (hfirst : ¬ B.Faults first m₀)
    (hrest : ∀ m, B.Calls m₀ first m → ¬ B.Faults rest m) : ¬ B.Faults (first ++ rest) m₀ := by
  rintro ⟨j, t, m, sched, hhere, hcalls, hcall⟩
  rcases Nat.lt_or_ge j first.length with hj | hj
  · rw [List.getElem?_append_left hj] at hhere
    rw [List.take_append_of_le_length hj.le] at hcalls
    exact hfirst ⟨j, t, m, sched, hhere, hcalls, hcall⟩
  · obtain ⟨i, rfl⟩ := Nat.exists_eq_add_of_le hj
    rw [List.getElem?_append_right hj, Nat.add_sub_cancel_left] at hhere
    rw [List.take_length_add_append] at hcalls
    obtain ⟨m', hm', hcalls⟩ := Steps.append hcalls
    exact hrest m' hm' ⟨i, t, m, sched, hhere, hcalls, hcall⟩

/-- A single task. -/
theorem not_faults_singleton {t : T} (h : ∀ sched, B.call t m₀ sched ≠ .fault) :
    ¬ B.Faults [t] m₀ := by
  rintro ⟨j, t', m, sched, hhere, hcalls, hcall⟩
  cases j with
  | zero =>
    obtain rfl : t = t' := Option.some.inj hhere
    cases hcalls
    exact h sched hcall
  | succ j => cases hhere

end Bodies

end Spheres.Parallel
