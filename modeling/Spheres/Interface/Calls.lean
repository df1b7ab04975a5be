import Mathlib.Logic.Relation
import Spheres.Execution.InsertRun
import Spheres.Interface.Prefill
import Spheres.Interface.Requests

/-!
# Calls one after the other

A database is used by calls of the public interface, between which it may be
closed and loaded again. `Step` relates a database to what a call leaves that
returns; `Steady` is what every call keeps, whatever the distances are: the
layout, caches that agree with the pages, and a distance buffer that names
non-empty pages.
-/

namespace Spheres

open Execution Library

variable {V R : Type*} [Zero R] [LinearOrder R] [Inhabited V]

/-- A call of the public interface, with the schedules of its tasks. -/
inductive Call (V : Type*) where
  | insertAVector (newId : Nat) (newVector : V) (inPageVectorDensity : ℚ)
  | request (req : Request V)
  | batchPrefill (newVectors : List V) (ids : List Nat) (inPageVectorDensity : ℚ)
  | batchPrefillParallel (newVectors : List V) (ids : List Nat) (inPageVectorDensity : ℚ)
      (scheds : List (List (Nat × Bool)))
  /-- Destroy the database and call `load_database`. -/
  | reopen (nThreads buffersSize : Nat)

namespace Database

/-- `spheres::insert_a_vector`. -/
def insertAVector (db : Database V R) (inPageVectorDensity : ℚ) (fuel newId : Nat) (newVector : V) :
    Option (Database V R) :=
  (Execution.insertAVector db.installed.distFunc inPageVectorDensity fuel db.toCore newId
    newVector).map fun c => { db with toCore := c }

/-- A call returns and leaves `after`; an insertion returns with all large enough fuel. -/
def Returns (installed : SupportedDistanceFunctions → Installed V R) (db : Database V R) :
    Call V → Database V R → Prop
  | .insertAVector newId newVector density, after =>
    ∃ n, ∀ fuel, n ≤ fuel → db.insertAVector density fuel newId newVector = some after
  | .request req, after => ∃ result, db.answer req = .returned (after, result)
  | .batchPrefill newVectors ids density, after =>
    ∃ left, db.batchPrefill newVectors ids density = some (after, left)
  | .batchPrefillParallel newVectors ids density scheds, after =>
    ∃ left, db.batchPrefillParallel newVectors ids density scheds = .returned (after, left)
  | .reopen nThreads buffersSize, after =>
    load installed db.close nThreads buffersSize = some after

/-- With an empty distance buffer an insertion takes one call. -/
theorem Returns.of_nil {installed : SupportedDistanceFunctions → Installed V R}
    {db after : Database V R} {density : ℚ} {newId : Nat} {newVector : V}
    (hbuf : db.distToAnchorBuffer = [])
    (hrun : db.insertAVector density 1 newId newVector = some after) :
    db.Returns installed (.insertAVector newId newVector density) after := by
  refine ⟨1, fun fuel hfuel => ?_⟩
  obtain ⟨fuel, rfl⟩ := Nat.exists_eq_add_of_le' hfuel
  rw [← hrun]
  simp only [insertAVector, Execution.insertAVector, hbuf, List.head?_nil]

/-- One call that returns, among those that are allowed. -/
def Step (installed : SupportedDistanceFunctions → Installed V R)
    (allowed : Database V R → Call V → Database V R → Prop) (db after : Database V R) : Prop :=
  ∃ call, allowed db call after ∧ db.Returns installed call after

/-- What a call leaves after any number of calls. -/
abbrev Run (installed : SupportedDistanceFunctions → Installed V R)
    (allowed : Database V R → Call V → Database V R → Prop) :
    Database V R → Database V R → Prop :=
  Relation.ReflTransGen (Step installed allowed)

theorem Run.invariant {installed : SupportedDistanceFunctions → Installed V R}
    {allowed : Database V R → Call V → Database V R → Prop} (Inv : Database V R → Prop)
    (hstep : ∀ db call after, Inv db → allowed db call after → db.Returns installed call after →
      Inv after) {db after : Database V R} (hrun : Run installed allowed db after) (h : Inv db) :
    Inv after := by
  induction hrun with
  | refl => exact h
  | tail _ hcall ih =>
    obtain ⟨call, hallowed, hreturn⟩ := hcall
    exact hstep _ call _ ih hallowed hreturn

/-- No page holds more vectors than there is room for. -/
def WithinCapacity (db : Database V R) : Prop :=
  ∀ p ∈ db.dbStorage.pages, p.nVectors ≤ db.dbStorage.maxNumVectorsPerPage

instance (db : Database V R) : Decidable db.WithinCapacity :=
  inferInstanceAs (Decidable (∀ p ∈ _, _))

/-- A call that leaves every page within its capacity. -/
def KeepsCapacity (_db : Database V R) (_call : Call V) (after : Database V R) : Prop :=
  after.WithinCapacity

instance (db : Database V R) (call : Call V) (after : Database V R) :
    Decidable (db.KeepsCapacity call after) :=
  inferInstanceAs (Decidable after.WithinCapacity)

end Database

/-! ## What every call keeps -/

namespace Execution

omit [Zero R] [LinearOrder R] in
/-- Both caches after pages were added and written. -/
theorem Core.Sane.refresh {c d c' : Core V R} (h : c.Sane)
    (hextended : Extended c.dbStorage d.dbStorage)
    (hbuf : d.distToAnchorBuffer = c.distToAnchorBuffer) (hrun : d.updateCaches = some c') :
    c'.Sane ∧ c.dbStorage.SameShape c'.dbStorage := by
  obtain ⟨cached, hcaches, hcoherent⟩ := Core.updateCaches_eq hextended.uniform
  obtain rfl := Option.some.inj (hcaches.symm.trans hrun)
  refine ⟨⟨hextended.uniform, fun hnil => ?_, hcoherent, fun e he => ?_⟩, hextended.shape⟩
  · have hlength := hextended.length
    have hpos := List.length_pos_of_ne_nil h.nonempty
    have hzero := congrArg List.length hnil
    simp only [List.length_nil] at hzero
    omega
  · exact hextended.slots e.second (h.buffer e (hbuf ▸ he))

end Execution

omit [Inhabited V] in
/-- The rounds of a parallel load leave the distance buffer and the functions alone. -/
theorem PrefillState.round_extended {maxNum step : Nat} {sched : List (Nat × Bool)}
    {st st' : PrefillState V R} (h : st.db.dbStorage.Uniform)
    (hrun : st.round maxNum step sched = .returned st') :
    Extended st.db.dbStorage st'.db.dbStorage ∧
      st'.db.distToAnchorBuffer = st.db.distToAnchorBuffer ∧ st'.db.dbConfig = st.db.dbConfig ∧
      st'.db.installed = st.db.installed := by
  obtain ⟨c, -, hrun⟩ := Outcome.bind_eq_returned.mp hrun
  obtain ⟨merged, -, hrun⟩ := Option.bind_eq_some_iff.mp (Outcome.ofOption_eq_returned.mp hrun)
  obtain ⟨last, -, hrun⟩ := Option.bind_eq_some_iff.mp hrun
  obtain ⟨l, hstore, rfl⟩ := Option.map_eq_some_iff.mp hrun
  exact ⟨Load.storePage_extended (l := st.load) h hstore, rfl, rfl, rfl⟩

namespace Database

/-- A database with the layout it was created with, in which there is a page, the
caches agree with the pages and the distance buffer names non-empty pages. -/
structure Steady (installed : SupportedDistanceFunctions → Installed V R)
    (pageSize fileSize : Nat) (dtype : SupportedDataType) (dim : Nat)
    (distanceFunction : SupportedDistanceFunctions) (db : Database V R) : Prop where
  sane : db.toCore.Sane
  layout : (Storage.createStorage pageSize fileSize dtype dim : Storage V R).SameShape db.dbStorage
  config : { db.dbConfig with nFiles := db.dbStorage.nFiles } =
    db.dbStorage.config dtype distanceFunction
  installed : db.installed = installed distanceFunction

section Steady

variable {installed : SupportedDistanceFunctions → Installed V R}
  {pageSize fileSize dim nThreads buffersSize : Nat} {dtype : SupportedDataType}
  {distanceFunction : SupportedDistanceFunctions} {db after : Database V R}

omit [LinearOrder R] [Inhabited V] in
theorem Fresh.steady
    (h : db.Fresh installed pageSize fileSize dtype dim distanceFunction nThreads buffersSize) :
    db.Steady installed pageSize fileSize dtype dim distanceFunction := by
  refine ⟨⟨h.grown.uniform, ?_, h.coherent, ?_⟩, h.grown.layout, ?_, h.installed⟩
  · have hpos : 0 < fileSize / pageSize := by
      have hpos := h.grown.uniform.width_pos
      rwa [h.grown.layout.fileSize, h.grown.layout.pageSize] at hpos
    rw [h.pages, Ne, List.replicate_eq_nil_iff]
    exact hpos.ne'
  · rw [h.distToAnchorBuffer]
    simp
  · rw [h.config]
    rfl

omit [LinearOrder R] [Inhabited V] in
theorem Steady.of_sane (h : db.Steady installed pageSize fileSize dtype dim distanceFunction)
    (hsane : after.toCore.Sane) (hshape : db.dbStorage.SameShape after.dbStorage)
    (hconfig : after.dbConfig = db.dbConfig) (hinstalled : after.installed = db.installed) :
    after.Steady installed pageSize fileSize dtype dim distanceFunction := by
  refine ⟨hsane, h.layout.trans hshape, ?_, hinstalled.trans h.installed⟩
  have heq := congrArg (fun config : DatabaseConfig =>
    { config with nFiles := after.dbStorage.nFiles }) h.config
  simp only [Storage.config] at heq
  rw [hconfig, heq, Storage.config, hshape.pageSize, hshape.fileSize, hshape.vectorDim]

omit [LinearOrder R] [Inhabited V] in
theorem Steady.grown (h : db.Steady installed pageSize fileSize dtype dim distanceFunction) :
    db.dbStorage.Grown pageSize fileSize dtype dim :=
  ⟨h.sane.uniform, h.layout⟩

theorem Steady.insertAVector
    (h : db.Steady installed pageSize fileSize dtype dim distanceFunction) {density : ℚ}
    {fuel newId : Nat} {newVector : V}
    (hrun : db.insertAVector density fuel newId newVector = some after) :
    after.Steady installed pageSize fileSize dtype dim distanceFunction := by
  obtain ⟨c, hc, rfl⟩ := Option.map_eq_some_iff.mp hrun
  obtain ⟨hsane, hshape⟩ := h.sane.insertAVector db.installed.distFunc hc
  exact h.of_sane hsane hshape rfl rfl

omit [Inhabited V] in
theorem Steady.answer (h : db.Steady installed pageSize fileSize dtype dim distanceFunction)
    {req : Request V} {result : List (Option (IdTaggedDistance R))}
    (hrun : db.answer req = .returned (after, result)) :
    after.Steady installed pageSize fileSize dtype dim distanceFunction := by
  obtain ⟨b, hb, hbuf⟩ := answer_refill h.sane.coherent hrun
  obtain rfl : after = db.refill b := hb
  refine h.of_sane ⟨h.sane.uniform, h.sane.nonempty, h.sane.coherent, fun e he => ?_⟩ (.refl _) rfl
    rfl
  rcases hbuf with hbuf | ⟨query, hbuf⟩
  · exact h.sane.buffer e (hbuf ▸ he)
  · replace he : e ∈ db.queryOrder query := hbuf ▸ he
    exact anchorDistances_names db.installed.distFunc db.dbStorage.pages query e he

theorem Steady.batchPrefill (h : db.Steady installed pageSize fileSize dtype dim distanceFunction)
    {newVectors : List V} {ids : List Nat} {density : ℚ} {left : List V × List Nat}
    (hrun : db.batchPrefill newVectors ids density = some (after, left)) :
    after.Steady installed pageSize fileSize dtype dim distanceFunction := by
  obtain ⟨l, hload, hrun⟩ := Option.bind_eq_some_iff.mp hrun
  obtain ⟨c, hcaches, heq⟩ := Option.map_eq_some_iff.mp hrun
  obtain rfl : ({ db with toCore := c } : Database V R) = after := congrArg Prod.fst heq
  obtain ⟨hsane, hshape⟩ := h.sane.refresh (d := { db.toCore with dbStorage := l.dbStorage })
    (Load.batchPrefillSingleThreaded_extended h.sane.uniform hload) rfl hcaches
  exact h.of_sane hsane hshape rfl rfl

/-- A parallel load that returns has only added pages and slots and refilled the buffers of
the workers. -/
theorem batchPrefillParallel_extended (h : db.dbStorage.Uniform) {newVectors : List V}
    {ids : List Nat} {density : ℚ} {scheds : List (List (Nat × Bool))} {left : List V × List Nat}
    (hrun : db.batchPrefillParallel newVectors ids density scheds = .returned (after, left)) :
    ∃ d : Core V R, Extended db.dbStorage d.dbStorage ∧
      d.distToAnchorBuffer = db.distToAnchorBuffer ∧ d.updateCaches = some after.toCore ∧
      after.dbConfig = db.dbConfig ∧ after.installed = db.installed := by
  obtain ⟨st, hst, hrun⟩ := Outcome.bind_eq_returned.mp hrun
  obtain ⟨s, hs, rfl⟩ := Option.map_eq_some_iff.mp (Outcome.ofOption_eq_returned.mp hst)
  split at hrun
  · cases hrun
  obtain ⟨st', hloop, hrun⟩ := Outcome.bind_eq_returned.mp hrun
  obtain ⟨c, hcaches, hrun⟩ := Outcome.bind_eq_returned.mp hrun
  cases hrun
  let Inv : PrefillState V R → Prop := fun st =>
    Extended db.dbStorage st.db.dbStorage ∧
      st.db.distToAnchorBuffer = db.distToAnchorBuffer ∧ st.db.dbConfig = db.dbConfig ∧
      st.db.installed = db.installed
  obtain ⟨⟨hextended, hbuf, hconfig, hinstalled⟩, -⟩ := Outcome.repeatUntil_returned Inv
    (fun st sched st' hst _ hround => by
      obtain ⟨hextended, hbuf, hconfig, hinstalled⟩ := hst
      obtain ⟨hextended', hbuf', hconfig', hinstalled'⟩ :=
        PrefillState.round_extended hextended.uniform hround
      exact ⟨hextended.trans hextended', hbuf'.trans hbuf, hconfig'.trans hconfig,
        hinstalled'.trans hinstalled⟩)
    ⟨prepareFiles_extended h hs, rfl, rfl, rfl⟩ hloop
  exact ⟨st'.db.toCore, hextended, hbuf, Outcome.ofOption_eq_returned.mp hcaches, hconfig,
    hinstalled⟩

theorem Steady.batchPrefillParallel
    (h : db.Steady installed pageSize fileSize dtype dim distanceFunction)
    {newVectors : List V} {ids : List Nat} {density : ℚ} {scheds : List (List (Nat × Bool))}
    {left : List V × List Nat}
    (hrun : db.batchPrefillParallel newVectors ids density scheds = .returned (after, left)) :
    after.Steady installed pageSize fileSize dtype dim distanceFunction := by
  obtain ⟨d, hextended, hbuf, hcaches, hconfig, hinstalled⟩ :=
    batchPrefillParallel_extended h.sane.uniform hrun
  obtain ⟨hsane, hshape⟩ := h.sane.refresh hextended hbuf hcaches
  exact h.of_sane hsane hshape hconfig hinstalled

omit [LinearOrder R] in
/-- What `load_database` makes of the files that a database leaves. -/
theorem Steady.load_close (h : db.Steady installed pageSize fileSize dtype dim distanceFunction)
    (nThreads buffersSize : Nat) :
    ∃ opened : Database V R, construct installed db.close nThreads buffersSize = some opened ∧
      opened.dbStorage =
        { db.dbStorage with nPages := db.dbStorage.nFiles * fileSize / pageSize } ∧
      opened.distToAnchorBuffer = [] ∧ opened.dbConfig = db.close.config ∧
      opened.installed = db.installed := by
  have hload := h.grown.load distanceFunction
  rw [← h.config] at hload
  refine ⟨_, by rw [construct, close, hload, Option.map_some], rfl, rfl, rfl, ?_⟩
  have hfunction := congrArg DatabaseConfig.distanceFunction h.config
  rw [h.installed]
  exact congrArg installed hfunction

omit [LinearOrder R] in
/-- With the right number of pages a database is loaded with the storage it had. -/
theorem Steady.load_returns (h : db.Steady installed pageSize fileSize dtype dim distanceFunction)
    (hcount : db.dbStorage.nFiles * fileSize / pageSize = db.dbStorage.nPages)
    (nThreads buffersSize : Nat) :
    ∃ after, load installed db.close nThreads buffersSize = some after ∧
      after.dbStorage = db.dbStorage ∧ after.distToAnchorBuffer = [] ∧
      after.Steady installed pageSize fileSize dtype dim distanceFunction := by
  obtain ⟨opened, hopened, hstorage, hbuf, hconfig, hinstalled⟩ := h.load_close nThreads buffersSize
  rw [hcount] at hstorage
  replace hstorage : opened.dbStorage = db.dbStorage := hstorage
  have huniform : opened.dbStorage.Uniform := hstorage ▸ h.sane.uniform
  obtain ⟨cached, hcaches, hcoherent⟩ := Core.updateCaches_eq (c := opened.toCore) huniform
  have hload := congrArg (Option.map fun c => ({ opened with toCore := c } : Database V R)) hcaches
  rw [Option.map_some] at hload
  refine ⟨_, (congrArg (Option.bind · _) hopened).trans hload, hstorage, hbuf, ?_⟩
  refine ⟨⟨huniform, hstorage ▸ h.sane.nonempty, hcoherent, ?_⟩, hstorage ▸ h.layout, ?_,
    hinstalled.trans h.installed⟩
  · intro e he
    rw [show _ = [] from hbuf] at he
    cases he
  · show { opened.dbConfig with nFiles := opened.dbStorage.nFiles } =
      opened.dbStorage.config dtype distanceFunction
    rw [hconfig, hstorage]
    exact h.config

omit [LinearOrder R] in
/-- A load that returns has found as many pages as it counts. -/
theorem Steady.count_of_load
    (h : db.Steady installed pageSize fileSize dtype dim distanceFunction) (h0 : 0 < pageSize)
    (hrun : load installed db.close nThreads buffersSize = some after) :
    db.dbStorage.nFiles * fileSize / pageSize = db.dbStorage.nPages := by
  obtain ⟨opened, hopened, hstorage, -⟩ := h.load_close nThreads buffersSize
  rw [load, hopened, Option.bind_some] at hrun
  obtain ⟨c, hcaches, -⟩ := Option.map_eq_some_iff.mp hrun
  obtain ⟨cached, hcached, -⟩ := Option.bind_eq_some_iff.mp hcaches
  have hle : db.dbStorage.nPages ≤ db.dbStorage.nFiles * fileSize / pageSize := by
    rw [Storage.nPages_split _ _ _ h0, h.sane.uniform.nPages_eq, h.layout.fileSize,
      h.layout.pageSize]
    exact Nat.le_add_right _ _
  by_contra hne
  -- otherwise the caches were built from a page that no file holds
  obtain ⟨p, hp⟩ := exists_page_of_updateAnchorCache (i := db.dbStorage.nPages) hcached (by
    rw [hstorage]
    exact lt_of_le_of_ne hle (Ne.symm hne))
  rw [hstorage] at hp
  have hread := (h.sane.uniform.pageAt?_eq _).symm.trans hp
  rw [← h.sane.uniform.length_pages, List.getElem?_eq_none le_rfl] at hread
  cases hread

/-- Every call keeps it. -/
theorem Steady.returns (h : db.Steady installed pageSize fileSize dtype dim distanceFunction)
    (h0 : 0 < pageSize) {call : Call V} (hreturn : db.Returns installed call after) :
    after.Steady installed pageSize fileSize dtype dim distanceFunction := by
  cases call with
  | insertAVector newId newVector density =>
    obtain ⟨n, hrun⟩ := hreturn
    exact h.insertAVector (hrun n le_rfl)
  | request req =>
    obtain ⟨result, hrun⟩ := hreturn
    exact h.answer hrun
  | batchPrefill newVectors ids density =>
    obtain ⟨left, hrun⟩ := hreturn
    exact h.batchPrefill hrun
  | batchPrefillParallel newVectors ids density scheds =>
    obtain ⟨left, hrun⟩ := hreturn
    exact h.batchPrefillParallel hrun
  | reopen nThreads buffersSize =>
    obtain ⟨after', hrun, -, -, hsteady⟩ := h.load_returns (h.count_of_load h0 hreturn) nThreads
      buffersSize
    obtain rfl : after' = after := Option.some.inj (hrun.symm.trans hreturn)
    exact hsteady

theorem Steady.run {allowed : Database V R → Call V → Database V R → Prop}
    (h : db.Steady installed pageSize fileSize dtype dim distanceFunction) (h0 : 0 < pageSize)
    (hrun : Run installed allowed db after) :
    after.Steady installed pageSize fileSize dtype dim distanceFunction :=
  hrun.invariant (Steady installed pageSize fileSize dtype dim distanceFunction)
    (fun _ _ _ hdb _ hreturn => hdb.returns h0 hreturn) h

end Steady

end Database

end Spheres
