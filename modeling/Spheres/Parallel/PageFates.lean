import Spheres.Library.Trail
import Spheres.Parallel.FindKnn

/-!
# What becomes of a page

A worker of a `FindKnn` task skips a page for one of two tests, or offers its slots
to the heap. `pageStep` is the body of its loop with a report of this, in which the
slots appear in the order in which they are offered. A report names the page of
its position, says that all slots were offered or none, and accounts for what the
count of pruned pages grew by.
-/

namespace Spheres.Parallel

open Library Library.MorselLoop

variable {V R : Type*}

/-- A page is skipped, or the slots with these ids are offered. -/
inductive PageFate where
  | pruned
  | scanned (offered : List Nat)
  deriving DecidableEq

structure PageEvent where
  pageIdx : Nat
  fate : PageFate
  deriving DecidableEq

def PageEvent.isPruned (e : PageEvent) : Bool :=
  match e.fate with
  | .pruned => true
  | .scanned _ => false

/-- A page that is not skipped has been scanned to its end. -/
def PageEvent.Complete (pages : List (Page V R)) (e : PageEvent) : Prop :=
  e.fate = .pruned ∨ ∃ p, pages[e.pageIdx]? = some p ∧ e.fate = .scanned (p.slots.map (·.1))

namespace Search

variable [LinearOrder R] (S : Search V R)

/-- One step of the loop over the slots, with the id of the slot. -/
def offerSlot (query : V) (h : LocalHeap R) (slot : Nat × V) : Option (LocalHeap R × Nat) :=
  (S.offer ⟨S.distFunc slot.2 query, slot.1⟩ h).map fun h => (h, slot.1)

/-- `visitPage`, with the ids of the slots that were offered. -/
def visitPageIds (query : V) (distToAnchor : R) (pageIdx : Nat) (h : LocalHeap R) :
    Option (LocalHeap R × List Nat) :=
  let view := S.dbStorage.getArrayViewOfPage pageIdx
  view.head?.bind fun slot =>
  (if h.nOutputs < S.k then h.push ⟨distToAnchor, slot.1⟩
    else h.offerFull S.k ⟨distToAnchor, slot.1⟩).bind fun h =>
  (loopOf (S.offerSlot query) (view.drop 1) h).map fun h' =>
    (h', slot.1 :: trail (S.offerSlot query) (view.drop 1) h)

variable {S} {query : V} {distToAnchor : R} {pageIdx : Nat}

theorem loopOf_offerSlot (l : List (Nat × V)) (h : LocalHeap R) :
    loopOf (S.offerSlot query) l h =
      l.foldlM (fun h slot => S.offer ⟨S.distFunc slot.2 query, slot.1⟩ h) h := by
  unfold loopOf
  congr 1
  ext h slot : 2
  rw [offerSlot, Option.map_map]
  exact Option.map_id'

theorem visitPageIds_fst (h : LocalHeap R) :
    (S.visitPageIds query distToAnchor pageIdx h).map (·.1) =
      S.visitPage query distToAnchor pageIdx h := by
  simp only [visitPageIds, visitPage, Option.map_bind, Function.comp_def, Option.map_map,
    loopOf_offerSlot, Option.map_id']

/-- Every slot of the view is offered once. -/
theorem visitPageIds_snd {h : LocalHeap R} {r : LocalHeap R × List Nat}
    (hrun : S.visitPageIds query distToAnchor pageIdx h = some r) :
    r.2 = (S.dbStorage.getArrayViewOfPage pageIdx).map (·.1) := by
  obtain ⟨slot, hslot, hrun⟩ := Option.bind_eq_some_iff.mp hrun
  obtain ⟨h₁, -, hrun⟩ := Option.bind_eq_some_iff.mp hrun
  obtain ⟨h₂, hloop, rfl⟩ := Option.map_eq_some_iff.mp hrun
  obtain ⟨rest, hview⟩ := List.head?_eq_some_iff.mp hslot
  have hids := map_trail (g := id) (h := (·.1)) (fun h slot r hr => by
    obtain ⟨h', -, rfl⟩ := Option.map_eq_some_iff.mp hr
    rfl) hloop
  rw [List.map_id] at hids
  rw [hids, hview]
  rfl

end Search

namespace FindKnn

variable [LinearOrder R] (T : FindKnn V R)

/-- The body of the loop over one morsel, with what becomes of the page. -/
def pageStep (currentGlobalMax : WithTop R) (w : KnnWork R) (current : Nat) :
    Option (KnnWork R × PageEvent) :=
  (T.distToAnchor[current]?).bind fun e =>
  (T.dbStorage.pageAt? e.second).bind fun p =>
  if T.pruneCheckFunc e.first p.maxDist currentGlobalMax then
    some ({ w with nPruned := w.nPruned + 1 }, ⟨e.second, .pruned⟩)
  else
    (T.prunedByTop e.first p.maxDist w.heap).bind fun pruned =>
    if pruned then some ({ w with nPruned := w.nPruned + 1 }, ⟨e.second, .pruned⟩)
    else (T.visitPageIds T.query e.first e.second w.heap).map fun r =>
      ({ w with heap := r.1 }, ⟨e.second, .scanned r.2⟩)

/-- What becomes of the pages of a claim. -/
def pageEvents (b : WithTop R) (lo hi : Nat) (w : KnnWork R) : Multiset PageEvent :=
  trail (T.pageStep b) (List.range' lo (hi - lo)) w

variable {T} {b : WithTop R}

theorem pageStep_fst (w : KnnWork R) (current : Nat) :
    (T.pageStep b w current).map (·.1) = T.scanPage b w current := by
  unfold pageStep scanPage
  cases T.distToAnchor[current]? with
  | none => rfl
  | some e =>
    simp only [Option.bind_some]
    cases T.dbStorage.pageAt? e.second with
    | none => rfl
    | some p =>
      simp only [Option.bind_some]
      by_cases hglobal : T.pruneCheckFunc e.first p.maxDist b = true
      · simp only [if_pos hglobal, Option.map_some]
      · simp only [if_neg hglobal]
        cases T.prunedByTop e.first p.maxDist w.heap with
        | none => rfl
        | some pruned =>
          cases pruned with
          | true => rfl
          | false =>
            simp only [Option.bind_some, Bool.false_eq_true, if_false, Option.map_map,
              ← Search.visitPageIds_fst]
            rfl

/-- The events belong to the scans of the worker. -/
theorem scan_eq (lo hi : Nat) (w : KnnWork R) :
    T.findKnnWorker.scan b lo hi w = loopOf (T.pageStep b) (List.range' lo (hi - lo)) w := by
  unfold loopOf
  simp only [pageStep_fst]
  rfl

/-- What one report says. -/
theorem pageStep_spec (huniform : T.dbStorage.Uniform) {w : KnnWork R} {current : Nat}
    {r : KnnWork R × PageEvent} (h : T.pageStep b w current = some r) :
    some r.2.pageIdx = (T.distToAnchor[current]?).map (·.second) ∧
      r.2.Complete T.dbStorage.pages ∧
      r.1.nPruned = w.nPruned + if r.2.isPruned then 1 else 0 := by
  obtain ⟨e, he, h⟩ := Option.bind_eq_some_iff.mp h
  obtain ⟨p, hread, h⟩ := Option.bind_eq_some_iff.mp h
  have hp : T.dbStorage.pages[e.second]? = some p := (huniform.pageAt?_eq _).symm.trans hread
  rw [he, Option.map_some]
  by_cases hglobal : T.pruneCheckFunc e.first p.maxDist b = true
  · rw [if_pos hglobal] at h
    obtain rfl := Option.some.inj h
    exact ⟨rfl, Or.inl rfl, rfl⟩
  · rw [if_neg hglobal] at h
    obtain ⟨pruned, -, h⟩ := Option.bind_eq_some_iff.mp h
    cases pruned with
    | true =>
      obtain rfl := Option.some.inj h
      exact ⟨rfl, Or.inl rfl, rfl⟩
    | false =>
      obtain ⟨visit, hvisit, rfl⟩ := Option.map_eq_some_iff.mp h
      refine ⟨rfl, Or.inr ⟨p, hp, ?_⟩, rfl⟩
      rw [Search.visitPageIds_snd hvisit, huniform.getArrayViewOfPage_eq hp]

variable {lo hi : Nat} {w w' : KnnWork R}

theorem map_pageEvents (huniform : T.dbStorage.Uniform)
    (h : T.findKnnWorker.scan b lo hi w = some w') :
    (T.pageEvents b lo hi w).map (fun e => some e.pageIdx) =
      (Multiset.Ico lo hi).map fun i => (T.distToAnchor[i]?).map (·.second) := by
  rw [scan_eq] at h
  have hmap := map_trail (g := fun e : PageEvent => some e.pageIdx)
    (h := fun i => (T.distToAnchor[i]?).map (·.second))
    (fun _ _ _ hr => (pageStep_spec huniform hr).1) h
  exact congrArg (fun l : List (Option Nat) => (l : Multiset (Option Nat))) hmap

theorem complete_pageEvents (huniform : T.dbStorage.Uniform)
    (h : T.findKnnWorker.scan b lo hi w = some w') :
    ∀ e ∈ T.pageEvents b lo hi w, e.Complete T.dbStorage.pages := by
  rw [scan_eq] at h
  exact forall_trail (fun _ _ _ hr => (pageStep_spec huniform hr).2.1) h

theorem countP_pageEvents (huniform : T.dbStorage.Uniform)
    (h : T.findKnnWorker.scan b lo hi w = some w') :
    w'.nPruned = w.nPruned + (T.pageEvents b lo hi w).countP (·.isPruned) := by
  rw [scan_eq] at h
  have hcount := countP_trail (p := PageEvent.isPruned)
    (fun _ _ _ hr => (pageStep_spec huniform hr).2.2) h
  rw [hcount, pageEvents, Multiset.coe_countP]
  simp only [Bool.decide_eq_true]

end FindKnn

end Spheres.Parallel
