import Spheres.Execution.Insert
import Spheres.Library.BinaryHeap
import Spheres.Library.EraseIf

/-!
# Bulk load with one thread

A bulk load takes two lists, of vectors and of ids, and fills one page after
the other. Each page gets the first vector that is left and the nearest others,
and these are erased from both lists. `storePage` is what this load shares with
the parallel one, once the positions for a page have been chosen.
-/

namespace Spheres.Execution

open Library Library.BinaryHeap

variable {V R : Type*}

/-- What a bulk load takes by reference. -/
structure Load (V R : Type*) where
  dbStorage : Storage V R
  newVectors : List V
  ids : List Nat

/-- Create the files that full pages need beside the first one. A division by
zero has no result. -/
def prepareFiles [Zero R] (maxNum nIds : Nat) (s : Storage V R) : Option (Storage V R) :=
  if s.pageSize = 0 ∨ maxNum * s.fileSize / s.pageSize = 0 then none
  else some (Storage.createStorageFile^[nIds / (maxNum * s.fileSize / s.pageSize)] s)

/-- `n_nearest` after one more vector. With room for none, `n_nearest[0]` does
not exist. -/
def offerNearest [LinearOrder R] (maxNumNearest : Nat) (e : IdTaggedDistance R)
    (nNearest : List (IdTaggedDistance R)) : Option (List (IdTaggedDistance R)) :=
  if nNearest.length < maxNumNearest then some (pushHeap (nNearest ++ [e]))
  else nNearest.head?.map fun top =>
    if top.first > e.first then pushHeap ((popHeap nNearest).set (maxNumNearest - 1) e)
    else nNearest

/-- The loop over `new_vectors` from the second one on. -/
def findNearest [LinearOrder R] (dist : V → V → R) (maxNumNearest : Nat) (newVectors : List V) :
    Option (List (IdTaggedDistance R)) :=
  (List.range' 1 (newVectors.length - 1)).foldlM (fun nNearest i =>
    (newVectors[0]?).bind fun anchor => (newVectors[i]?).bind fun v =>
    offerNearest maxNumNearest ⟨dist anchor v, i⟩ nNearest) []

namespace Load

/-- `append_new_vector` for the vector at a position of the input. -/
def appendFrom (l : Load V R) (pageIdx : Nat) (s : Storage V R) (index : Nat) :
    Option (Storage V R) :=
  (l.ids[index]?).bind fun id => (l.newVectors[index]?).bind fun v => appendNewVector s id v pageIdx

/-- Store the vectors at the chosen positions on a page, write its radius and
erase the positions from both lists. -/
def storePage (pageIdx : Nat) (indices : List Nat) (maxDist : R) (l : Load V R) :
    Option (Load V R) :=
  (indices.foldlM (l.appendFrom pageIdx) l.dbStorage).bind fun s =>
  (s.modifyPageAt pageIdx (.setMaxDist maxDist)).map fun s =>
  { dbStorage := s
    newVectors := eraseIf indices.contains 0 l.newVectors
    ids := eraseIf indices.contains 0 l.ids }

variable [Zero R] [LinearOrder R]

/-- One iteration of the loop over the pages. -/
def prefillPage (dist : V → V → R) (maxNum pageIdx : Nat) (l : Load V R) : Option (Load V R) :=
  (findNearest dist (maxNum - 1) l.newVectors).bind fun nNearest =>
  l.storePage pageIdx (0 :: nNearest.map (·.second)) ((nNearest.head?.map (·.first)).getD 0)

/-- The loop over the pages. -/
def prefillPages (dist : V → V → R) (maxNum : Nat) : Nat → Nat → Load V R → Option (Load V R)
  | 0, _, l => if l.newVectors.isEmpty then some l else none
  | fuel + 1, pageIdx, l =>
    if l.newVectors.isEmpty then some l
    else (l.prefillPage dist maxNum pageIdx).bind (prefillPages dist maxNum fuel (pageIdx + 1))

/-- `batch_prefill_single_threaded`. Every page takes at least one vector, so
the number of vectors is enough fuel. -/
def batchPrefillSingleThreaded (dist : V → V → R) (inPageVectorDensity : ℚ) (l : Load V R) :
    Option (Load V R) :=
  let maxNum := maxNumVectors l.dbStorage.maxNumVectorsPerPage inPageVectorDensity
  (prepareFiles maxNum l.ids.length l.dbStorage).bind fun s =>
  { l with dbStorage := s }.prefillPages dist maxNum l.newVectors.length 0

end Load

/-! ## Storing one page -/

namespace Load

/-- The pairs of an id and a vector that are still to be stored. -/
def slots (l : Load V R) : List (Nat × V) := l.ids.zip l.newVectors

theorem slots_getElem? (l : Load V R) (i : Nat) :
    l.slots[i]? = (l.ids[i]?).bind fun id => (l.newVectors[i]?).map fun v => (id, v) := by
  rw [slots]
  by_cases h : i < (l.ids.zip l.newVectors).length
  · rw [List.length_zip] at h
    have h₁ : i < l.ids.length := by omega
    have h₂ : i < l.newVectors.length := by omega
    simp [h₁, h₂]
  · rw [List.getElem?_eq_none (Nat.le_of_not_lt h)]
    rw [List.length_zip] at h
    by_cases h₁ : i < l.ids.length
    · have h₂ : l.newVectors.length ≤ i := by omega
      simp [h₁, h₂]
    · simp [List.getElem?_eq_none (Nat.le_of_not_lt h₁)]

theorem appendFrom_eq (l : Load V R) (pageIdx : Nat) (s : Storage V R) (i : Nat) :
    l.appendFrom pageIdx s i =
      (l.slots[i]?).bind fun slot => appendNewVector s slot.1 slot.2 pageIdx := by
  rw [slots_getElem?, appendFrom, Option.bind_assoc]
  simp [Option.bind_map]

end Load

/-- A page that was written has the index of a page. -/
theorem modifyPageAt_eq_some {s s' : Storage V R} (h : s.Uniform) {i : Nat}
    {g : Page V R → Page V R} (hrun : s.modifyPageAt i g = some s') :
    i < s.pages.length ∧ s.Rewritten s' (s.pages.modify i g) := by
  obtain ⟨p, hp, -⟩ := Option.map_eq_some_iff.mp hrun
  have hi : i < s.pages.length :=
    (List.getElem?_eq_some_iff.mp ((h.pageAt?_eq i).symm.trans hp)).1
  obtain ⟨s'', hrun', hw⟩ := h.modifyPageAt hi g
  obtain rfl : s'' = s' := Option.some.inj (hrun'.symm.trans hrun)
  exact ⟨hi, hw⟩

namespace Load

variable {l l' : Load V R} {indices : List Nat} {pageIdx : Nat} {maxDist : R}

/-- The slots that a page gains from the loop over the chosen positions. -/
theorem foldlM_appendFrom {s : Storage V R} (h : s.Uniform) (hpage : pageIdx < s.pages.length)
    (hlt : ∀ i ∈ indices, i < l.slots.length) :
    ∃ s', indices.foldlM (l.appendFrom pageIdx) s = some s' ∧
      s.Rewritten s' (s.pages.modify pageIdx fun p =>
        { p with slots := p.slots ++ indices.filterMap (l.slots[·]?) }) := by
  induction indices generalizing s with
  | nil =>
    refine ⟨s, rfl, h, Storage.SameShape.refl s, ?_⟩
    simp only [List.filterMap_nil, List.append_nil]
    exact (List.modify_id _ _).symm
  | cons i rest ih =>
    have hi := hlt i List.mem_cons_self
    have hslot := List.getElem?_eq_getElem hi
    obtain ⟨s₁, hrun₁, hw₁⟩ := h.modifyPageAt hpage (.append l.slots[i].1 l.slots[i].2)
    obtain ⟨s₂, hrun₂, hw₂⟩ := ih hw₁.uniform (by rwa [hw₁.pages_eq, List.length_modify])
      fun j hj => hlt j (List.mem_cons_of_mem _ hj)
    have happend : l.appendFrom pageIdx s i = some s₁ := by
      rw [appendFrom_eq, hslot]
      exact hrun₁
    refine ⟨s₂, by rw [List.foldlM_cons, happend]; exact hrun₂, hw₂.uniform,
      hw₁.shape.trans hw₂.shape, ?_⟩
    rw [hw₂.pages_eq, hw₁.pages_eq, List.modify_modify_eq]
    congr 1
    ext p
    simp [hslot, Page.append]

theorem lt_of_foldlM_appendFrom {s s' : Storage V R} (h : s.Uniform)
    (hrun : indices.foldlM (l.appendFrom pageIdx) s = some s') :
    s'.Uniform ∧ s'.pages.length = s.pages.length ∧ ∀ i ∈ indices, i < l.slots.length := by
  induction indices generalizing s with
  | nil =>
    obtain rfl := Option.some.inj hrun
    exact ⟨h, rfl, by simp⟩
  | cons i rest ih =>
    obtain ⟨s₁, hrun₁, hrun⟩ := Option.bind_eq_some_iff.mp
      ((List.foldlM_cons (m := Option)).symm.trans hrun)
    rw [appendFrom_eq] at hrun₁
    obtain ⟨slot, hslot, hrun₁⟩ := Option.bind_eq_some_iff.mp hrun₁
    obtain ⟨-, hw⟩ := modifyPageAt_eq_some h hrun₁
    obtain ⟨hu, hlength, hlt⟩ := ih hw.uniform hrun
    refine ⟨hu, by rw [hlength, hw.pages_eq, List.length_modify], fun j hj => ?_⟩
    rcases List.mem_cons.mp hj with rfl | hj
    · exact (List.getElem?_eq_some_iff.mp hslot).1
    · exact hlt j hj

/-- A page is stored when there is such a page and the chosen positions exist. -/
theorem storePage_isSome (h : l.dbStorage.Uniform) (hpage : pageIdx < l.dbStorage.pages.length)
    (hlt : ∀ i ∈ indices, i < l.slots.length) (maxDist : R) :
    ∃ l', l.storePage pageIdx indices maxDist = some l' := by
  obtain ⟨s, hrun, hw⟩ := foldlM_appendFrom h hpage hlt
  obtain ⟨s', hrun', -⟩ := hw.uniform.modifyPageAt (i := pageIdx)
    (by rwa [hw.pages_eq, List.length_modify]) (.setMaxDist maxDist)
  exact ⟨_, by rw [storePage, hrun, Option.bind_some, hrun', Option.map_some]⟩

/-- What storing a page does. -/
theorem storePage_spec (h : l.dbStorage.Uniform)
    (hrun : l.storePage pageIdx indices maxDist = some l') :
    pageIdx < l.dbStorage.pages.length ∧ (∀ i ∈ indices, i < l.slots.length) ∧
      l.dbStorage.Rewritten l'.dbStorage (l.dbStorage.pages.modify pageIdx fun p =>
        ⟨maxDist, p.slots ++ indices.filterMap (l.slots[·]?)⟩) ∧
      l'.newVectors = eraseIf indices.contains 0 l.newVectors ∧
      l'.ids = eraseIf indices.contains 0 l.ids := by
  obtain ⟨s, hfold, hrun⟩ := Option.bind_eq_some_iff.mp hrun
  obtain ⟨s', hset, rfl⟩ := Option.map_eq_some_iff.mp hrun
  obtain ⟨hu, hlength, hlt⟩ := lt_of_foldlM_appendFrom h hfold
  obtain ⟨hpage, hw'⟩ := modifyPageAt_eq_some hu hset
  rw [hlength] at hpage
  obtain ⟨s'', hfold', hw⟩ := foldlM_appendFrom (l := l) h hpage hlt
  obtain rfl : s'' = s := Option.some.inj (hfold'.symm.trans hfold)
  refine ⟨hpage, hlt, ⟨hw'.uniform, hw.shape.trans hw'.shape, ?_⟩, rfl, rfl⟩
  rw [hw'.pages_eq, hw.pages_eq, List.modify_modify_eq]
  rfl

/-- Storing at least one vector leaves fewer of them. -/
theorem storePage_shorter (h : l.dbStorage.Uniform) (hne : indices ≠ [])
    (hrun : l.storePage pageIdx indices maxDist = some l') :
    l'.newVectors.length < l.newVectors.length := by
  obtain ⟨-, hlt, -, hvectors, -⟩ := storePage_spec h hrun
  obtain ⟨i, hi⟩ := List.exists_mem_of_ne_nil indices hne
  have hi' := hlt i hi
  rw [slots, List.length_zip] at hi'
  rw [hvectors]
  apply EraseIf.length_eraseIf_lt 0 (i := i) (by omega)
  rw [Nat.zero_add, List.contains_iff_mem]
  exact hi

/-- Every iteration of the loop over the pages removes the first vector. -/
theorem prefillPage_shorter [Zero R] [LinearOrder R] {dist : V → V → R} {maxNum : Nat}
    (h : l.dbStorage.Uniform) (hrun : l.prefillPage dist maxNum pageIdx = some l') :
    l'.newVectors.length < l.newVectors.length := by
  obtain ⟨nNearest, -, hstore⟩ := Option.bind_eq_some_iff.mp hrun
  exact storePage_shorter h (List.cons_ne_nil _ _) hstore

end Load

/-! ## What any load keeps -/

/-- A storage with at least as many pages, where no page has become empty. -/
structure Extended (s s' : Storage V R) : Prop where
  uniform : s'.Uniform
  shape : s.SameShape s'
  length : s.pages.length ≤ s'.pages.length
  slots : ∀ (i : Nat), (∃ p, s.pages[i]? = some p ∧ p.slots ≠ []) →
    ∃ p, s'.pages[i]? = some p ∧ p.slots ≠ []

theorem Extended.refl {s : Storage V R} (h : s.Uniform) : Extended s s :=
  ⟨h, .refl s, le_rfl, fun _ hp => hp⟩

theorem Extended.trans {s s' s'' : Storage V R} (h : Extended s s') (h' : Extended s' s'') :
    Extended s s'' :=
  ⟨h'.uniform, h.shape.trans h'.shape, h.length.trans h'.length,
    fun i hp => h'.slots i (h.slots i hp)⟩

theorem Load.storePage_extended {l l' : Load V R} {indices : List Nat} {pageIdx : Nat} {maxDist : R}
    (h : l.dbStorage.Uniform) (hrun : l.storePage pageIdx indices maxDist = some l') :
    Extended l.dbStorage l'.dbStorage := by
  obtain ⟨-, -, hw, -⟩ := Load.storePage_spec h hrun
  refine ⟨hw.uniform, hw.shape, ?_, ?_⟩
  · rw [hw.pages_eq, List.length_modify]
  · rintro i ⟨p, hp, hne⟩
    rw [hw.pages_eq]
    by_cases hi : pageIdx = i
    · subst hi
      exact ⟨_, ListUpdate.getElem?_modify_self hp _, by simp [hne]⟩
    · exact ⟨p, by rw [ListUpdate.getElem?_modify_ne hi, hp], hne⟩

end Spheres.Execution
