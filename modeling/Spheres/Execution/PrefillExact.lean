import Spheres.Execution.Filling
import Spheres.Library.MorselLoop

/-!
# The bulk load with one thread

`n_nearest` covers the vectors that were offered to it, so every page gets the
first vector and the nearest others, and its radius is the largest distance on
it. The load stores every pair once, and its pages are the groups of the pairs.
-/

namespace Spheres.Execution

open Library Library.BinaryHeap Library.Selection Library.MorselLoop

variable {V R : Type*} [Zero R] [LinearOrder R]

section Nearest

variable {m : Nat} {h : List (IdTaggedDistance R)} {all : Multiset (IdTaggedDistance R)}

omit [Zero R] in
/-- One vector offered to `n_nearest`. The entries kept at its distance have
smaller positions. -/
theorem offerNearest_covers (hm : 0 < m) (hheap : IsHeap h) (hlen : h.length ≤ m)
    (hcov : Covers id m (h : Multiset _) all) (e : IdTaggedDistance R)
    (htie : ∀ z ∈ h, z.first ≤ e.first → z ≤ e) :
    ∃ h', offerNearest m e h = some h' ∧ IsHeap h' ∧ h'.length ≤ m ∧
      Covers id m (h' : Multiset _) (e ::ₘ all) := by
  by_cases hlt : h.length < m
  · have hperm : (pushHeap (h ++ [e])).Perm (e :: h) :=
      (pushHeap_perm _).trans (List.perm_append_singleton e h)
    refine ⟨_, by rw [offerNearest, if_pos hlt], isHeap_pushHeap hheap, ?_, ?_⟩
    · rw [hperm.length_eq]
      exact hlt
    · rw [Multiset.coe_eq_coe.mpr hperm, ← Multiset.cons_coe]
      exact CoversExcept.keep e hcov
  · have hfull : h.length = m := by omega
    obtain ⟨top, rest, rfl⟩ := List.exists_cons_of_length_pos (hfull ▸ hm)
    have hrest : m - 1 = rest.length := by
      rw [← hfull, List.length_cons, Nat.add_sub_cancel]
    have hmax := hheap.le_head
    by_cases hnear : top.first > e.first
    · have hperm := replaceRoot_perm top e rest
      refine ⟨pushHeap ((popHeap (top :: rest)).set rest.length e), ?_, isHeap_replaceRoot hheap e,
        ?_, ?_⟩
      · rw [offerNearest, if_neg hlt, List.head?_cons, Option.map_some, if_pos hnear, hrest]
      · rw [hperm.length_eq]
        exact hlen
      · rw [Multiset.coe_eq_coe.mpr hperm, ← Multiset.cons_coe]
        rw [← Multiset.cons_coe] at hcov
        refine CoversExcept.replace hcov hfull (fun z hz => ?_) ?_
        · exact hmax z (List.mem_cons_of_mem _ (Multiset.mem_coe.mp hz))
        · exact (IdTaggedDistance.lt_iff.mpr (Or.inl hnear)).le
    · refine ⟨top :: rest, ?_, hheap, hlen, ?_⟩
      · rw [offerNearest, if_neg hlt, List.head?_cons, Option.map_some, if_neg hnear]
      · rw [← Multiset.singleton_add]
        refine CoversExcept.skip {e} hcov fun y hy => ?_
        obtain rfl := Multiset.mem_singleton.mp hy
        refine Or.inl ?_
        rw [Multiset.countP_eq_card.mpr, Multiset.coe_card, hfull]
        intro z hz
        have hle := IdTaggedDistance.first_le_of_le (hmax z (Multiset.mem_coe.mp hz))
        exact htie z (Multiset.mem_coe.mp hz) (hle.trans (not_lt.mp hnear))

variable {dist : DistFunc V R} {vectors : List V}

/-- `n_nearest` after the loop over the vectors behind the first one. -/
theorem findNearest_covers (dist : DistFunc V R) (hm : 0 < m) (hne : vectors ≠ []) :
    ∃ h, findNearest dist m vectors = some h ∧ IsHeap h ∧ h.length ≤ m ∧
      Covers id m (h : Multiset _)
        ((Multiset.Ico 1 vectors.length).map (toFirst dist vectors)) := by
  obtain ⟨a, rest, rfl⟩ := List.exists_cons_of_ne_nil hne
  have hn : 1 + ((a :: rest).length - 1) = (a :: rest).length := by
    rw [List.length_cons]
    omega
  let P : Multiset Nat → List (IdTaggedDistance R) → Prop := fun v h =>
    IsHeap h ∧ h.length ≤ m ∧ Covers id m (h : Multiset _) (v.map (toFirst dist (a :: rest)))
  have hstep : ∀ v h i, 1 ≤ i → i < 1 + ((a :: rest).length - 1) → (∀ j ∈ v, j < i) → P v h →
      ∃ h', (((a :: rest)[0]?).bind fun anchor => ((a :: rest)[i]?).bind fun v =>
        offerNearest m ⟨dist anchor v, i⟩ h) = some h' ∧ P (i ::ₘ v) h' := by
    rintro v h i - hi hv ⟨hheap, hlen, hcov⟩
    rw [hn] at hi
    have hget := List.getElem?_eq_getElem hi
    have hentry : (⟨dist a (a :: rest)[i], i⟩ : IdTaggedDistance R) =
        toFirst dist (a :: rest) i := by
      ext
      · rw [toFirst_first hget List.head?_cons, dist.symm]
      · rfl
    simp only [List.getElem?_cons_zero, hget, Option.bind_some, hentry]
    obtain ⟨h', hrun, hheap', hlen', hcov'⟩ := offerNearest_covers hm hheap hlen hcov
      (toFirst dist (a :: rest) i) fun z hz hle => by
        obtain ⟨j, hj, rfl⟩ := Multiset.mem_map.mp
          (Multiset.mem_of_le (CoversExcept.le hcov) (Multiset.mem_coe.mpr hz))
        have hji := hv j hj
        rcases hle.lt_or_eq with hlt | heq
        · exact IdTaggedDistance.le_iff.mpr (Or.inl hlt)
        · exact IdTaggedDistance.le_iff.mpr (Or.inr ⟨heq, hji.le⟩)
    exact ⟨h', hrun, hheap', hlen', by rwa [Multiset.map_cons]⟩
  have hstart : P 0 [] := ⟨isHeap_nil, Nat.zero_le _, coversExcept_zero _ _⟩
  obtain ⟨h, hrun, hP⟩ := Loop.foldlM_positions hstep (by simp) hstart
  rw [zero_add, hn] at hP
  exact ⟨h, hrun, hP⟩

/-- With room for no other vector than the first one, a second vector makes the
loop read `n_nearest[0]`. -/
theorem length_le_one_of_findNearest_zero
    (hrun : findNearest dist 0 vectors = some h) : vectors.length ≤ 1 ∧ h = [] := by
  cases vectors with
  | nil =>
    obtain rfl := Option.some.inj hrun
    exact ⟨Nat.zero_le _, rfl⟩
  | cons a rest =>
    cases rest with
    | nil =>
      obtain rfl := Option.some.inj hrun
      exact ⟨le_rfl, rfl⟩
    | cons b rest =>
      exfalso
      simp [findNearest, List.range'_succ, offerNearest] at hrun

/-- The choice that is made for a page. -/
theorem findNearest_chosen (hne : vectors ≠ []) (hrun : findNearest dist m vectors = some h) :
    Chosen dist vectors (.valueInit :: h) ((h.head?.map (·.first)).getD 0) ∧
      IsSmallest id (m + 1) ((.valueInit :: h : List _) : Multiset (IdTaggedDistance R))
        (candidates dist vectors) := by
  have hall : candidates dist vectors =
      .valueInit ::ₘ (Multiset.Ico 1 vectors.length).map (toFirst dist vectors) := by
    have hrange : Multiset.Ico 0 1 + Multiset.Ico 1 vectors.length =
        Multiset.Ico 0 vectors.length :=
      Multiset.Ico_add_Ico_eq_Ico (Nat.zero_le 1) (List.length_pos_of_ne_nil hne)
    have hzero : Multiset.Ico 0 1 = {0} := rfl
    rw [candidates, ← hrange, hzero, Multiset.singleton_add, Multiset.map_cons, toFirst_zero]
  have hspec : IsHeap h ∧ IsSmallest id m (h : Multiset _)
      ((Multiset.Ico 1 vectors.length).map (toFirst dist vectors)) := by
    rcases Nat.eq_zero_or_pos m with rfl | hm
    · obtain ⟨hle, rfl⟩ := length_le_one_of_findNearest_zero hrun
      refine ⟨isHeap_nil, ?_, _, (zero_add _).symm, by simp⟩
      simp
    · obtain ⟨h', hrun', hheap, hlen, hcov⟩ := findNearest_covers dist hm hne
      obtain rfl : h' = h := Option.some.inj (hrun'.symm.trans hrun)
      exact ⟨hheap, hcov.isSmallest hlen⟩
  have hnonneg : ∀ e ∈ candidates dist vectors, (.valueInit : IdTaggedDistance R) ≤ e := by
    intro e he
    rcases (nonneg_of_mem_candidates he).lt_or_eq with hlt | heq
    · exact IdTaggedDistance.le_iff.mpr (Or.inl hlt)
    · exact IdTaggedDistance.le_iff.mpr (Or.inr ⟨heq, Nat.zero_le _⟩)
  rw [hall] at hnonneg
  have hsmallest := hspec.2.cons (x := .valueInit) fun y hy => hnonneg y (Multiset.mem_cons_of_mem hy)
  rw [← hall, Multiset.cons_coe] at hsmallest
  refine ⟨⟨hsmallest.le, rfl, ?_⟩, hsmallest⟩
  cases h with
  | nil => simp [IdTaggedDistance.valueInit]
  | cons top rest =>
    have hmax := hspec.1.le_head
    rw [List.head?_cons, Option.map_some, Option.getD_some]
    refine ⟨⟨top, by simp, rfl⟩, ?_⟩
    rintro d ⟨e, he, rfl⟩
    rcases List.mem_cons.mp he with rfl | he
    · exact nonneg_of_mem_candidates (Multiset.mem_of_le hsmallest.le (by simp))
    · exact IdTaggedDistance.first_le_of_le (hmax e he)

end Nearest

namespace Load

variable {dist : DistFunc V R} {maxNum bound pageIdx : Nat} {l l' : Load V R}

/-- What is chosen for the next page. -/
theorem prefillPage_chosen (hne : l.newVectors ≠ []) (hmax : 0 < maxNum)
    (hrun : l.prefillPage dist maxNum pageIdx = some l') :
    ∃ sel maxDist, Chosen dist l.newVectors sel maxDist ∧
      IsSmallest id maxNum (sel : Multiset _) (candidates dist l.newVectors) ∧
      l.storePage pageIdx (sel.map (·.second)) maxDist = some l' := by
  obtain ⟨nNearest, hfind, hrun⟩ := Option.bind_eq_some_iff.mp hrun
  obtain ⟨hchosen, hsmallest⟩ := findNearest_chosen hne hfind
  rw [Nat.sub_add_cancel hmax] at hsmallest
  exact ⟨_, _, hchosen, hsmallest, hrun⟩

theorem length_of_isSmallest {sel : List (IdTaggedDistance R)} {vectors : List V}
    (h : IsSmallest id maxNum (sel : Multiset _) (candidates dist vectors)) :
    sel.length = min maxNum vectors.length := by
  rw [← Multiset.coe_card, h.1, card_candidates]

variable {all : Multiset (Nat × V)}

/-- The loop over the pages keeps what a load keeps. -/
theorem prefillPages_storing (hmax : 0 < maxNum) {fuel : Nat}
    (hbound : min maxNum l.newVectors.length ≤ bound) (h : Storing dist bound all pageIdx l)
    (hrun : l.prefillPages dist maxNum fuel pageIdx = some l') :
    ∃ n, Storing dist bound all n l' ∧ l.dbStorage.SameShape l'.dbStorage ∧
      l'.newVectors = [] := by
  induction fuel generalizing pageIdx l with
  | zero =>
    rw [prefillPages] at hrun
    split at hrun
    · rename_i hnil
      obtain rfl := Option.some.inj hrun
      exact ⟨pageIdx, h, Storage.SameShape.refl _, List.isEmpty_iff.mp hnil⟩
    · cases hrun
  | succ fuel ih =>
    rw [prefillPages] at hrun
    split at hrun
    · rename_i hnil
      obtain rfl := Option.some.inj hrun
      exact ⟨pageIdx, h, Storage.SameShape.refl _, List.isEmpty_iff.mp hnil⟩
    · rename_i hne
      obtain ⟨l₁, hrun₁, hrun⟩ := Option.bind_eq_some_iff.mp hrun
      obtain ⟨sel, maxDist, hchosen, hsmallest, hstore⟩ :=
        prefillPage_chosen (fun hnil => hne (List.isEmpty_iff.mpr hnil)) hmax hrun₁
      obtain ⟨hnext, hshape, hlt, -⟩ :=
        h.storePage hchosen ((length_of_isSmallest hsmallest).trans_le hbound) hstore
      obtain ⟨n, hn, hshape', hdone⟩ := ih (by omega) hnext hrun
      exact ⟨n, hn, hshape.trans hshape', hdone⟩

/-- Every page of the load is within `bound` and has its exact radius, and every
pair is stored once. -/
theorem batchPrefillSingleThreaded_storing {density : ℚ} (h : l.dbStorage.Uniform) {n : Nat}
    (hnew : l.dbStorage.pages = List.replicate n .zeroed)
    (hbound : min (maxNumVectors l.dbStorage.maxNumVectorsPerPage density)
      l.newVectors.length ≤ bound)
    (hrun : l.batchPrefillSingleThreaded dist density = some l') :
    ∃ m, Storing dist bound (l.slots : Multiset _) m l' ∧ l.dbStorage.SameShape l'.dbStorage ∧
      l'.newVectors = [] := by
  obtain ⟨s, hprepare, hrun⟩ := Option.bind_eq_some_iff.mp hrun
  obtain ⟨hfilling, hshape, hmax⟩ := Filling.start h hnew hprepare
  obtain ⟨m, hm, hshape', hdone⟩ := prefillPages_storing (l := { l with dbStorage := s }) hmax
    hbound (hfilling.storing dist bound l.newVectors l.ids) hrun
  exact ⟨m, hm, hshape.trans hshape', hdone⟩

section Extended

variable {dist : V → V → R}

theorem prefillPages_extended {fuel : Nat} (h : l.dbStorage.Uniform)
    (hrun : l.prefillPages dist maxNum fuel pageIdx = some l') :
    Extended l.dbStorage l'.dbStorage := by
  induction fuel generalizing pageIdx l with
  | zero =>
    rw [prefillPages] at hrun
    split at hrun
    · obtain rfl := Option.some.inj hrun
      exact .refl h
    · cases hrun
  | succ fuel ih =>
    rw [prefillPages] at hrun
    split at hrun
    · obtain rfl := Option.some.inj hrun
      exact .refl h
    · obtain ⟨l₁, hrun₁, hrun⟩ := Option.bind_eq_some_iff.mp hrun
      obtain ⟨nNearest, -, hstore⟩ := Option.bind_eq_some_iff.mp hrun₁
      have hpage := storePage_extended h hstore
      exact hpage.trans (ih hpage.uniform hrun)

/-- A load that returns has only added pages and slots, whatever the distances are. -/
theorem batchPrefillSingleThreaded_extended {density : ℚ} (h : l.dbStorage.Uniform)
    (hrun : l.batchPrefillSingleThreaded dist density = some l') :
    Extended l.dbStorage l'.dbStorage := by
  obtain ⟨s, hprepare, hrun⟩ := Option.bind_eq_some_iff.mp hrun
  have hfiles := prepareFiles_extended h hprepare
  exact hfiles.trans (prefillPages_extended (l := { l with dbStorage := s }) hfiles.uniform hrun)

end Extended

variable {pairs : List (Nat × V)} {total : Nat}

/-- Once the nearest others are found, the next page is stored. -/
theorem prefillPage_loading (hmax : 0 < maxNum) (hne : l.newVectors ≠ [])
    {nNearest : List (IdTaggedDistance R)}
    (hfind : findNearest dist (maxNum - 1) l.newVectors = some nNearest)
    (h : Loading dist maxNum pairs total pageIdx l) :
    ∃ l', l.prefillPage dist maxNum pageIdx = some l' ∧
      Loading dist maxNum pairs total (pageIdx + 1) l' ∧
      l'.newVectors.length < l.newVectors.length := by
  obtain ⟨hchosen, hsmallest⟩ := findNearest_chosen hne hfind
  rw [Nat.sub_add_cancel hmax] at hsmallest
  obtain ⟨l', hstore, hnext, hlt⟩ := h.storePage hmax hchosen hsmallest
  refine ⟨l', ?_, hnext, hlt⟩
  rw [prefillPage, hfind, Option.bind_some]
  exact hstore

theorem prefillPages_loading (hmax : 2 ≤ maxNum) {fuel : Nat} (hfuel : l.newVectors.length ≤ fuel)
    (h : Loading dist maxNum pairs total pageIdx l) :
    ∃ l' n, l.prefillPages dist maxNum fuel pageIdx = some l' ∧
      Loading dist maxNum pairs total n l' ∧ l'.newVectors = [] := by
  induction fuel generalizing pageIdx l with
  | zero =>
    have hnil := List.eq_nil_of_length_eq_zero (Nat.le_zero.mp hfuel)
    exact ⟨l, pageIdx, by rw [prefillPages, if_pos (List.isEmpty_iff.mpr hnil)], h, hnil⟩
  | succ fuel ih =>
    by_cases hnil : l.newVectors = []
    · exact ⟨l, pageIdx, by rw [prefillPages, if_pos (List.isEmpty_iff.mpr hnil)], h, hnil⟩
    · have hroom : 0 < maxNum - 1 := by omega
      obtain ⟨nNearest, hfind, -⟩ := findNearest_covers dist hroom hnil
      obtain ⟨l₁, hrun₁, hnext, hlt⟩ := prefillPage_loading (by omega) hnil hfind h
      obtain ⟨l', n, hrun, hn⟩ := ih (by omega) hnext
      refine ⟨l', n, ?_, hn⟩
      rw [prefillPages, if_neg (fun he => hnil (List.isEmpty_iff.mp he)), hrun₁, Option.bind_some,
        hrun]

/-- The load returns, and its pages are the groups of the pairs. -/
theorem batchPrefillSingleThreaded_layout (dist : DistFunc V R) (density : ℚ)
    (h : l.dbStorage.Uniform)
    (hnew : l.dbStorage.pages =
      List.replicate (l.dbStorage.fileSize / l.dbStorage.pageSize) .zeroed)
    (hdvd : l.dbStorage.pageSize ∣ l.dbStorage.fileSize)
    (hlength : l.ids.length = l.newVectors.length)
    (hmax : 2 ≤ maxNumVectors l.dbStorage.maxNumVectorsPerPage density) :
    ∃ s l', prepareFiles (maxNumVectors l.dbStorage.maxNumVectorsPerPage density) l.ids.length
        l.dbStorage = some s ∧
      l.batchPrefillSingleThreaded dist density = some l' ∧ l'.dbStorage.Uniform ∧
      List.Forall₂ SamePage l'.dbStorage.pages
        (layout dist (maxNumVectors l.dbStorage.maxNumVectorsPerPage density) l.slots
          s.pages.length) := by
  obtain ⟨s, hs⟩ := prepareFiles_isSome h (Nat.zero_lt_of_lt hmax) l.ids.length
  have hstart := Filling.loading dist h hnew hdvd (Nat.zero_lt_of_lt hmax) hlength hs
  obtain ⟨l', n, hrun, hn, hdone⟩ := prefillPages_loading (l := { l with dbStorage := s }) hmax
    le_rfl hstart
  refine ⟨s, l', hs, ?_, hn.finished hdone⟩
  rw [batchPrefillSingleThreaded, hs, Option.bind_some]
  exact hrun

/-- With capacity one the load reads `n_nearest[0]` unless there is one vector only;
otherwise it returns. -/
theorem batchPrefillSingleThreaded_isSome_iff (dist : DistFunc V R) (density : ℚ)
    (h : l.dbStorage.Uniform)
    (hnew : l.dbStorage.pages =
      List.replicate (l.dbStorage.fileSize / l.dbStorage.pageSize) .zeroed)
    (hdvd : l.dbStorage.pageSize ∣ l.dbStorage.fileSize)
    (hlength : l.ids.length = l.newVectors.length) (hne : l.newVectors ≠ [])
    (hpos : 0 < maxNumVectors l.dbStorage.maxNumVectorsPerPage density) :
    (∃ l', l.batchPrefillSingleThreaded dist density = some l') ↔
      2 ≤ maxNumVectors l.dbStorage.maxNumVectorsPerPage density ∨ l.newVectors.length = 1 := by
  obtain ⟨n, hn⟩ := Nat.exists_eq_succ_of_ne_zero (List.length_pos_of_ne_nil hne).ne'
  have hempty : ¬ l.newVectors.isEmpty = true := fun he => hne (List.isEmpty_iff.mp he)
  constructor
  · rintro ⟨l', hrun⟩
    refine or_iff_not_imp_left.mpr fun hone => ?_
    obtain ⟨s, -, hrun⟩ := Option.bind_eq_some_iff.mp hrun
    rw [hn, prefillPages, if_neg hempty] at hrun
    obtain ⟨l₁, hpage, -⟩ := Option.bind_eq_some_iff.mp hrun
    obtain ⟨nNearest, hfind, -⟩ := Option.bind_eq_some_iff.mp hpage
    have hzero : maxNumVectors l.dbStorage.maxNumVectorsPerPage density - 1 = 0 := by omega
    rw [hzero] at hfind
    have hle : l.newVectors.length ≤ 1 := (length_le_one_of_findNearest_zero hfind).1
    omega
  · rintro (htwo | hone)
    · obtain ⟨s, l', -, hrun, -⟩ := batchPrefillSingleThreaded_layout dist density h hnew hdvd
        hlength htwo
      exact ⟨l', hrun⟩
    · obtain ⟨s, hs⟩ := prepareFiles_isSome h hpos l.ids.length
      have hstart := Filling.loading dist h hnew hdvd hpos hlength hs
      have hfind : findNearest dist (maxNumVectors l.dbStorage.maxNumVectorsPerPage density - 1)
          l.newVectors = some [] := by
        rw [findNearest, hone]
        rfl
      obtain ⟨l', hpage, -, hlt⟩ := prefillPage_loading (l := { l with dbStorage := s }) hpos hne
        hfind hstart
      have hdone : l'.newVectors.isEmpty = true := by
        have hlt : l'.newVectors.length < l.newVectors.length := hlt
        rw [List.isEmpty_iff]
        exact List.eq_nil_of_length_eq_zero (by omega)
      refine ⟨l', ?_⟩
      rw [batchPrefillSingleThreaded, hs, Option.bind_some, hone, prefillPages]
      simp only [if_neg hempty, hpage, Option.bind_some, prefillPages, if_pos hdone]

end Load

end Spheres.Execution
