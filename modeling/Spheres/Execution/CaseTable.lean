import Spheres.Execution.Cascade

/-!
# The case table of an insertion

The comment at the head of `insert_a_vector` lists eight cases by the state
that each is for; the code tests eight guards one after the other. The two
agree on every state but one kind: a vector outside the radius of its best page,
when no page is empty and the files are sparse. The comment leaves these states
to cases 7 and 8, but the guard of case 6 does not ask for the density of the
files and takes them all. `density_threshold_of_a_file` is compared with nothing
in the source.
-/

namespace Spheres.Execution

open Library

variable {V R : Type*}

inductive InsertCase where
  | case1
  | case2
  | case3
  | case4
  | case5
  | case6
  | case7
  | case8
  deriving DecidableEq

/-- The head of the buffer, with the page it names. -/
def Core.bestPage? (c : Core V R) : Option (IdTaggedDistance R × Page V R) :=
  (c.distToAnchorBuffer.head?).bind fun best =>
    (c.dbStorage.pageAt? best.second).map fun p => (best, p)

/-- The guards of `insert_a_vector` in the order of their tests. -/
def takenCase [LinearOrder R] (inPageVectorDensity : ℚ) (c : Core V R) : Option InsertCase :=
  if c.distToAnchorBuffer = [] then some .case1
  else c.bestPage?.bind fun (best, p) =>
    let maxNum := maxNumVectors c.dbStorage.maxNumVectorsPerPage inPageVectorDensity
    if p.nVectors = 1 then some .case2
    else if best.first < p.maxDist ∧ p.nVectors + 1 ≤ maxNum then some .case3
    else if best.first < p.maxDist ∧ p.nVectors + 1 > maxNum then some .case4
    else if best.first ≥ p.maxDist ∧ c.cachedMaxDists.length < c.dbStorage.nPages then some .case5
    else if best.first ≥ p.maxDist ∧ c.cachedMaxDists.length ≥ c.dbStorage.nPages then some .case6
    else if best.first ≥ p.maxDist ∧ p.nVectors + 1 < maxNum then some .case7
    else if best.first ≥ p.maxDist ∧ p.nVectors + 1 ≥ maxNum then some .case8
    else none

/-- What `insert_a_vector` does in each case. -/
def runCase [Zero R] [LinearOrder R] [Inhabited V] (dist : V → V → R)
    (insertVictim : Core V R → Nat → V → Option (Core V R)) (c : Core V R) (newId : Nat)
    (newVector : V) : InsertCase → Option (Core V R)
  | .case1 =>
    (appendNewVector c.dbStorage newId newVector 0).bind fun s =>
    { c with dbStorage := s }.updateCaches
  | .case2 => c.bestPage?.bind fun (best, _) =>
    ((appendNewVector c.dbStorage newId newVector best.second).bind fun s =>
    renewMaxDist dist s best.second).bind fun s =>
    { c with dbStorage := s }.updateCachedMaxDist
  | .case3 => c.bestPage?.bind fun (best, _) =>
    (appendNewVector c.dbStorage newId newVector best.second).map fun s =>
    { c with dbStorage := s }
  | .case4 => c.bestPage?.bind fun (best, p) =>
    let victimIndex := p.findVictimSingleThreaded dist
    (p.slots[victimIndex]?).bind fun victim =>
    (((c.dbStorage.modifyPageAt best.second (.placeAt newId newVector victimIndex)).bind fun s =>
    renewMaxDist dist s best.second).bind fun s =>
    { c with dbStorage := s }.updateCachedMaxDist).bind fun c =>
    (fillDistToAnchorBufferSingleThreaded dist c.cachedVectors c.cachedMaxDists
      victim.2).bind fun buffer =>
    insertVictim { c with distToAnchorBuffer := buffer } victim.1 victim.2
  | .case5 =>
    (findEmptyPage c.dbStorage.nPages c.cachedMaxDists).bind fun emptyPageIdx =>
    (appendNewVector c.dbStorage newId newVector emptyPageIdx).bind fun s =>
    { c with dbStorage := s }.updateCaches
  | .case7 => c.bestPage?.bind fun (best, _) =>
    (appendNewVector c.dbStorage newId newVector best.second).bind fun s =>
    (s.modifyPageAt best.second (.setMaxDist best.first)).bind fun s =>
    { c with dbStorage := s }.updateCachedMaxDist
  | .case6 | .case8 =>
    (appendToNewFile c.dbStorage newId newVector).bind fun s =>
    { c with dbStorage := s }.updateCaches

/-- The fraction of occupied slots over all pages of the existing files. -/
def fileDensity (s : Storage V R) : ℚ :=
  (s.pages.map (·.nVectors)).sum / (s.pages.length * s.maxNumVectorsPerPage)

/-- The comment of `insert_a_vector`: the first of its cases that describes the
state. A page counts as full in cases 3 and 4 when it has no slot left below its
limit, in cases 7 and 8 when it has at most one left. -/
def documentedCase [LinearOrder R] (inPageVectorDensity : ℚ) (c : Core V R) :
    Option InsertCase :=
  if ∀ p ∈ c.dbStorage.pages, p.slots = [] then some .case1
  else c.bestPage?.map fun (best, p) =>
    let maxNum := maxNumVectors c.dbStorage.maxNumVectorsPerPage inPageVectorDensity
    if p.nVectors = 1 then .case2
    else if best.first < p.maxDist then
      if p.nVectors + 1 ≤ maxNum then .case3 else .case4
    else if ∃ q ∈ c.dbStorage.pages, q.slots = [] then .case5
    else if Defaults.densityThresholdOfAFile ≤ fileDensity c.dbStorage then .case6
    else if p.nVectors + 1 < maxNum then .case7
    else .case8

/-- The new vector lies outside the radius of its best page, no page is empty and
the files are sparse. -/
structure SparseOutlier (c : Core V R) (best : IdTaggedDistance R) (p : Page V R) [LE R] :
    Prop where
  bestPage : c.bestPage? = some (best, p)
  many : p.nVectors ≠ 1
  outside : p.maxDist ≤ best.first
  noEmptyPage : ∀ q ∈ c.dbStorage.pages, q.slots ≠ []
  sparse : fileDensity c.dbStorage < Defaults.densityThresholdOfAFile

/-! ## The guards and the cases -/

theorem Core.bestPage?_eq {c : Core V R} (h : c.dbStorage.Uniform) {best : IdTaggedDistance R}
    {p : Page V R} (hbest : c.distToAnchorBuffer.head? = some best)
    (hp : c.dbStorage.pages[best.second]? = some p) : c.bestPage? = some (best, p) := by
  unfold Core.bestPage?
  rw [hbest, Option.bind_some, h.pageAt?_eq, hp, Option.map_some]

/-- There are fewer cached radii than pages if and only if a page is empty. -/
theorem length_radiusList_lt_iff {pages : List (Page V R)} :
    (radiusList pages).length < pages.length ↔ ∃ q ∈ pages, q.slots = [] := by
  constructor
  · intro hroom
    obtain ⟨i, q, -, hq, hempty⟩ := findEmptyPage_spec hroom
    exact ⟨q, List.mem_of_getElem? hq, hempty⟩
  · rintro ⟨q, hq, hempty⟩
    obtain ⟨i, hi⟩ := List.mem_iff_getElem?.mp hq
    have hlt : (radiusList pages).length < (List.range pages.length).length := by
      apply List.length_filterMap_lt_length_iff_exists.mpr
      refine ⟨i, List.mem_range.mpr (List.getElem?_eq_some_iff.mp hi).1, ?_⟩
      rw [hi, Option.bind_some, anchor_eq_none.mpr hempty, Option.map_none]
    rwa [List.length_range] at hlt

variable [Zero R] [LinearOrder R] [Inhabited V]

/-- The guards lead to the blocks. -/
theorem insertBody_eq_runCase (dist : V → V → R) (density : ℚ)
    (insertVictim : Core V R → Nat → V → Option (Core V R)) (c : Core V R) (newId : Nat)
    (newVector : V) :
    insertBody dist density insertVictim c newId newVector =
      (takenCase density c).bind (runCase dist insertVictim c newId newVector) := by
  cases hbuf : c.distToAnchorBuffer with
  | nil =>
    simp only [insertBody, takenCase, hbuf, List.head?_nil, if_pos, Option.bind_some, runCase]
  | cons best rest =>
    have hhead : c.distToAnchorBuffer.head? = some best := by rw [hbuf, List.head?_cons]
    have hne : c.distToAnchorBuffer ≠ [] := by rw [hbuf]; exact List.cons_ne_nil _ _
    cases hp : c.dbStorage.pageAt? best.second with
    | none =>
      simp only [insertBody, takenCase, hhead, if_neg hne, Core.bestPage?, hp, Option.bind_some,
        Option.bind_none, Option.map_none]
    | some p =>
      have hbest : c.bestPage? = some (best, p) := by
        rw [Core.bestPage?, hhead, Option.bind_some, hp, Option.map_some]
      simp only [insertBody, takenCase, hhead, if_neg hne, hbest, hp, Option.bind_some, insertNear]
      split_ifs <;> simp only [Option.bind_some, Option.bind_none, runCase, hbest]

omit [Zero R] [LinearOrder R] [Inhabited V] in
theorem vacant_iff {c : Core V R} (h : c.Sane) :
    c.cachedMaxDists.length < c.dbStorage.nPages ↔ ∃ q ∈ c.dbStorage.pages, q.slots = [] := by
  rw [h.coherent.maxDists, ← h.uniform.length_pages]
  exact length_radiusList_lt_iff

/-- A new file has pages; an append to the best page adds none. -/
theorem runCase_case7_ne_case6 {c : Core V R} (h : c.Sane) {best : IdTaggedDistance R}
    {p : Page V R} (hbest : c.bestPage? = some (best, p))
    (hp : c.dbStorage.pages[best.second]? = some p) (dist : V → V → R)
    (insertVictim : Core V R → Nat → V → Option (Core V R)) (newId : Nat) (newVector : V) :
    runCase dist insertVictim c newId newVector .case7 ≠
      runCase dist insertVictim c newId newVector .case6 := by
  have hlt := (List.getElem?_eq_some_iff.mp hp).1
  obtain ⟨s, hs, hw⟩ := h.uniform.modifyPageAt hlt (.append newId newVector)
  obtain ⟨s', hs', hw'⟩ := hw.uniform.modifyPageAt (i := best.second)
    (by rw [hw.pages_eq, List.length_modify]; exact hlt) (.setMaxDist best.first)
  have hrun : runCase dist insertVictim c newId newVector .case7 = some { c with
      dbStorage := s', cachedMaxDists := radiusList s'.pages } := by
    unfold runCase appendNewVector
    rw [hbest, Option.bind_some]
    show Option.bind (c.dbStorage.modifyPageAt best.second _) _ = _
    rw [hs, Option.bind_some, hs', Option.bind_some,
      Core.updateCachedMaxDist_eq (c := { c with dbStorage := s' }) hw'.uniform]
  obtain ⟨c', hnew, hedit, -⟩ := h.append_newFile newId newVector
  intro heq
  obtain rfl : _ = c' := Option.some.inj (hrun.symm.trans (heq.trans hnew))
  have hcount := congrArg List.length hedit.rewritten.pages_eq
  have hsame : s'.pages.length = c.dbStorage.pages.length := by
    rw [hw'.pages_eq, hw.pages_eq, List.length_modify, List.length_modify]
  have hwidth := h.uniform.width_pos
  rw [List.length_modify, List.length_append, List.length_replicate] at hcount
  exact absurd (hsame.symm.trans hcount) (by omega)

variable {dist : DistFunc V R} {call : InsertCall V R}

omit [Inhabited V] in
/-- The buffer is empty in an empty database and names a non-empty page in any other. -/
theorem Filled.best (h : Filled dist call) :
    (call.core.distToAnchorBuffer = [] ∧ ∀ p ∈ call.core.dbStorage.pages, p.slots = []) ∨
    ∃ best p, call.core.distToAnchorBuffer ≠ [] ∧ call.core.bestPage? = some (best, p) ∧
      call.core.dbStorage.pages[best.second]? = some p ∧ p.slots ≠ [] := by
  by_cases hnil : call.core.distToAnchorBuffer = []
  · refine Or.inl ⟨hnil, fun p hp => ?_⟩
    obtain ⟨i, hi⟩ := List.mem_iff_getElem?.mp hp
    exact anchorDistances_eq_nil (h.buffer.symm.trans hnil) hi
  · have hhead := List.head?_eq_some_head hnil
    obtain ⟨p, hp, hne⟩ := h.ready.sane.buffer _ (List.mem_of_mem_head? hhead)
    exact Or.inr ⟨_, p, hnil, Core.bestPage?_eq h.uniform hhead hp, hp, hne⟩

omit [Inhabited V] in
/-- The case that is taken is the documented one, or the state is a sparse outlier: then
it is case 6 where cases 7 and 8 are documented. -/
theorem Filled.cases (h : Filled dist call) (density : ℚ) :
    (∃ k, takenCase density call.core = some k ∧ documentedCase density call.core = some k ∧
      ¬ ∃ best p, SparseOutlier call.core best p) ∨
    ∃ best p, SparseOutlier call.core best p ∧
      call.core.dbStorage.pages[best.second]? = some p ∧
      takenCase density call.core = some .case6 ∧
      documentedCase density call.core = some (if p.nVectors + 1 <
        maxNumVectors call.core.dbStorage.maxNumVectorsPerPage density then .case7 else .case8) := by
  rcases h.best with ⟨hnil, hempty⟩ | ⟨best, p, hnil, hbest, hp, hne⟩
  · refine Or.inl ⟨.case1, if_pos hnil, if_pos hempty, ?_⟩
    rintro ⟨best, p, hout⟩
    obtain ⟨p₀, hp₀⟩ := List.exists_mem_of_ne_nil _ h.nonempty
    exact hout.noEmptyPage p₀ hp₀ (hempty p₀ hp₀)
  · have hsome : ¬ ∀ q ∈ call.core.dbStorage.pages, q.slots = [] := fun hall =>
      hne (hall p (List.mem_of_getElem? hp))
    have hvacant := vacant_iff h.ready.sane
    have hunique : ∀ best' p', SparseOutlier call.core best' p' → best' = best ∧ p' = p := by
      intro best' p' hout
      exact Prod.ext_iff.mp (Option.some.inj (hout.bestPage.symm.trans hbest))
    simp only [takenCase, documentedCase, if_neg hnil, if_neg hsome, hbest, Option.bind_some,
      Option.map_some]
    by_cases hOne : p.nVectors = 1
    · refine Or.inl ⟨.case2, if_pos hOne, congrArg some (if_pos hOne), ?_⟩
      rintro ⟨best', p', hout⟩
      exact hout.many ((hunique best' p' hout).2 ▸ hOne)
    rw [if_neg hOne, if_neg hOne]
    rcases lt_or_ge best.first p.maxDist with hLt | hGe
    · have hno : ¬ ∃ best p, SparseOutlier call.core best p := by
        rintro ⟨best', p', hout⟩
        obtain ⟨rfl, rfl⟩ := hunique best' p' hout
        exact hout.outside.not_gt hLt
      rw [if_pos hLt]
      by_cases hRoom : p.nVectors + 1 ≤
          maxNumVectors call.core.dbStorage.maxNumVectorsPerPage density
      · exact Or.inl ⟨.case3, if_pos ⟨hLt, hRoom⟩, congrArg some (if_pos hRoom), hno⟩
      · refine Or.inl ⟨.case4, ?_, congrArg some (if_neg hRoom), hno⟩
        rw [if_neg fun hc => hRoom hc.2, if_pos ⟨hLt, Nat.lt_of_not_le hRoom⟩]
    · rw [if_neg fun hc => hGe.not_gt hc.1, if_neg fun hc => hGe.not_gt hc.1, if_neg hGe.not_gt]
      by_cases hEmpty : ∃ q ∈ call.core.dbStorage.pages, q.slots = []
      · refine Or.inl ⟨.case5, if_pos ⟨hGe, hvacant.mpr hEmpty⟩, congrArg some (if_pos hEmpty), ?_⟩
        rintro ⟨best', p', hout⟩
        obtain ⟨q, hq, hslots⟩ := hEmpty
        exact hout.noEmptyPage q hq hslots
      · -- the guard of case 6 holds for every density of the files
        have hFull := Nat.le_of_not_lt fun hc => hEmpty (hvacant.mp hc)
        rw [if_neg fun hc => hEmpty (hvacant.mp hc.2), if_pos ⟨hGe, hFull⟩, if_neg hEmpty]
        by_cases hDense : Defaults.densityThresholdOfAFile ≤ fileDensity call.core.dbStorage
        · refine Or.inl ⟨.case6, rfl, congrArg some (if_pos hDense), ?_⟩
          rintro ⟨best', p', hout⟩
          exact hout.sparse.not_ge hDense
        · refine Or.inr ⟨best, p, ⟨hbest, hOne, hGe, ?_, not_le.mp hDense⟩, hp, rfl, ?_⟩
          · exact fun q hq hslots => hEmpty ⟨q, hq, hslots⟩
          · rw [if_neg hDense]

/-- The case that is taken is the documented one if and only if the state is no
sparse outlier; and what the insertion does is what the documented case does if and
only if the state is no sparse outlier whose best page has two slots left. -/
theorem insertAVector_caseTable (h : Filled dist call) (density : ℚ) :
    ∃ taken documented, takenCase density call.core = some taken ∧
      documentedCase density call.core = some documented ∧
      (∀ insertVictim,
        insertBody dist density insertVictim call.core call.newId call.newVector =
          runCase dist insertVictim call.core call.newId call.newVector taken) ∧
      (taken = documented ↔ ¬ ∃ best p, SparseOutlier call.core best p) ∧
      ((∀ insertVictim,
        insertBody dist density insertVictim call.core call.newId call.newVector =
          runCase dist insertVictim call.core call.newId call.newVector documented) ↔
        ¬ ∃ best p, SparseOutlier call.core best p ∧ p.nVectors + 1 <
          maxNumVectors call.core.dbStorage.maxNumVectorsPerPage density) := by
  have hrun : ∀ taken, takenCase density call.core = some taken → ∀ insertVictim,
      insertBody dist density insertVictim call.core call.newId call.newVector =
        runCase dist insertVictim call.core call.newId call.newVector taken := by
    intro taken htaken insertVictim
    rw [insertBody_eq_runCase, htaken, Option.bind_some]
  rcases h.cases density with ⟨k, htaken, hdoc, hno⟩ | ⟨best, p, hout, hp, htaken, hdoc⟩
  · refine ⟨k, k, htaken, hdoc, hrun k htaken, iff_of_true rfl hno, iff_of_true (hrun k htaken) ?_⟩
    rintro ⟨best, p, hout, -⟩
    exact hno ⟨best, p, hout⟩
  · refine ⟨.case6, _, htaken, hdoc, hrun _ htaken,
      iff_of_false ?_ (not_not.mpr ⟨best, p, hout⟩), ?_⟩
    · split_ifs <;> exact nofun
    · by_cases hRoom : p.nVectors + 1 <
          maxNumVectors call.core.dbStorage.maxNumVectorsPerPage density
      · rw [if_pos hRoom]
        refine iff_of_false (fun hall => ?_) (not_not.mpr ⟨best, p, hout, hRoom⟩)
        apply runCase_case7_ne_case6 h.ready.sane hout.bestPage hp dist (fun _ _ _ => none)
          call.newId call.newVector
        exact (hall _).symm.trans (hrun _ htaken _)
      · rw [if_neg hRoom]
        -- the blocks of cases 6 and 8 are the same
        refine iff_of_true (fun insertVictim => hrun .case6 htaken insertVictim) ?_
        rintro ⟨best', p', hout', hRoom'⟩
        obtain ⟨rfl, rfl⟩ : best' = best ∧ p' = p :=
          Prod.ext_iff.mp (Option.some.inj (hout'.bestPage.symm.trans hout.bestPage))
        exact hRoom hRoom'

/-- One file with one page of capacity four, which holds the points 0 and 1; the buffer is
filled for the point 10. -/
def sparseCore : Core (Distance.Vec ℚ 1) ℚ where
  dbStorage := { (Storage.createStorage 64 64 .float 1 : Storage (Distance.Vec ℚ 1) ℚ) with
    files := [⟨64, 64, [⟨1, [(0, .point 0), (1, .point 1)]⟩]⟩] }
  cachedVectors := [.point 0]
  cachedMaxDists := [⟨1, 0⟩]
  distToAnchorBuffer := [⟨100, 0⟩]

theorem sparseCore_filled :
    Filled (Distance.squaredL2 ℚ 1) ⟨sparseCore, 2, .point 10⟩ :=
  ⟨by decide +kernel, by decide +kernel, by decide +kernel, by decide +kernel, by decide +kernel⟩

/-- Half of the slots are occupied, and yet the insertion makes a second file. -/
theorem sparseCore_takes_case6 :
    Filled (Distance.squaredL2 ℚ 1) ⟨sparseCore, 2, .point 10⟩ ∧
      takenCase 1 sparseCore = some .case6 ∧ documentedCase 1 sparseCore = some .case7 ∧
      (insertAVector (Distance.squaredL2 ℚ 1) 1 1 sparseCore 2 (.point 10)).map
        (·.dbStorage.nFiles) = some 2 :=
  ⟨sparseCore_filled, by decide +kernel, by decide +kernel, by decide +kernel⟩

theorem insertAVector_caseTable_fullPage :
    ∃ taken documented, takenCase 1 fullPageCore = some taken ∧
      documentedCase 1 fullPageCore = some documented ∧
      (∀ insertVictim, insertBody (Distance.squaredL2 ℚ 1) 1 insertVictim fullPageCore 2
          (.point 3) =
        runCase (Distance.squaredL2 ℚ 1) insertVictim fullPageCore 2 (.point 3) taken) ∧
      (taken = documented ↔ ¬ ∃ best p, SparseOutlier fullPageCore best p) ∧
      ((∀ insertVictim, insertBody (Distance.squaredL2 ℚ 1) 1 insertVictim fullPageCore 2
          (.point 3) =
        runCase (Distance.squaredL2 ℚ 1) insertVictim fullPageCore 2 (.point 3) documented) ↔
        ¬ ∃ best p, SparseOutlier fullPageCore best p ∧ p.nVectors + 1 <
          maxNumVectors fullPageCore.dbStorage.maxNumVectorsPerPage 1) :=
  insertAVector_caseTable fullPageCore_filled 1

end Spheres.Execution
