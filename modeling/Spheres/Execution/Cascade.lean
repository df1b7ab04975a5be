import Spheres.Execution.InsertExact

/-!
# The cascade of victims

A full page gives up its farthest vector, which is inserted in turn and may
displace another one. `insertAVector_cascade` says that this ends, and that no
page gives up two vectors one after the other: the victim is as far from the
anchor as any vector of the page was, so that it does not lie within the radius
that the page has now.
-/

namespace Spheres.Execution

open Library

variable {V R : Type*} [Zero R] [LinearOrder R] [Inhabited V]

/-- A call of `insert_a_vector`. -/
structure InsertCall (V R : Type*) where
  core : Core V R
  newId : Nat
  newVector : V

/-- The page at the head of the buffer gives up a victim, and the call ends with
the recursive call `next`. -/
def Evicts (dist : V → V → R) (density : ℚ) (pageIdx : Nat) (call next : InsertCall V R) : Prop :=
  (∃ best, call.core.distToAnchorBuffer.head? = some best ∧ best.second = pageIdx) ∧
    ∀ insertVictim : Core V R → Nat → V → Option (Core V R),
      insertBody dist density insertVictim call.core call.newId call.newVector =
        insertVictim next.core next.newId next.newVector

/-- The recursive calls that a call leads to. -/
def Recurses (dist : V → V → R) (density : ℚ) : InsertCall V R → InsertCall V R → Prop :=
  Relation.ReflTransGen fun call next => ∃ pageIdx, Evicts dist density pageIdx call next

/-- What the first call finds and every recursive call finds again: exact radii,
and a buffer filled for the vector. -/
structure Filled (dist : DistFunc V R) (call : InsertCall V R) : Prop where
  uniform : call.core.dbStorage.Uniform
  nonempty : call.core.dbStorage.pages ≠ []
  coherent : Coherent call.core.dbStorage.pages call.core.cachedVectors call.core.cachedMaxDists
  radii : ∀ p ∈ call.core.dbStorage.pages,
    p.ExactRadius dist ∧ (p.slots = [] → p.maxDist = 0)
  buffer : call.core.distToAnchorBuffer =
    (anchorDistances dist call.core.dbStorage.pages call.newVector).insertionSort (· ≤ ·)

variable {dist : DistFunc V R} {density : ℚ} {call next : InsertCall V R} {pageIdx : Nat}

omit [Inhabited V] in
theorem Filled.ready (h : Filled dist call) : call.core.Ready dist where
  uniform := h.uniform
  nonempty := h.nonempty
  coherent := h.coherent
  attained p hp := by
    by_cases hne : p.slots = []
    · exact Or.inl ((h.radii p hp).2 hne)
    · exact Or.inr ((h.radii p hp).1 hne).1
  buffer := by
    rw [h.buffer]
    exact anchorDistances_valid _ _

omit [LinearOrder R] [Zero R] [Inhabited V] in
/-- A function of calls tells any two of them apart. -/
theorem eq_of_forall_insertVictim {call call' : InsertCall V R}
    (h : ∀ insertVictim : Core V R → Nat → V → Option (Core V R),
      insertVictim call.core call.newId call.newVector =
        insertVictim call'.core call'.newId call'.newVector) : call = call' := by
  classical
  by_contra hne
  have hcall := h fun c newId newVector =>
    if (⟨c, newId, newVector⟩ : InsertCall V R) = call then some c else none
  rw [if_pos rfl, if_neg (Ne.symm hne)] at hcall
  cases hcall

/-- What a call that evicts has done. -/
theorem Evicts.inversion (h : Filled dist call) (hevicts : Evicts dist density pageIdx call next) :
    ∃ p a victim, call.core.dbStorage.pages[pageIdx]? = some p ∧ p.anchor = some a ∧
      dist call.newVector a < p.maxDist ∧
      p.slots[p.findVictimSingleThreaded dist]? = some victim ∧ next.newVector = victim.2 ∧
      next.core.dbStorage.pages = call.core.dbStorage.pages.modify pageIdx (fun q =>
        (q.placeAt call.newId call.newVector (p.findVictimSingleThreaded dist)).renewMaxDist dist) ∧
      Filled dist next := by
  obtain ⟨⟨best, hbest, hidx⟩, hbody⟩ := hevicts
  obtain ⟨grown, i, p, g, left, c', hchange, hedit, hproceeds⟩ :=
    h.ready.insertBody density call.newId call.newVector
  cases left with
  | none =>
    have hreturn := hproceeds.2 fun _ _ _ => none
    rw [hbody] at hreturn
    cases hreturn
  | some victim =>
    obtain ⟨hbuf, hproceeds⟩ := hproceeds
    obtain rfl : next = ⟨c', victim.1, victim.2⟩ :=
      eq_of_forall_insertVictim fun insertVictim => (hbody _).symm.trans (hproceeds insertVictim)
    have hready := hedit.ready h.ready hchange (Or.inr ⟨_, hbuf⟩)
    have hpage := hedit.page
    have hpages := hedit.rewritten.pages_eq
    have hradii : (g p).ExactRadius dist ∧ ((g p).slots = [] → (g p).maxDist = 0) := by
      refine ⟨?_, fun hnil => absurd hnil hchange.slots_ne_nil⟩
      cases hchange with
      | evict => exact Page.exactRadius_renewMaxDist _
    have hfilled : Filled dist ⟨c', victim.1, victim.2⟩ := by
      refine ⟨hready.uniform, hready.nonempty, hready.coherent, ?_, hbuf⟩
      show ∀ q ∈ c'.dbStorage.pages, _
      rw [hpages]
      exact forall_modify h.radii ⟨fun hne => absurd rfl hne, fun _ => rfl⟩ hpage fun _ => hradii
    cases hchange with
    | evict hBuffer hMany hLt hFull hVictim =>
      obtain rfl := Option.some.inj (hBuffer.symm.trans hbest)
      rw [h.buffer] at hBuffer
      obtain ⟨q, a, hq, ha, hd⟩ := head_anchorDistances hBuffer
      rw [List.replicate_zero, List.append_nil] at hpage hpages
      obtain rfl : p = q := Option.some.inj (hpage.symm.trans hq)
      exact ⟨p, a, victim, hidx ▸ hpage, ha, hd ▸ hLt, hVictim, rfl, hidx ▸ hpages, hfilled⟩

/-- Every recursive call finds exact radii and a filled buffer. -/
theorem Filled.recurses {call' : InsertCall V R} (h : Filled dist call)
    (hrec : Recurses dist density call call') : Filled dist call' := by
  induction hrec with
  | refl => exact h
  | tail _ hstep ih =>
    obtain ⟨pageIdx, hevicts⟩ := hstep
    obtain ⟨_, _, _, _, _, _, _, _, _, hnext⟩ := hevicts.inversion ih
    exact hnext

/-- The victim of a page does not displace another one from it. -/
theorem Evicts.ne {next' : InsertCall V R} {pageIdx' : Nat} (h : Filled dist call)
    (hfirst : Evicts dist density pageIdx call next)
    (hsecond : Evicts dist density pageIdx' next next') : pageIdx ≠ pageIdx' := by
  rintro rfl
  obtain ⟨p, a, victim, hp, ha, hlt, hvictim, hvector, hpages, hnext⟩ := hfirst.inversion h
  obtain ⟨q, b, _, hq, hb, hlt', -⟩ := hsecond.inversion hnext
  rw [hpages, ListUpdate.getElem?_modify_self hp] at hq
  obtain rfl := Option.some.inj hq
  have hne : p.slots ≠ [] := fun hnil => by simp [Page.anchor, hnil] at ha
  obtain rfl : a = b := by
    rw [Page.anchor_renewMaxDist, Page.anchor_placeAt (findVictim_pos hne), ha] at hb
    exact Option.some.inj hb
  obtain ⟨hatt, hbound⟩ := (h.radii p (List.mem_of_getElem? hp)).1 hne
  -- the victim was as far from the anchor as any vector of the page
  have hfar : dist victim.2 a = p.maxDist := by
    have hpos : 0 < p.maxDist := (dist.nonneg _ _).trans_lt hlt
    obtain ⟨s, hs, -, hd⟩ := Page.findVictim_spec hpos hatt
    obtain rfl := Option.some.inj (hvictim.symm.trans hs)
    exact hd a ha
  have hnew : ((p.placeAt call.newId call.newVector
      (p.findVictimSingleThreaded dist)).renewMaxDist dist).maxDist ≤ p.maxDist := by
    have hexact : ((p.placeAt call.newId call.newVector
        (p.findVictimSingleThreaded dist)).renewMaxDist dist).ExactRadius dist :=
      Page.exactRadius_renewMaxDist _
    obtain ⟨a', ha', s, hs, hd⟩ := (hexact (by simpa using hne)).1
    obtain rfl : a = a' := Option.some.inj (hb.symm.trans ha')
    rw [hd]
    rcases List.mem_or_eq_of_mem_set hs with hs | rfl
    · exact hbound (mem_radii ha hs)
    · exact hlt.le
  rw [hvector, hfar] at hlt'
  exact absurd hnew hlt'.not_ge

/-- The recursion of an insertion ends, for every density, and no two evictions
that follow each other are from the same page. -/
theorem insertAVector_cascade (h : Filled dist call) (density : ℚ) :
    (∃ c' n, ∀ fuel, n ≤ fuel →
      insertAVector dist density fuel call.core call.newId call.newVector = some c') ∧
    ∀ (call₁ call₂ call₃ : InsertCall V R) (i j : Nat), Recurses dist density call call₁ →
      Evicts dist density i call₁ call₂ → Evicts dist density j call₂ call₃ → i ≠ j := by
  constructor
  · obtain ⟨c', n, hrun, -⟩ := h.ready.insert_induction density call.newId call.newVector
      (fun _ _ => True) (fun _ _ _ _ _ _ _ => trivial) (fun _ _ _ _ _ _ _ _ _ _ => trivial)
    exact ⟨c', n, hrun⟩
  · intro call₁ call₂ call₃ i j hrec hfirst hsecond
    exact hfirst.ne (h.recurses hrec) hsecond

theorem fullPageCore_filled :
    Filled (Distance.squaredL2 ℚ 1) ⟨fullPageCore, 2, .point 3⟩ :=
  ⟨by decide +kernel, by decide +kernel, by decide +kernel, by decide +kernel, by decide +kernel⟩

/-- The point 3 displaces the point 10. -/
theorem insertAVector_cascade_fullPage :
    (∃ c' n, ∀ fuel, n ≤ fuel →
      insertAVector (Distance.squaredL2 ℚ 1) 1 fuel fullPageCore 2 (.point 3) = some c') ∧
    ∀ (call₁ call₂ call₃ : InsertCall (Distance.Vec ℚ 1) ℚ) (i j : Nat),
      Recurses (Distance.squaredL2 ℚ 1) 1 ⟨fullPageCore, 2, .point 3⟩ call₁ →
      Evicts (Distance.squaredL2 ℚ 1) 1 i call₁ call₂ →
      Evicts (Distance.squaredL2 ℚ 1) 1 j call₂ call₃ → i ≠ j :=
  insertAVector_cascade fullPageCore_filled 1

end Spheres.Execution
