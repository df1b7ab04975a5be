import Spheres.Execution.InsertExact
import Spheres.Execution.MappedStorage

/-!
# Inserting a vector into mapped files

`insert_a_vector` on the bytes of the mapped files and on the flat anchor cache. It does
what the function on pages does (`insertAVector_follows`), provided that the vectors it
appends find room. Every case sees to that but the first, which appends to page 0 whatever
that page holds.
-/

namespace Spheres

open Execution Library

/-- The arguments that `insert_a_vector` takes by reference. -/
structure MappedCore (R : Type) where
  dbStorage : MappedStorage
  cachedVectors : List R
  cachedMaxDists : List (IdTaggedDistance R)
  distToAnchorBuffer : List (IdTaggedDistance R)

namespace PageLayout

variable {R : Type} {l : PageLayout}

namespace NumberFormat

section Functions

variable [Zero R] (φ : l.NumberFormat R)

def updateCachedMaxDist (b : MappedCore R) : Option (MappedCore R) :=
  (φ.updateCachedMaxDistSingleThreaded b.dbStorage).map fun cached =>
    { b with cachedMaxDists := cached }

/-- `update_anchor_cache_single_threaded`, then `update_cached_max_dist_single_threaded`. -/
def updateCaches (b : MappedCore R) : Option (MappedCore R) :=
  (φ.updateAnchorCacheSingleThreaded b.dbStorage b.cachedVectors).bind fun cached =>
    φ.updateCachedMaxDist { b with cachedVectors := cached }

variable [LinearOrder R] (distFunc : List R → List R → R) (inPageVectorDensity : ℚ)

/-- Case 4 of `insert_a_vector` up to the recursive call: the arguments that it is called
with, after the page has been given the new vector for the victim. -/
def displaceVictim (b : MappedCore R) (newId : UInt64) (newVector : List R)
    (fileIndex pageIndex : Nat) : Option (MappedCore R × UInt64 × List R) := do
  let victimIndex ← φ.findVictimSingleThreaded distFunc b.dbStorage fileIndex pageIndex
  let victimId ← l.getVectorId b.dbStorage.files fileIndex pageIndex victimIndex
  let victim ← φ.bufferVictim b.dbStorage fileIndex pageIndex victimIndex
  let s ← φ.placeNewVectorAt b.dbStorage newId newVector fileIndex pageIndex victimIndex
  let s ← φ.renewMaxDist distFunc s fileIndex pageIndex
  let b ← φ.updateCachedMaxDist { b with dbStorage := s }
  let buffer ← fillDistToAnchorBufferSingleThreaded l distFunc b.cachedVectors b.cachedMaxDists
    victim
  some ({ b with distToAnchorBuffer := buffer }, victimId, victim)

/-- Cases 2 to 8 of `insert_a_vector`, for the entry at the head of the buffer. -/
def insertNear (insertVictim : MappedCore R → UInt64 → List R → Option (MappedCore R))
    (b : MappedCore R) (newId : UInt64) (newVector : List R) (best : IdTaggedDistance R) :
    Option (MappedCore R) := do
  let fileIndex := l.calculateFileIndex b.dbStorage best.second
  let pageIndex := l.calculatePageIndex b.dbStorage best.second
  let nVectors ← l.getNVectorsOf b.dbStorage.files fileIndex pageIndex
  if nVectors = 1 then -- case 2
    let s ← φ.appendNewVector b.dbStorage newId newVector fileIndex pageIndex
    let s ← φ.renewMaxDist distFunc s fileIndex pageIndex
    φ.updateCachedMaxDist { b with dbStorage := s }
  else
    let currentBestDist := best.first
    let maxDist ← φ.getMaxDistAt b.dbStorage fileIndex pageIndex
    let maxNum := maxNumVectors l.maxNumVectorsPerPage inPageVectorDensity
    if currentBestDist < maxDist ∧ (nVectors + 1).toNat ≤ maxNum then -- case 3
      let s ← φ.appendNewVector b.dbStorage newId newVector fileIndex pageIndex
      some { b with dbStorage := s }
    else if currentBestDist < maxDist ∧ (nVectors + 1).toNat > maxNum then -- case 4
      let (b, victimId, victim) ← φ.displaceVictim distFunc b newId newVector fileIndex pageIndex
      insertVictim b victimId victim
    else if currentBestDist ≥ maxDist ∧ b.cachedMaxDists.length < b.dbStorage.nPages then -- case 5
      let emptyPageIdx ← findEmptyPage b.dbStorage.nPages b.cachedMaxDists
      let s ← φ.appendNewVectorAt b.dbStorage newId newVector emptyPageIdx
      φ.updateCaches { b with dbStorage := s }
    else if currentBestDist ≥ maxDist ∧ b.cachedMaxDists.length ≥ b.dbStorage.nPages then -- case 6
      let s ← φ.appendToNewFile b.dbStorage newId newVector
      φ.updateCaches { b with dbStorage := s }
    else if currentBestDist ≥ maxDist ∧ (nVectors + 1).toNat < maxNum then -- case 7
      let s ← φ.appendNewVector b.dbStorage newId newVector fileIndex pageIndex
      let m ← l.updateInPageMaxDist s.files fileIndex pageIndex (φ.bytes currentBestDist)
        l.elementSize
      φ.updateCachedMaxDist { b with dbStorage := { s with files := m } }
    else if currentBestDist ≥ maxDist ∧ (nVectors + 1).toNat ≥ maxNum then -- case 8
      let s ← φ.appendToNewFile b.dbStorage newId newVector
      φ.updateCaches { b with dbStorage := s }
    else none

/-- `execution::storage::insert_a_vector`. -/
def insertAVector : Nat → MappedCore R → UInt64 → List R → Option (MappedCore R)
  | 0, _, _, _ => none
  | fuel + 1, b, newId, newVector =>
    match b.distToAnchorBuffer.head? with
    | none => do -- case 1
      let s ← φ.appendNewVectorAt b.dbStorage newId newVector 0
      φ.updateCaches { b with dbStorage := s }
    | some best => φ.insertNear distFunc inPageVectorDensity (insertAVector fuel) b newId newVector best

end Functions

/-! ## Insertions -/

section Insert

variable [Zero R] [LinearOrder R] {φ : l.NumberFormat R}

/-- The bytes and the flat cache stand for the pages and the anchors. -/
structure HoldsCore (φ : l.NumberFormat R) (c : Core (Span R l.dim) R) (b : MappedCore R) :
    Prop where
  dbStorage : φ.Holds c.dbStorage b.dbStorage
  cachedVectors : b.cachedVectors = (c.cachedVectors.map Span.numbers).flatten
  cachedMaxDists : b.cachedMaxDists = c.cachedMaxDists
  distToAnchorBuffer : b.distToAnchorBuffer = c.distToAnchorBuffer

variable {c c' : Core (Span R l.dim) R} {b : MappedCore R} {s : Storage (Span R l.dim) R}
  {t : MappedStorage}

omit [LinearOrder R] in
theorem HoldsCore.withStorage (h : φ.HoldsCore c b) (ht : φ.Holds s t) :
    φ.HoldsCore { c with dbStorage := s } { b with dbStorage := t } :=
  ⟨ht, h.cachedVectors, h.cachedMaxDists, h.distToAnchorBuffer⟩

omit [LinearOrder R] in
theorem HoldsCore.updateCachedMaxDist (h : φ.HoldsCore c b) (hsize : l.pageSize < 2 ^ 64) :
    Follows φ.HoldsCore c.updateCachedMaxDist (φ.updateCachedMaxDist b) := by
  refine Follows.map (h.dbStorage.updateCachedMaxDist hsize) fun cached _ _ hcached => ?_
  exact ⟨h.dbStorage, h.cachedVectors, hcached.symm, h.distToAnchorBuffer⟩

omit [LinearOrder R] in
theorem HoldsCore.updateCaches (h : φ.HoldsCore c b) (hsize : l.pageSize < 2 ^ 64) :
    Follows φ.HoldsCore c.updateCaches (φ.updateCaches b) := by
  rw [NumberFormat.updateCaches, h.cachedVectors]
  refine Follows.bind (h.dbStorage.updateAnchorCache hsize _) fun cells numbers _ hcells => ?_
  exact HoldsCore.updateCachedMaxDist
    (c := { c with cachedVectors := cells }) (b := { b with cachedVectors := numbers })
    ⟨h.dbStorage, hcells, h.cachedMaxDists, h.distToAnchorBuffer⟩ hsize

/-- The first page has room for a vector that is inserted without a distance buffer. -/
def FirstPageFits (capacity : Nat) (c : Core (Span R l.dim) R) : Prop :=
  c.distToAnchorBuffer = [] → ∀ p ∈ c.dbStorage.pages[0]?, p.nVectors < capacity

section Near

variable {distFunc : List R → List R → R} {density : ℚ} {newId : Nat} {newVector : Span R l.dim}
  {best : IdTaggedDistance R} {p : Page (Span R l.dim) R}
  {insertVictim : Core (Span R l.dim) R → Nat → Span R l.dim → Option (Core (Span R l.dim) R)}
  {insertVictim' : MappedCore R → UInt64 → List R → Option (MappedCore R)}

/-- The recursive call on bytes follows the one on pages. -/
def VictimFollows (φ : l.NumberFormat R)
    (insertVictim : Core (Span R l.dim) R → Nat → Span R l.dim → Option (Core (Span R l.dim) R))
    (insertVictim' : MappedCore R → UInt64 → List R → Option (MappedCore R)) : Prop :=
  ∀ c b id v, φ.HoldsCore c b → c.Sane → c.distToAnchorBuffer ≠ [] →
    Follows φ.HoldsCore (insertVictim c id v) (insertVictim' b (.ofNat id) v.numbers)

/-- After a page has given up its victim, everything is as the insertion of the victim
needs it. -/
theorem displaced_sane (hsane : c.Sane) (hbest : c.distToAnchorBuffer.head? = some best)
    (hp : c.dbStorage.pages[best.second]? = some p) (hne : p.slots ≠ []) (hmany : p.nVectors ≠ 1)
    (hlt : best.first < p.maxDist)
    (hfull : maxNumVectors l.maxNumVectorsPerPage density < p.nVectors + 1)
    {victim : Nat × Span R l.dim}
    (hv : p.slots[p.findVictimSingleThreaded (Span.lift distFunc)]? = some victim)
    (hd : (((c.dbStorage.modifyPageAt best.second (.placeAt newId newVector
        (p.findVictimSingleThreaded (Span.lift distFunc)))).bind fun s =>
      Execution.renewMaxDist (Span.lift distFunc) s best.second).bind fun s =>
      ({ c with dbStorage := s } : Core _ _).updateCachedMaxDist) = some c')
    {buffer : List (IdTaggedDistance R)}
    (hbuffer : Execution.fillDistToAnchorBufferSingleThreaded (Span.lift distFunc)
      c'.cachedVectors c'.cachedMaxDists victim.2 = some buffer) :
    ({ c' with distToAnchorBuffer := buffer } : Core _ _).Sane ∧ buffer ≠ [] := by
  obtain ⟨d, hd', hedit, -⟩ := hsane.renew_updateCachedMaxDist hp
    (.placeAt newId newVector (p.findVictimSingleThreaded (Span.lift distFunc)))
    (Page.anchor_placeAt (findVictim_pos hne) newId newVector p)
  obtain rfl : d = c' := Option.some.inj (hd'.symm.trans hd)
  rw [fillDistToAnchorBuffer_eq (Span.lift distFunc) hedit.coherent] at hbuffer
  obtain rfl := Option.some.inj hbuffer
  have hchange : Change (Span.lift distFunc) (maxNumVectors l.maxNumVectorsPerPage density)
      c.dbStorage.pages c.distToAnchorBuffer newId newVector 0 best.second p _ (some victim) :=
    .evict hbest hmany hlt hfull hv
  let filled := (anchorDistances (Span.lift distFunc) d.dbStorage.pages victim.2).insertionSort
    (· ≤ ·)
  have hedit' : Edited c { d with distToAnchorBuffer := filled } 0 best.second p _ :=
    ⟨hedit.page, hedit.rewritten, hedit.coherent⟩
  refine ⟨hedit'.sane hsane hchange (Or.inr ⟨victim.2, rfl⟩), fun hnil => ?_⟩
  obtain ⟨q, hq, hslots⟩ := hedit'.slots_ne_nil hchange ⟨p, hp, hne⟩
  exact hslots (anchorDistances_eq_nil hnil hq)

omit [Zero R] [LinearOrder R] in
/-- The page that case 5 finds is empty. -/
theorem empty_of_findEmptyPage (hsane : c.Sane)
    (hvacant : c.cachedMaxDists.length < c.dbStorage.nPages) {i : Nat}
    (hi : findEmptyPage c.dbStorage.nPages c.cachedMaxDists = some i)
    (hp : c.dbStorage.pages[i]? = some p) : p.slots = [] := by
  rw [hsane.coherent.maxDists, ← hsane.uniform.length_pages] at hvacant hi
  obtain ⟨j, q, hj, hq, hempty⟩ := findEmptyPage_spec hvacant
  obtain rfl : j = i := Option.some.inj (hj.symm.trans hi)
  obtain rfl : q = p := Option.some.inj (hq.symm.trans hp)
  exact hempty

/-- The page gives up its victim on bytes as it does on pages. -/
theorem displaceVictim_spec (hsize : l.pageSize < 2 ^ 64) (h : φ.HoldsCore c b)
    (hp : c.dbStorage.pageAt? best.second = some p) {victim : Nat × Span R l.dim}
    (hv : p.slots[p.findVictimSingleThreaded (Span.lift distFunc)]? = some victim)
    (hd : (((c.dbStorage.modifyPageAt best.second (.placeAt newId newVector
        (p.findVictimSingleThreaded (Span.lift distFunc)))).bind fun s =>
      Execution.renewMaxDist (Span.lift distFunc) s best.second).bind fun s =>
      ({ c with dbStorage := s } : Core _ _).updateCachedMaxDist) = some c')
    {buffer : List (IdTaggedDistance R)}
    (hbuffer : Execution.fillDistToAnchorBufferSingleThreaded (Span.lift distFunc)
      c'.cachedVectors c'.cachedMaxDists victim.2 = some buffer) :
    ∃ b', φ.displaceVictim distFunc b (.ofNat newId) newVector.numbers
        (l.calculateFileIndex b.dbStorage best.second)
        (l.calculatePageIndex b.dbStorage best.second) =
          some (b', .ofNat victim.1, victim.2.numbers) ∧
      φ.HoldsCore { c' with distToAnchorBuffer := buffer } b' := by
  have hrep := h.dbStorage.pageAt hp
  have hlt := (List.getElem?_eq_some_iff.mp hv).1
  rw [displaceVictim, h.dbStorage.calculateFileIndex_eq, h.dbStorage.calculatePageIndex_eq]
  rw [h.dbStorage.calculateFileIndex_eq, h.dbStorage.calculatePageIndex_eq] at hrep
  have hfind : φ.findVictimSingleThreaded distFunc b.dbStorage _ _ = some _ :=
    findVictimSingleThreaded_eq hrep hsize (h.dbStorage.lt_width hp)
  obtain ⟨s₂, hs₂, hcache⟩ := Option.bind_eq_some_iff.mp hd
  obtain ⟨s₁, hs₁, hrenew⟩ := Option.bind_eq_some_iff.mp hs₂
  obtain ⟨t₁, ht₁, hplace⟩ := h.dbStorage.place
    (fun page hpage => by rwa [← Option.some.inj (hp.symm.trans hpage)]) newId newVector s₁ hs₁
  obtain ⟨t₂, ht₂, hrenewed⟩ := hplace.renewAt hsize distFunc hs₁ best.second s₂ hrenew
  obtain ⟨d, hd', hcached⟩ := (h.withStorage hrenewed).updateCachedMaxDist hsize c' hcache
  obtain ⟨_, hbuffer', rfl⟩ := fillDistToAnchorBuffer_follows distFunc _ _ _ buffer hbuffer
  rw [← hcached.cachedVectors, ← hcached.cachedMaxDists] at hbuffer'
  refine ⟨{ d with distToAnchorBuffer := buffer }, ?_, hcached.dbStorage, hcached.cachedVectors,
    hcached.cachedMaxDists, rfl⟩
  simp only [Option.bind_eq_bind, Option.bind_some, hfind, (hrep.slots _ victim hv).1,
    bufferVictim_eq hrep hv, ht₁, ht₂, hd', hbuffer']

theorem insertNear_follows (hsize : l.pageSize < 2 ^ 64) (hcap : 1 < l.maxNumVectorsPerPage)
    (hdensity : maxNumVectors l.maxNumVectorsPerPage density ≤ l.maxNumVectorsPerPage)
    (h : φ.HoldsCore c b) (hsane : c.Sane) (hbest : c.distToAnchorBuffer.head? = some best)
    (hp : c.dbStorage.pageAt? best.second = some p) (hne : p.slots ≠ [])
    (hrec : VictimFollows φ insertVictim insertVictim') :
    Follows φ.HoldsCore
      (Execution.insertNear (Span.lift distFunc) density insertVictim c newId newVector best p)
      (φ.insertNear distFunc density insertVictim' b (.ofNat newId) newVector.numbers best) := by
  have hrep := h.dbStorage.pageAt hp
  have hn := toNat_nVectors hrep hsize
  have hone : UInt64.ofNat p.nVectors = 1 ↔ p.nVectors = 1 := by
    rw [← UInt64.toNat_inj, hn]
    rfl
  have hsucc : (UInt64.ofNat p.nVectors + 1).toNat = p.nVectors + 1 := toNat_nVectors_add_one hrep hsize
  have hlay : c.dbStorage.maxNumVectorsPerPage = l.maxNumVectorsPerPage :=
    h.dbStorage.simulates.layout.maxNumVectorsPerPage
  have happend (hroom : p.nVectors < l.maxNumVectorsPerPage) :
      Follows φ.Holds (Execution.appendNewVector c.dbStorage newId newVector best.second)
        (φ.appendNewVector b.dbStorage (.ofNat newId) newVector.numbers
          (c.dbStorage.calculateFileIndex best.second)
          (c.dbStorage.calculatePageIndex best.second)) :=
    h.dbStorage.append hsize (fun page hpage => by rwa [← Option.some.inj (hp.symm.trans hpage)])
      newId newVector
  have hcount : b.cachedMaxDists.length = c.cachedMaxDists.length :=
    congrArg List.length h.cachedMaxDists
  have hempty : findEmptyPage c.dbStorage.nPages b.cachedMaxDists =
      findEmptyPage c.dbStorage.nPages c.cachedMaxDists := by
    rw [h.cachedMaxDists]
  simp only [NumberFormat.insertNear, Option.bind_eq_bind, hrep.nVectors, Option.bind_some, hone,
    hsucc, getMaxDistAt_eq hrep, hempty, hcount, h.dbStorage.nPages]
  simp only [Execution.insertNear, hlay, h.dbStorage.calculateFileIndex_eq,
    h.dbStorage.calculatePageIndex_eq]
  by_cases hOne : p.nVectors = 1
  · rw [if_pos hOne, if_pos hOne, Option.bind_assoc]
    refine (happend (hOne ▸ hcap)).bind fun s t hs hst => ?_
    refine (hst.renewAt hsize distFunc hs best.second).bind fun s t _ hst => ?_
    exact (h.withStorage hst).updateCachedMaxDist hsize
  rw [if_neg hOne, if_neg hOne]
  by_cases hInside : best.first < p.maxDist ∧
      p.nVectors + 1 ≤ maxNumVectors l.maxNumVectorsPerPage density
  · rw [if_pos hInside, if_pos hInside, Option.map_eq_bind]
    refine (happend (hInside.2.trans hdensity)).bind fun s t _ hst => ?_
    exact .some (h.withStorage hst)
  rw [if_neg hInside, if_neg hInside]
  by_cases hEvict : best.first < p.maxDist ∧
      p.nVectors + 1 > maxNumVectors l.maxNumVectorsPerPage density
  · rw [if_pos hEvict, if_pos hEvict]
    intro c' hc'
    obtain ⟨victim, hv, hc'⟩ := Option.bind_eq_some_iff.mp hc'
    obtain ⟨d, hd, hc'⟩ := Option.bind_eq_some_iff.mp hc'
    obtain ⟨buffer, hbuffer, hc'⟩ := Option.bind_eq_some_iff.mp hc'
    obtain ⟨hsane', hfilled⟩ := displaced_sane hsane hbest
      ((hsane.uniform.pageAt?_eq _).symm.trans hp) hne hOne hEvict.1 hEvict.2 hv hd hbuffer
    obtain ⟨b', hb', hholds⟩ := displaceVictim_spec hsize h hp hv hd hbuffer
    rw [h.dbStorage.calculateFileIndex_eq, h.dbStorage.calculatePageIndex_eq] at hb'
    rw [hb']
    exact hrec _ b' victim.1 victim.2 hholds hsane' hfilled c' hc'
  rw [if_neg hEvict, if_neg hEvict]
  by_cases hVacant : best.first ≥ p.maxDist ∧ c.cachedMaxDists.length < c.dbStorage.nPages
  · rw [if_pos hVacant, if_pos hVacant]
    refine (Follows.refl _).bind ?_
    rintro emptyPageIdx _ hempty rfl
    refine Follows.bind ?_ fun s t _ hst => (h.withStorage hst).updateCaches hsize
    rw [appendNewVectorAt, h.dbStorage.calculateFileIndex_eq, h.dbStorage.calculatePageIndex_eq]
    refine h.dbStorage.append hsize (fun page hpage => ?_) newId newVector
    have hroom := empty_of_findEmptyPage hsane hVacant.2 hempty
      ((hsane.uniform.pageAt?_eq _).symm.trans hpage)
    rw [Page.nVectors, hroom]
    exact Nat.zero_lt_of_lt hcap
  rw [if_neg hVacant, if_neg hVacant]
  by_cases hGrow : best.first ≥ p.maxDist ∧ c.cachedMaxDists.length ≥ c.dbStorage.nPages
  · rw [if_pos hGrow, if_pos hGrow]
    refine Follows.bind (h.dbStorage.appendToNewFile hsize (Nat.zero_lt_of_lt hcap) newId newVector)
      fun s t _ hst => (h.withStorage hst).updateCaches hsize
  · -- cases 5 and 6 leave nothing for cases 7 and 8
    have hLt : best.first < p.maxDist := by
      by_contra hge
      exact (Nat.lt_or_ge c.cachedMaxDists.length c.dbStorage.nPages).elim
        (fun hlt => hVacant ⟨not_lt.mp hge, hlt⟩) fun hle => hGrow ⟨not_lt.mp hge, hle⟩
    exact ((Nat.lt_or_ge _ _).elim (fun hgt => hEvict ⟨hLt, hgt⟩) fun hle =>
      hInside ⟨hLt, hle⟩).elim

end Near

/-- An insertion into mapped files does what the insertion into pages does: where that
returns, so does the other, no byte outside the mapped pages is touched, and the bytes stand
for the pages afterwards. -/
theorem insertAVector_follows (hsize : l.pageSize < 2 ^ 64) (hcap : 1 < l.maxNumVectorsPerPage)
    {distFunc : List R → List R → R} {density : ℚ}
    (hdensity : maxNumVectors l.maxNumVectorsPerPage density ≤ l.maxNumVectorsPerPage)
    (fuel : Nat) (h : φ.HoldsCore c b) (hsane : c.Sane)
    (hfits : FirstPageFits l.maxNumVectorsPerPage c) (newId : Nat) (newVector : Span R l.dim) :
    Follows φ.HoldsCore
      (Execution.insertAVector (Span.lift distFunc) density fuel c newId newVector)
      (φ.insertAVector distFunc density fuel b (.ofNat newId) newVector.numbers) := by
  induction fuel generalizing c b newId newVector with
  | zero => exact .none
  | succ fuel ih =>
    have hsame : b.distToAnchorBuffer.head? = c.distToAnchorBuffer.head? :=
      congrArg List.head? h.distToAnchorBuffer
    rw [Execution.insertAVector, NumberFormat.insertAVector, hsame]
    cases hhead : c.distToAnchorBuffer.head? with
    | none =>
      refine Follows.bind ?_ fun s t _ hst => (h.withStorage hst).updateCaches hsize
      rw [appendNewVectorAt, h.dbStorage.calculateFileIndex_eq, h.dbStorage.calculatePageIndex_eq]
      refine h.dbStorage.append hsize (fun page hpage => ?_) newId newVector
      exact hfits (List.head?_eq_none_iff.mp hhead) page
        ((hsane.uniform.pageAt?_eq 0).symm.trans hpage)
    | some best =>
      obtain ⟨p, hp, hne⟩ := hsane.buffer best (List.mem_of_mem_head? hhead)
      have hp := (hsane.uniform.pageAt?_eq best.second).trans hp
      simp only [hp, Option.bind_some]
      refine insertNear_follows hsize hcap hdensity h hsane hhead hp hne ?_
      intro c b id v h hsane hfilled
      exact ih h hsane (fun hnil => absurd hnil hfilled) id v

/-! ## Fuel -/

section Fuel

variable {distFunc : List R → List R → R} {density : ℚ}

theorem insertNear_mono
    {insertVictim insertVictim' : MappedCore R → UInt64 → List R → Option (MappedCore R)}
    (h : ∀ b id v, Follows (· = ·) (insertVictim b id v) (insertVictim' b id v))
    (b : MappedCore R) (newId : UInt64) (newVector : List R) (best : IdTaggedDistance R) :
    Follows (· = ·) (φ.insertNear distFunc density insertVictim b newId newVector best)
      (φ.insertNear distFunc density insertVictim' b newId newVector best) := by
  refine (Follows.refl _).bind ?_
  rintro n _ - rfl
  split
  · exact .refl _
  refine (Follows.refl _).bind ?_
  rintro maxDist _ - rfl
  dsimp only
  by_cases hInside : best.first < maxDist ∧
      (n + 1).toNat ≤ maxNumVectors l.maxNumVectorsPerPage density
  · rw [if_pos hInside, if_pos hInside]
    exact .refl _
  rw [if_neg hInside, if_neg hInside]
  by_cases hEvict : best.first < maxDist ∧
      (n + 1).toNat > maxNumVectors l.maxNumVectorsPerPage density
  · rw [if_pos hEvict, if_pos hEvict]
    refine (Follows.refl _).bind ?_
    rintro ⟨b, id, v⟩ _ - rfl
    exact h b id v
  · rw [if_neg hEvict, if_neg hEvict]
    exact .refl _

theorem insertAVector_succ (fuel : Nat) (b : MappedCore R) (newId : UInt64) (newVector : List R) :
    Follows (· = ·) (φ.insertAVector distFunc density fuel b newId newVector)
      (φ.insertAVector distFunc density (fuel + 1) b newId newVector) := by
  induction fuel generalizing b newId newVector with
  | zero => exact .none
  | succ fuel ih =>
    rw [NumberFormat.insertAVector, NumberFormat.insertAVector]
    cases b.distToAnchorBuffer.head? with
    | none => exact .refl _
    | some best => exact insertNear_mono ih b newId newVector best

/-- More fuel changes nothing. -/
theorem insertAVector_mono {fuel fuel' : Nat} (hle : fuel ≤ fuel') {b' : MappedCore R}
    {newId : UInt64} {newVector : List R}
    (h : φ.insertAVector distFunc density fuel b newId newVector = some b') :
    φ.insertAVector distFunc density fuel' b newId newVector = some b' := by
  induction fuel', hle using Nat.le_induction with
  | base => exact h
  | succ fuel' _ ih =>
    obtain ⟨_, hsucc, rfl⟩ := insertAVector_succ fuel' b newId newVector b' ih
    exact hsucc

end Fuel

end Insert

end NumberFormat

end PageLayout

end Spheres
