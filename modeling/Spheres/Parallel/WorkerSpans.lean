import Spheres.Library.Framing
import Spheres.Parallel.BatchPrefill
import Spheres.Parallel.FindKnn
import Spheres.Parallel.FindKnnBatch

/-!
# The spans of the workers

Every worker has a span of the common buffer for its heap, and the accesses to
the span are not checked. With room for all entries that a heap may take, the
tasks neither read nor write what lies behind a span: they commute with putting
anything there (`span` as a frame). The sizes of the spans and the limits of the
heaps are kept in any case.
-/

namespace Spheres.Parallel

open Library Library.BinaryHeap

variable {V R : Type*}

namespace LocalHeap

/-- A heap for up to `k` entries in a span of `size` cells, with something behind. -/
def span (k size : Nat) : Frame (LocalHeap R) (List (IdTaggedDistance R)) where
  keeps h := h.nOutputs ≤ k ∧ h.heap.length = size
  fits := 0 < k ∧ k ≤ size
  extend behind h := ⟨h.heap ++ behind, h.nOutputs⟩

variable {k size : Nat} {h : LocalHeap R}

theorem top_extend (hkeeps : (span k size).keeps h)
    (hfits : (span k size : Frame (LocalHeap R) _).fits) (behind : List (IdTaggedDistance R)) :
    ((span k size).extend behind h).top = h.top := by
  have hne : h.heap ≠ [] := by
    apply List.ne_nil_of_length_pos
    rw [hkeeps.2]
    exact hfits.1.trans_le hfits.2
  show (h.heap ++ behind).head? = h.heap.head?
  rw [List.head?_append_of_ne_nil _ hne]

variable [LinearOrder R]

theorem push_eq_none {e : IdTaggedDistance R} :
    h.push e = none ↔ h.heap.length < h.nOutputs + 1 := by
  simp only [push, List.length_set]
  split <;> simp <;> omega

theorem push_eq_some {e : IdTaggedDistance R} {h' : LocalHeap R} (hrun : h.push e = some h') :
    h'.nOutputs = h.nOutputs + 1 ∧ h'.heap.length = h.heap.length ∧
      h.nOutputs + 1 ≤ h.heap.length := by
  simp only [push] at hrun
  split at hrun
  · rename_i hroom
    obtain rfl := Option.some.inj hrun
    rw [List.length_set] at hroom
    refine ⟨rfl, ?_, hroom⟩
    show (pushHeap _ ++ List.drop _ _).length = _
    rw [List.length_append, (pushHeap_perm _).length_eq, ← List.length_append,
      List.take_append_drop, List.length_set]
  · cases hrun

theorem local_push (hkeeps : (span k size).keeps h) (hlt : h.nOutputs < k)
    (e : IdTaggedDistance R) : (span k size).Local (LocalHeap.push e) h where
  keeps h' hrun := by
    obtain ⟨hn, hlength, -⟩ := push_eq_some hrun
    exact ⟨hn.trans_le hlt, hlength.trans hkeeps.2⟩
  commutes hfits behind := by
    have hroom : h.nOutputs + 1 ≤ h.heap.length := by
      rw [hkeeps.2]
      exact hlt.trans_le hfits.2
    have hset : h.nOutputs + 1 ≤ (h.heap.set h.nOutputs e).length := by
      rwa [List.length_set]
    have hcells : (h.heap ++ behind).set h.nOutputs e = h.heap.set h.nOutputs e ++ behind :=
      List.set_append_left _ _ hroom
    have hlong : h.nOutputs + 1 ≤ (h.heap.set h.nOutputs e ++ behind).length := by
      rw [List.length_append]
      exact hset.trans (Nat.le_add_right _ _)
    simp only [push, span, hcells, if_pos hset, if_pos hlong, Option.map_some,
      List.take_append_of_le_length hset, List.drop_append_of_le_length hset, List.append_assoc]

theorem local_replaceTop (hkeeps : (span k size).keeps h) (hfull : h.nOutputs = k)
    (e : IdTaggedDistance R) : (span k size).Local (LocalHeap.replaceTop k e) h where
  keeps h' hrun := by
    simp only [replaceTop] at hrun
    split at hrun
    · obtain rfl := Option.some.inj hrun
      refine ⟨hkeeps.1, ?_⟩
      show (pushHeap _ ++ List.drop _ _).length = size
      rw [List.length_append, (pushHeap_perm _).length_eq, ← List.length_append,
        List.take_append_drop, List.length_set, List.length_append, (popHeap_perm _).length_eq,
        ← List.length_append, List.take_append_drop, hkeeps.2]
    · cases hrun
  commutes hfits behind := by
    have hroom : k ≤ h.heap.length := hkeeps.2 ▸ hfits.2
    have hk := hfits.1
    have hn : h.nOutputs ≤ h.heap.length := hfull ▸ hroom
    have hpop : (popHeap (h.heap.take h.nOutputs)).length = k := by
      rw [(popHeap_perm _).length_eq, List.length_take, Nat.min_eq_left hn, hfull]
    have hcells : (popHeap ((h.heap ++ behind).take h.nOutputs) ++
        (h.heap ++ behind).drop h.nOutputs).set (k - 1) e =
        (popHeap (h.heap.take h.nOutputs) ++ h.heap.drop h.nOutputs).set (k - 1) e ++ behind := by
      rw [List.take_append_of_le_length hn, List.drop_append_of_le_length hn, ← List.append_assoc]
      apply List.set_append_left
      rw [List.length_append, hpop]
      omega
    have hlength : k ≤ ((popHeap (h.heap.take h.nOutputs) ++ h.heap.drop h.nOutputs).set
        (k - 1) e).length := by
      rw [List.length_set, List.length_append, hpop]
      exact Nat.le_add_right _ _
    have hlong := hlength.trans (Nat.le_add_right _ behind.length)
    rw [← List.length_append] at hlong
    have hn' := hfull.trans_le hlength
    simp only [replaceTop, span, hcells, if_pos hlength, if_pos hlong, Option.map_some,
      List.take_append_of_le_length hn', List.drop_append_of_le_length hn', List.append_assoc]

theorem local_offerFull (hkeeps : (span k size).keeps h) (hfull : h.nOutputs = k)
    (e : IdTaggedDistance R) : (span k size).Local (LocalHeap.offerFull k e) h := by
  apply Frame.local_read LocalHeap.top fun top h =>
    if top.first > e.first then h.replaceTop k e else some h
  · exact fun hfits behind => top_extend hkeeps hfits behind
  · intro top _
    exact Frame.local_ite (fun _ _ => Iff.rfl) (fun _ => local_replaceTop hkeeps hfull e)
      fun _ => Frame.local_some hkeeps

end LocalHeap

variable [LinearOrder R] {size : Nat}

/-! ## Queries -/

namespace Search

open LocalHeap

variable {S : Search V R} {h : LocalHeap R}

theorem local_offer (hkeeps : (span S.k size).keeps h) (e : IdTaggedDistance R) :
    (span S.k size).Local (S.offer e) h :=
  Frame.local_ite (fun _ _ => Iff.rfl) (fun hfull => local_offerFull hkeeps hfull e)
    fun hne => local_push hkeeps (lt_of_le_of_ne hkeeps.1 hne) e

omit [LinearOrder R] in
theorem prunedByTop_extend (hkeeps : (span S.k size).keeps h)
    (hfits : (span S.k size : Frame (LocalHeap R) _).fits) (d max : R)
    (behind : List (IdTaggedDistance R)) :
    S.prunedByTop d max ((span S.k size).extend behind h) = S.prunedByTop d max h := by
  rw [prunedByTop, prunedByTop, top_extend hkeeps hfits]
  rfl

theorem local_visitPage (hkeeps : (span S.k size).keeps h) (query : V) (d : R)
    (pageIdx : Nat) : (span S.k size).Local (S.visitPage query d pageIdx) h := by
  apply Frame.local_read (fun _ => (S.dbStorage.getArrayViewOfPage pageIdx).head?) _
    (fun _ _ => rfl)
  intro slot _
  have hanchor : (span S.k size).Local (fun h => if h.nOutputs < S.k then
      h.push ⟨d, slot.1⟩ else h.offerFull S.k ⟨d, slot.1⟩) h :=
    Frame.local_ite (fun _ _ => Iff.rfl) (fun hlt => local_push hkeeps hlt _)
      fun hge => local_offerFull hkeeps (le_antisymm hkeeps.1 (Nat.le_of_not_lt hge)) _
  exact hanchor.bind fun h' hrun =>
    Frame.local_foldlM (fun h hkeeps slot => local_offer hkeeps _) (hanchor.keeps h' hrun)

end Search

namespace FindKnn

variable {T : FindKnn V R}

/-- The state of a worker whose heap is in a span. -/
def span (k size : Nat) : Frame (KnnWork R) (List (IdTaggedDistance R)) where
  keeps w := (LocalHeap.span k size).keeps w.heap
  fits := 0 < k ∧ k ≤ size
  extend behind w := { w with heap := (LocalHeap.span k size).extend behind w.heap }

theorem local_scanPage (b : WithTop R) {w : KnnWork R}
    (hkeeps : (span T.k size).keeps w) (current : Nat) :
    (span T.k size).Local (T.scanPage b · current) w := by
  apply Frame.local_read (fun _ => T.distToAnchor[current]?) _ (fun _ _ => rfl)
  intro e _
  apply Frame.local_read (fun _ => T.dbStorage.pageAt? e.second) _ (fun _ _ => rfl)
  intro p _
  have hskip : (span T.k size).Local (fun w : KnnWork R =>
      some { w with nPruned := w.nPruned + 1 }) w :=
    ⟨fun w' hw' => Option.some.inj hw' ▸ hkeeps, fun _ _ => rfl⟩
  apply Frame.local_ite (fun _ _ => Iff.rfl) (fun _ => hskip)
  intro _
  apply Frame.local_read (fun w : KnnWork R => T.prunedByTop e.first p.maxDist w.heap) _
    (fun hfits behind => Search.prunedByTop_extend hkeeps hfits _ _ behind)
  intro pruned _
  apply Frame.local_ite (fun _ _ => Iff.rfl) (fun _ => hskip)
  intro _
  have hvisit := Search.local_visitPage hkeeps T.query e.first e.second
  constructor
  · intro w' hw'
    obtain ⟨h, hrun, rfl⟩ := Option.map_eq_some_iff.mp hw'
    exact hvisit.keeps h hrun
  · intro hfits behind
    show (T.visitPage T.query e.first e.second
      ((LocalHeap.span T.k size).extend behind w.heap)).map _ = _
    rw [hvisit.commutes hfits behind, Option.map_map, Option.map_map]
    rfl

theorem framed : T.findKnnWorker.Framed (span T.k size) where
  scan b lo hi w hkeeps := Frame.local_foldlM (fun _ hkeeps i => local_scanPage b hkeeps i) hkeeps
  top w hkeeps hfits behind := by
    show ((LocalHeap.span T.k size).extend behind w.heap).top.map _ = _
    rw [LocalHeap.top_extend hkeeps hfits behind]
    rfl
  retire _ _ := rfl

end FindKnn

namespace FindKnnBatch

variable {T : FindKnnBatch V R}

/-- The cells of a span. -/
def span (k size : Nat) : Frame (List (IdTaggedDistance R)) (List (IdTaggedDistance R)) where
  keeps cells := cells.length = size
  fits := 0 < k ∧ k ≤ size
  extend behind cells := cells ++ behind

theorem local_probePage (query : V) {h : LocalHeap R}
    (hkeeps : (LocalHeap.span T.k size).keeps h) (e : IdTaggedDistance R) :
    (LocalHeap.span T.k size).Local (T.probePage query · e) h := by
  apply Frame.local_read (fun _ => T.dbStorage.pageAt? e.second) _ (fun _ _ => rfl)
  intro p _
  apply Frame.local_read (fun h : LocalHeap R => T.prunedByTop e.first p.maxDist h) _
    (fun hfits behind => Search.prunedByTop_extend hkeeps hfits _ _ behind)
  intro pruned _
  exact Frame.local_ite (fun _ _ => Iff.rfl) (fun _ => Frame.local_some hkeeps)
    fun _ => Search.local_visitPage hkeeps query e.first e.second

/-- The heap of one query. -/
theorem local_answerQuery (query : V) {h : LocalHeap R}
    (hkeeps : (LocalHeap.span T.k size).keeps h) :
    (LocalHeap.span T.k size).Local (fun h => (T.probedEntries query).bind fun entries =>
      entries.foldlM (T.probePage query) h) h :=
  Frame.local_read (fun _ => T.probedEntries query) _ (fun _ _ => rfl) fun _ _ =>
    Frame.local_foldlM (fun _ hkeeps e => local_probePage query hkeeps e) hkeeps

theorem length_answerQuery {query : V} {cells : List (IdTaggedDistance R)}
    {h : LocalHeap R} (hrun : T.answerQuery query cells = some h) :
    h.heap.length = cells.length := by
  rw [answerQuery_eq] at hrun
  have hkeeps : (LocalHeap.span T.k cells.length).keeps (⟨cells, 0⟩ : LocalHeap R) :=
    ⟨Nat.zero_le _, rfl⟩
  exact ((local_answerQuery query hkeeps).keeps h hrun).2

/-- The copy of `k` cells leaves a span that has fewer, whatever the query finds. -/
theorem row_eq_none {cells : List (IdTaggedDistance R)} (hshort : cells.length < T.k) (i : Nat) :
    T.findKnnBatchWorker.row i cells = none := by
  apply Option.eq_none_iff_forall_ne_some.mpr
  intro r hrow
  obtain ⟨query, -, hrow⟩ := Option.bind_eq_some_iff.mp hrow
  obtain ⟨h, hrun, hrow⟩ := Option.bind_eq_some_iff.mp hrow
  rw [length_answerQuery hrun, if_neg hshort.not_ge] at hrow
  cases hrow

theorem framed : T.findKnnBatchWorker.Framed (span T.k size) where
  keeps i cells r hkeeps hrow := by
    obtain ⟨query, -, hrow⟩ := Option.bind_eq_some_iff.mp hrow
    obtain ⟨h, hrun, hrow⟩ := Option.bind_eq_some_iff.mp hrow
    split at hrow
    · cases hrow
      exact (length_answerQuery hrun).trans hkeeps
    · cases hrow
  commutes hfits i cells behind hkeeps := by
    show ((T.queries[i]?).bind fun query => _) = Option.map _ ((T.queries[i]?).bind fun query => _)
    cases T.queries[i]? with
    | none => rfl
    | some query =>
      have hcells : (LocalHeap.span T.k size).keeps (⟨cells, 0⟩ : LocalHeap R) :=
        ⟨Nat.zero_le _, hkeeps⟩
      have hlocal := (local_answerQuery (T := T) query hcells).commutes hfits behind
      have hanswer : T.answerQuery query (cells ++ behind) =
          (T.answerQuery query cells).map ((LocalHeap.span T.k size).extend behind) := by
        rw [answerQuery_eq, answerQuery_eq]
        exact hlocal
      simp only [Option.bind_some, span, hanswer]
      cases hrun : T.answerQuery query cells with
      | none => rfl
      | some h =>
        have hroom : T.k ≤ h.heap.length := by
          rw [length_answerQuery hrun, hkeeps]
          exact hfits.2
        have hlong : T.k ≤ (h.heap ++ behind).length := by
          rw [List.length_append]
          exact hroom.trans (Nat.le_add_right _ _)
        simp only [Option.map_some, Option.bind_some, LocalHeap.span, if_pos hroom, if_pos hlong,
          List.take_append_of_le_length hroom]
        rfl

end FindKnnBatch

/-! ## Bulk loads -/

namespace BatchPrefill

open LocalHeap

variable {T : BatchPrefill V R}

theorem local_scanVector (anchor : V) (b : WithTop R)
    {h : LocalHeap R} (hkeeps : (span T.maxNumVectorsInPage size).keeps h) (current : Nat) :
    (span T.maxNumVectorsInPage size).Local (T.scanVector anchor b · current) h := by
  apply Frame.local_read (fun _ => T.vectors[current]?) _ (fun _ _ => rfl)
  intro v _
  apply Frame.local_ite (fun _ _ => Iff.rfl) (fun _ => Frame.local_some hkeeps)
  intro _
  exact Frame.local_ite (fun _ _ => Iff.rfl) (fun hlt => local_push hkeeps hlt _)
    fun hge => local_offerFull hkeeps (le_antisymm hkeeps.1 (Nat.le_of_not_lt hge)) _

theorem framed :
    T.batchPrefillWorker.Framed (span T.maxNumVectorsInPage size) where
  scan b lo hi h hkeeps := Frame.local_read (fun _ => T.vectors[0]?) _ (fun _ _ => rfl)
    fun anchor _ => Frame.local_foldlM
      (fun _ hkeeps i => local_scanVector anchor b hkeeps i) hkeeps
  top h hkeeps hfits behind := by
    show ((span T.maxNumVectorsInPage size).extend behind h).top.map _ = _
    rw [top_extend hkeeps hfits behind]
    rfl
  retire _ _ := rfl

/-- Without a cut-off a morsel fills the heap until it is full, so a worker leaves its
span as soon as the morsel has more vectors than there are free cells. -/
theorem foldlM_fills (anchor : V) {lo n : Nat} {h : LocalHeap R}
    (hroom : h.nOutputs ≤ h.heap.length) (hmax : h.nOutputs + n ≤ T.maxNumVectorsInPage)
    (hhi : lo + n ≤ T.vectors.length) :
    (List.range' lo n).foldlM (T.scanVector anchor ⊤) h = none ↔
      h.heap.length < h.nOutputs + n := by
  induction n generalizing lo h with
  | zero =>
    refine iff_of_false nofun ?_
    omega
  | succ n ih =>
    obtain ⟨v, hv⟩ : ∃ v, T.vectors[lo]? = some v := ⟨_, List.getElem?_eq_getElem (by omega)⟩
    have hscan : T.scanVector anchor ⊤ h lo = h.push ⟨T.distFunc v anchor, lo⟩ := by
      have hlt : h.nOutputs < T.maxNumVectorsInPage := by omega
      simp only [scanVector, hv, Option.bind_some, if_neg not_top_lt, if_pos hlt]
    rw [List.range'_succ, List.foldlM_cons, hscan]
    cases hpush : h.push ⟨T.distFunc v anchor, lo⟩ with
    | none =>
      refine iff_of_true rfl ?_
      have := LocalHeap.push_eq_none.mp hpush
      omega
    | some h' =>
      obtain ⟨hn, hlength, hfree⟩ := LocalHeap.push_eq_some hpush
      refine (ih (by omega) (by omega) (by omega)).trans ?_
      rw [hn, hlength]
      omega

/-- The first morsel of a task, in a span of any size. -/
theorem first_morsel_fits (hstep : 0 < T.morselStep) (hmax : T.morselStep ≤ T.maxNumVectorsInPage)
    (hmany : T.morselStep ≤ T.vectors.length) (hlimit : T.maxMorsel = T.vectors.length)
    (cells : List (IdTaggedDistance R)) :
    ((T.batchPrefillWorker.scan ⊤ 0 (T.batchPrefillWorker.claimEnd 0) ⟨cells, 0⟩).bind
      T.batchPrefillWorker.top).isSome = true ↔ T.morselStep ≤ cells.length := by
  have hend : T.batchPrefillWorker.claimEnd 0 = T.morselStep :=
    Nat.min_eq_right (hmany.trans_eq hlimit.symm)
  obtain ⟨anchor, hanchor⟩ : ∃ anchor, T.vectors[0]? = some anchor :=
    ⟨_, List.getElem?_eq_getElem (hstep.trans_le hmany)⟩
  have hscan : T.batchPrefillWorker.scan ⊤ 0 (T.batchPrefillWorker.claimEnd 0) ⟨cells, 0⟩ =
      (List.range' 0 T.morselStep).foldlM (T.scanVector anchor ⊤) ⟨cells, 0⟩ := by
    rw [hend]
    show ((T.vectors[0]?).bind fun anchor => _) = _
    rw [hanchor, Option.bind_some, Nat.sub_zero]
  have hfills : (List.range' 0 T.morselStep).foldlM (T.scanVector anchor ⊤) ⟨cells, 0⟩ = none ↔
      cells.length < 0 + T.morselStep :=
    foldlM_fills anchor (Nat.zero_le _) (by rwa [Nat.zero_add]) (by rwa [Nat.zero_add])
  rw [Nat.zero_add] at hfills
  cases hrun : T.batchPrefillWorker.scan ⊤ 0 (T.batchPrefillWorker.claimEnd 0) ⟨cells, 0⟩ with
  | none =>
    refine iff_of_false nofun ?_
    exact (hfills.mp (hscan.symm.trans hrun)).not_ge
  | some h =>
    have hroom : T.morselStep ≤ cells.length := by
      by_contra hshort
      rw [hscan, hfills.mpr (Nat.lt_of_not_le hshort)] at hrun
      cases hrun
    refine iff_of_true ?_ hroom
    have hkeeps : h.heap.length = cells.length :=
      ((framed.scan ⊤ 0 _ ⟨cells, 0⟩ ⟨Nat.zero_le _, rfl⟩).keeps h hrun).2
    have hne : h.heap ≠ [] := by
      apply List.ne_nil_of_length_pos
      omega
    show (h.heap.head?.map _).isSome = true
    rw [List.head?_eq_some_head hne]
    rfl

end BatchPrefill

end Spheres.Parallel
