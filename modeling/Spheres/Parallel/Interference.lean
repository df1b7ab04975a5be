import Spheres.Library.Lockstep
import Spheres.Parallel.FindKnn
import Spheres.Parallel.FindKnnBatch

/-!
# What the workers make of stale cells

Two heaps with the same live entries may differ in the cells behind them, which
hold what earlier tasks left there. Every operation treats such heaps alike;
only the read of `heap[0]` of an empty heap tells them apart.
-/

namespace Spheres.Parallel

open Library Library.BinaryHeap

variable {V R : Type*}

namespace LocalHeap

/-- The same live entries in buffers of one size. -/
structure SameLive (h h' : LocalHeap R) : Prop where
  nOutputs : h'.nOutputs = h.nOutputs
  live : h'.live = h.live
  length : h'.heap.length = h.heap.length
  room : h.nOutputs ≤ h.heap.length

variable {h h' : LocalHeap R}

theorem sameLive_empty {cells cells' : List (IdTaggedDistance R)}
    (hlength : cells'.length = cells.length) :
    SameLive ⟨cells, 0⟩ (⟨cells', 0⟩ : LocalHeap R) :=
  ⟨rfl, rfl, hlength, Nat.zero_le _⟩

/-- The tops of two such heaps differ only when nothing is live. -/
theorem SameLive.top_eq (hs : SameLive h h') (hpos : 0 < h.nOutputs) : h'.top = h.top := by
  have hhead : ∀ g : LocalHeap R, 0 < g.nOutputs → g.live.head? = g.top := by
    intro g hg
    rw [LocalHeap.live, List.head?_take, if_neg hg.ne', LocalHeap.top]
  rw [← hhead h hpos, ← hhead h' (hs.nOutputs ▸ hpos), hs.live]

/-- Heaps whose first cells are the same list of live entries. -/
theorem sameLive_of_front {front tail tail' : List (IdTaggedDistance R)} {n : Nat}
    (hfront : front.length = n) (htail : tail'.length = tail.length) :
    SameLive ⟨front ++ tail, n⟩ (⟨front ++ tail', n⟩ : LocalHeap R) where
  nOutputs := rfl
  live := by rw [LocalHeap.live, LocalHeap.live, List.take_left' hfront, List.take_left' hfront]
  length := by rw [List.length_append, List.length_append, htail]
  room := by
    rw [List.length_append, hfront]
    exact Nat.le_add_right _ _

variable [LinearOrder R]

theorem SameLive.push (hs : SameLive h h') (e : IdTaggedDistance R) :
    Option.Rel SameLive (h.push e) (h'.push e) := by
  have htake : ∀ g : LocalHeap R, (g.heap.set g.nOutputs e).take (g.nOutputs + 1) =
      g.live ++ (if g.nOutputs < g.heap.length then [e] else []) := by
    intro g
    rw [List.take_add_one, List.take_set, LocalHeap.live]
    by_cases hlt : g.nOutputs < g.heap.length
    · rw [if_pos hlt, List.getElem?_set_self hlt, Option.toList_some,
        List.set_eq_of_length_le (by rw [List.length_take]; omega)]
    · rw [if_neg hlt, List.getElem?_eq_none (by rw [List.length_set]; omega), Option.toList_none,
        List.set_eq_of_length_le (by rw [List.length_take]; omega)]
  have htake' := htake h'
  rw [hs.nOutputs, hs.length, hs.live] at htake'
  simp only [LocalHeap.push, htake h, List.length_set, hs.nOutputs, hs.length, htake']
  by_cases hlt : h.nOutputs + 1 ≤ h.heap.length
  · rw [if_pos hlt, if_pos hlt, if_pos (Nat.lt_of_succ_le hlt)]
    refine .some (sameLive_of_front ?_ ?_)
    · rw [(pushHeap_perm _).length_eq, List.length_append, LocalHeap.live, List.length_take,
        List.length_singleton]
      omega
    · rw [List.length_drop, List.length_drop, List.length_set, List.length_set, hs.length]
  · rw [if_neg hlt, if_neg hlt]
    exact .none

theorem SameLive.replaceTop (hs : SameLive h h') (k : Nat) (e : IdTaggedDistance R) :
    Option.Rel SameLive (h.replaceTop k e) (h'.replaceTop k e) := by
  have hpop : ∀ g : LocalHeap R, g.nOutputs ≤ g.heap.length →
      (popHeap (g.heap.take g.nOutputs)).length = g.nOutputs := by
    intro g hg
    rw [(popHeap_perm _).length_eq, List.length_take, Nat.min_eq_left hg]
  have htake : ∀ g : LocalHeap R, g.nOutputs ≤ g.heap.length →
      ((popHeap (g.heap.take g.nOutputs) ++ g.heap.drop g.nOutputs).set (k - 1) e).take
        g.nOutputs = (popHeap g.live).set (k - 1) e := by
    intro g hg
    rw [List.take_set, List.take_left' (hpop g hg), LocalHeap.live]
  have hlen : ∀ g : LocalHeap R, g.nOutputs ≤ g.heap.length →
      ((popHeap (g.heap.take g.nOutputs) ++ g.heap.drop g.nOutputs).set (k - 1) e).length =
        g.heap.length := by
    intro g hg
    rw [List.length_set, List.length_append, hpop g hg, List.length_drop]
    omega
  have hroom' : h'.nOutputs ≤ h'.heap.length := by
    rw [hs.nOutputs, hs.length]
    exact hs.room
  simp only [LocalHeap.replaceTop, htake h hs.room, htake h' hroom', hlen h hs.room, hlen h' hroom',
    hs.length, hs.live]
  by_cases hk : k ≤ h.heap.length
  · rw [if_pos hk, if_pos hk]
    have hfront : (pushHeap ((popHeap h.live).set (k - 1) e)).length = h.nOutputs := by
      rw [(pushHeap_perm _).length_eq, List.length_set, LocalHeap.live, hpop h hs.room]
    refine .some ?_
    rw [hs.nOutputs]
    refine sameLive_of_front hfront ?_
    rw [List.length_drop, List.length_drop, hlen h hs.room]
    have hlen' := hlen h' hroom'
    rw [hs.nOutputs] at hlen'
    rw [hlen', hs.length]
  · rw [if_neg hk, if_neg hk]
    exact .none

theorem SameLive.offerFull (hs : SameLive h h') (hpos : 0 < h.nOutputs) (k : Nat)
    (e : IdTaggedDistance R) : Option.Rel SameLive (h.offerFull k e) (h'.offerFull k e) := by
  rw [LocalHeap.offerFull, LocalHeap.offerFull, hs.top_eq hpos]
  refine rel_bind (rel_self fun _ _ => rfl) fun top top' htop => ?_
  subst htop
  split
  · exact hs.replaceTop k e
  · exact .some hs

end LocalHeap

namespace Search

variable [LinearOrder R] {S : Search V R} {h h' : LocalHeap R}

theorem offer_sameLive (hk : 0 < S.k) (hs : h.SameLive h') (e : IdTaggedDistance R) :
    Option.Rel LocalHeap.SameLive (S.offer e h) (S.offer e h') := by
  rw [offer, offer, hs.nOutputs]
  split
  · exact hs.offerFull (by omega) _ e
  · exact hs.push e

omit [LinearOrder R] in
theorem prunedByTop_eq (hk : 0 < S.k) (hs : h.SameLive h') (d max : R) :
    S.prunedByTop d max h' = S.prunedByTop d max h := by
  rw [prunedByTop, prunedByTop, hs.nOutputs]
  split
  · rfl
  · rw [hs.top_eq (by omega)]

theorem visitPage_sameLive (hk : 0 < S.k) (query : V) (d : R) (pageIdx : Nat)
    (hs : h.SameLive h') :
    Option.Rel LocalHeap.SameLive (S.visitPage query d pageIdx h)
      (S.visitPage query d pageIdx h') := by
  refine rel_bind (rel_self fun _ _ => rfl) fun slot slot' hslot => ?_
  subst hslot
  have hanchor : Option.Rel LocalHeap.SameLive
      (if h.nOutputs < S.k then h.push ⟨d, slot.1⟩ else h.offerFull S.k ⟨d, slot.1⟩)
      (if h'.nOutputs < S.k then h'.push ⟨d, slot.1⟩ else h'.offerFull S.k ⟨d, slot.1⟩) := by
    rw [hs.nOutputs]
    split
    · exact hs.push _
    · exact hs.offerFull (by omega) _ _
  exact rel_bind hanchor fun g g' hg =>
    rel_foldlM (fun a a' slot ha => offer_sameLive hk ha ⟨S.distFunc slot.2 query, slot.1⟩) _ hg

end Search

namespace FindKnn

variable [LinearOrder R] {T : FindKnn V R}

/-- Two workers of a `FindKnn` task with the same live entries. -/
def SameWork (w w' : KnnWork R) : Prop := w.heap.SameLive w'.heap

theorem scanPage_sameWork (hk : 0 < T.k) (b : WithTop R) (w w' : KnnWork R) (current : Nat)
    (h : SameWork w w') :
    Option.Rel SameWork (T.scanPage b w current) (T.scanPage b w' current) := by
  refine rel_bind (rel_self fun _ _ => rfl) fun e e' he => ?_
  subst he
  refine rel_bind (rel_self fun _ _ => rfl) fun p p' hp => ?_
  subst hp
  split
  · exact .some h
  · rw [Search.prunedByTop_eq hk h]
    refine rel_bind (rel_self fun _ _ => rfl) fun b b' hb => ?_
    subst hb
    split
    · exact .some h
    · exact rel_map (Search.visitPage_sameLive hk _ _ _ h) fun g g' hg => hg

/-- The workers of the task depend on live entries only, except where an empty
heap is compared with the bound. -/
theorem agrees (hk : 0 < T.k) :
    T.findKnnWorker.Agrees SameWork fun w => 0 < w.heap.nOutputs where
  scan b lo hi w w' h := rel_foldlM (fun a a' i ha => scanPage_sameWork hk b a a' i ha) _ h
  top w w' h hpos := by
    simp only [findKnnWorker]
    rw [h.top_eq hpos]

end FindKnn

namespace FindKnnBatch

variable [LinearOrder R] {T : FindKnnBatch V R}

theorem answerQuery_sameLive (hk : 0 < T.k) (query : V)
    {cells cells' : List (IdTaggedDistance R)} (hlength : cells'.length = cells.length) :
    Option.Rel LocalHeap.SameLive (T.answerQuery query cells) (T.answerQuery query cells') := by
  refine rel_bind (rel_self fun _ _ => rfl) fun buffer buffer' hbuffer => ?_
  subst hbuffer
  refine rel_foldlM (fun h h' e hs => ?_) _ (LocalHeap.sameLive_empty hlength)
  refine rel_bind (rel_self fun _ _ => rfl) fun p p' hp => ?_
  subst hp
  rw [Search.prunedByTop_eq hk hs]
  refine rel_bind (rel_self fun _ _ => rfl) fun b b' hb => ?_
  subst hb
  split
  · exact .some hs
  · exact Search.visitPage_sameLive hk _ _ _ hs

end FindKnnBatch

end Spheres.Parallel
