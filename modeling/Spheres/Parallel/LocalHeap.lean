import Spheres.Definitions
import Spheres.Library.BinaryHeap
import Spheres.Library.Selection

/-!
# The heap of one worker

A worker keeps its best candidates as a heap in the first `n_outputs` cells of
its thread-local buffer. The cells behind them hold what earlier tasks left
there. `Valid` is what every operation keeps, and the operations are specified
by the multiset of live entries: `Valid.push_covers` and `Valid.offerFull_covers`
say that the live entries go on covering the entries seen so far.
-/

namespace Spheres.Parallel

open Library.BinaryHeap Library.Selection

/-- The span of the thread-local buffer and the number of live entries. -/
structure LocalHeap (R : Type*) where
  heap : List (IdTaggedDistance R)
  nOutputs : Nat
  deriving DecidableEq

namespace LocalHeap

variable {R : Type*}

def live (h : LocalHeap R) : List (IdTaggedDistance R) := h.heap.take h.nOutputs

/-- The first `k` cells of a heap with `k` entries are its entries. -/
theorem take_eq_live {h : LocalHeap R} {k : Nat} (hfull : h.nOutputs = k) :
    h.heap.take k = h.live := by
  rw [live, hfull]

/-- `heap[0]`, also when nothing is live. -/
def top (h : LocalHeap R) : Option (IdTaggedDistance R) := h.heap.head?

variable [LinearOrder R]

/-- `heap[n_outputs++] = e`, then `push_heap`. -/
def push (e : IdTaggedDistance R) (h : LocalHeap R) : Option (LocalHeap R) :=
  let cells := h.heap.set h.nOutputs e
  let n := h.nOutputs + 1
  if n ≤ cells.length then some ⟨pushHeap (cells.take n) ++ cells.drop n, n⟩ else none

/-- `pop_heap`, `heap[k - 1] = e`, `push_heap`. -/
def replaceTop (k : Nat) (e : IdTaggedDistance R) (h : LocalHeap R) : Option (LocalHeap R) :=
  let cells := (popHeap (h.heap.take h.nOutputs) ++ h.heap.drop h.nOutputs).set (k - 1) e
  if k ≤ cells.length then
    some { h with heap := pushHeap (cells.take h.nOutputs) ++ cells.drop h.nOutputs }
  else none

/-- Replace the top by a nearer entry, when the heap holds `k` of them. -/
def offerFull (k : Nat) (e : IdTaggedDistance R) (h : LocalHeap R) : Option (LocalHeap R) :=
  h.top.bind fun top => if top.first > e.first then h.replaceTop k e else some h

/-! ## The cells of the buffer -/

theorem mem_cells {cells : List (IdTaggedDistance R)} {n : Nat} {x : IdTaggedDistance R}
    (hx : x ∈ pushHeap (cells.take n) ++ cells.drop n) : x ∈ cells := by
  rw [← List.take_append_drop n cells]
  exact ((pushHeap_perm _).append_right _).mem_iff.mp hx

theorem mem_push {e : IdTaggedDistance R} {h h' : LocalHeap R} (hrun : h.push e = some h') :
    ∀ x ∈ h'.heap, x = e ∨ x ∈ h.heap := by
  intro x hx
  simp only [push] at hrun
  split at hrun
  · obtain rfl := Option.some.inj hrun
    exact (List.mem_or_eq_of_mem_set (mem_cells hx)).symm
  · cases hrun

theorem mem_replaceTop {k : Nat} {e : IdTaggedDistance R} {h h' : LocalHeap R}
    (hrun : h.replaceTop k e = some h') : ∀ x ∈ h'.heap, x = e ∨ x ∈ h.heap := by
  intro x hx
  simp only [replaceTop] at hrun
  split at hrun
  · obtain rfl := Option.some.inj hrun
    refine (List.mem_or_eq_of_mem_set (mem_cells hx)).symm.imp_right fun hx => ?_
    rw [← List.take_append_drop h.nOutputs h.heap]
    exact ((popHeap_perm _).append_right _).mem_iff.mp hx
  · cases hrun

/-- No operation writes anything but the new entry. -/
theorem mem_offerFull {k : Nat} {e : IdTaggedDistance R} {h h' : LocalHeap R}
    (hrun : h.offerFull k e = some h') : ∀ x ∈ h'.heap, x = e ∨ x ∈ h.heap := by
  obtain ⟨top, -, hrun⟩ := Option.bind_eq_some_iff.mp hrun
  split at hrun
  · exact mem_replaceTop hrun
  · obtain rfl := Option.some.inj hrun
    exact fun x hx => Or.inr hx

/-- The live entries form a heap of at most `k` entries in a buffer with room
for `k`. -/
structure Valid (k bufferSize : Nat) (h : LocalHeap R) : Prop where
  isHeap : IsHeap h.live
  le : h.nOutputs ≤ k
  length : h.heap.length = bufferSize
  room : k ≤ bufferSize

variable {k bufferSize : Nat} {h : LocalHeap R}

theorem Valid.length_live (hv : h.Valid k bufferSize) : h.live.length = h.nOutputs := by
  rw [live, List.length_take, hv.length]
  exact Nat.min_eq_left (hv.le.trans hv.room)

theorem Valid.exists_top (hv : h.Valid k bufferSize) (hk : 0 < k) : ∃ e, h.top = some e := by
  have hne : h.heap ≠ [] := by
    intro hnil
    have hlen := hv.length
    rw [hnil, List.length_nil] at hlen
    have := hv.room
    omega
  exact ⟨h.heap.head hne, List.head?_eq_some_head hne⟩

/-- A heap with a live entry has its largest one at the top. -/
theorem Valid.top_live (hv : h.Valid k bufferSize) (hn : 0 < h.nOutputs) :
    ∃ top rest, h.top = some top ∧ h.live = top :: rest ∧ ∀ z ∈ h.live, z ≤ top := by
  have hlen := hv.length_live
  cases hlive : h.live with
  | nil =>
    rw [hlive, List.length_nil] at hlen
    omega
  | cons top rest =>
    refine ⟨top, rest, ?_, rfl, IsHeap.le_head (hlive ▸ hv.isHeap)⟩
    have hhead : h.live.head? = some top := by rw [hlive, List.head?_cons]
    rw [live, List.head?_take, if_neg hn.ne'] at hhead
    exact hhead

theorem valid_empty {cells : List (IdTaggedDistance R)} (hroom : k ≤ cells.length) :
    (⟨cells, 0⟩ : LocalHeap R).Valid k cells.length :=
  ⟨isHeap_nil, Nat.zero_le _, rfl, hroom⟩

/-- Adding an entry to a heap that is not full. -/
theorem Valid.push (hv : h.Valid k bufferSize) (hlt : h.nOutputs < k) (e : IdTaggedDistance R) :
    ∃ h', h.push e = some h' ∧ h'.Valid k bufferSize ∧ h'.nOutputs = h.nOutputs + 1 ∧
      (h'.live : Multiset (IdTaggedDistance R)) = e ::ₘ h.live := by
  have hroom : h.nOutputs < h.heap.length := hv.length ▸ hlt.trans_le hv.room
  have htake : (h.heap.set h.nOutputs e).take (h.nOutputs + 1) = h.live ++ [e] := by
    rw [List.take_set, List.take_add_one, List.getElem?_eq_getElem hroom, Option.toList_some,
      List.set_append_right _ _ (by rw [List.length_take]; omega), live]
    have hzero : h.nOutputs - (h.heap.take h.nOutputs).length = 0 := by
      rw [List.length_take]
      omega
    rw [hzero, List.set_cons_zero]
  have hlen : (pushHeap (h.live ++ [e])).length = h.nOutputs + 1 := by
    rw [(pushHeap_perm _).length_eq, List.length_append, hv.length_live, List.length_singleton]
  have hlive : (pushHeap (h.live ++ [e]) ++
      (h.heap.set h.nOutputs e).drop (h.nOutputs + 1)).take (h.nOutputs + 1) =
        pushHeap (h.live ++ [e]) := List.take_left' hlen
  refine ⟨⟨pushHeap (h.live ++ [e]) ++ (h.heap.set h.nOutputs e).drop (h.nOutputs + 1),
    h.nOutputs + 1⟩, ?_, ⟨?_, hlt, ?_, hv.room⟩, rfl, ?_⟩
  · simp only [LocalHeap.push, htake, List.length_set]
    rw [if_pos (Nat.succ_le_of_lt hroom)]
  · rw [live, hlive]
    exact isHeap_pushHeap hv.isHeap
  · rw [List.length_append, hlen, List.length_drop, List.length_set, hv.length]
    have := hv.length
    omega
  · rw [live, hlive, Multiset.coe_eq_coe.mpr (pushHeap_perm _), ← Multiset.coe_add, add_comm,
      Multiset.coe_singleton, Multiset.singleton_add]

/-- Replacing the top of a full heap. -/
theorem Valid.replaceTop (hv : h.Valid k bufferSize) (hk : 0 < k) (hfull : h.nOutputs = k)
    (e : IdTaggedDistance R) {top : IdTaggedDistance R} {rest : List (IdTaggedDistance R)}
    (hlive : h.live = top :: rest) :
    ∃ h', h.replaceTop k e = some h' ∧ h'.Valid k bufferSize ∧ h'.nOutputs = k ∧
      (h'.live : Multiset (IdTaggedDistance R)) = e ::ₘ rest := by
  have hlen : (top :: rest).length = k := by rw [← hlive, hv.length_live, hfull]
  have hrest : k - 1 = rest.length := by rw [← hlen, List.length_cons, Nat.add_sub_cancel]
  have hpop : (popHeap (top :: rest)).length = h.nOutputs := by
    rw [(popHeap_perm _).length_eq, hlen, hfull]
  have hcells : (popHeap (h.heap.take h.nOutputs) ++ h.heap.drop h.nOutputs).set (k - 1) e =
      (popHeap (top :: rest)).set rest.length e ++ h.heap.drop h.nOutputs := by
    rw [← live, hlive, hrest, List.set_append_left _ _ (by omega)]
  have hset : ((popHeap (top :: rest)).set rest.length e).length = h.nOutputs := by
    rw [List.length_set, hpop]
  have hnew : (pushHeap ((popHeap (top :: rest)).set rest.length e)).length = h.nOutputs := by
    rw [(pushHeap_perm _).length_eq, hset]
  have hlive' : (pushHeap ((popHeap (top :: rest)).set rest.length e) ++
      h.heap.drop h.nOutputs).take h.nOutputs =
        pushHeap ((popHeap (top :: rest)).set rest.length e) := List.take_left' hnew
  refine ⟨⟨pushHeap ((popHeap (top :: rest)).set rest.length e) ++ h.heap.drop h.nOutputs,
    h.nOutputs⟩, ?_, ⟨?_, hv.le, ?_, hv.room⟩, hfull, ?_⟩
  · simp only [LocalHeap.replaceTop, hcells]
    rw [if_pos, List.take_left' hset, List.drop_left' hset]
    rw [List.length_append, hset, hfull]
    exact Nat.le_add_right _ _
  · rw [live, hlive']
    exact isHeap_replaceRoot (hlive ▸ hv.isHeap) e
  · rw [List.length_append, hnew, List.length_drop, hv.length]
    have := hv.le.trans hv.room
    omega
  · rw [live, hlive', Multiset.coe_eq_coe.mpr (replaceRoot_perm top e rest), Multiset.cons_coe]

/-! ## Covering what has been seen -/

section Covering

variable {κ : Type*} [LinearOrder κ] {key : IdTaggedDistance R → κ}
  {pruned : IdTaggedDistance R → Prop} {all : Multiset (IdTaggedDistance R)}

theorem Valid.card_live (hv : h.Valid k bufferSize) :
    (h.live : Multiset (IdTaggedDistance R)).card = h.nOutputs := by
  rw [Multiset.coe_card, hv.length_live]

/-- The top of a heap with `k` entries is not below the `k`-th smallest distance. -/
theorem Valid.isKth_le_top (hv : h.Valid k bufferSize) (hk : 0 < k) (hfull : h.nOutputs = k)
    {all : Multiset (IdTaggedDistance R)} (hle : (h.live : Multiset _) ≤ all) {θ r : R}
    (hθ : IsKth IdTaggedDistance.first k all θ) (hr : h.top.map (·.first) = some r) : θ ≤ r := by
  obtain ⟨top, rest, htop, -, hmax⟩ := hv.top_live (hfull ▸ hk)
  obtain rfl : top.first = r := by simpa [htop] using hr
  apply hθ.2
  calc k = (h.live : Multiset (IdTaggedDistance R)).card := by rw [hv.card_live, hfull]
    _ = (h.live : Multiset (IdTaggedDistance R)).countP (fun z => z.first ≤ top.first) := by
        rw [Multiset.countP_eq_card.mpr]
        intro z hz
        exact IdTaggedDistance.first_le_of_le (hmax z (Multiset.mem_coe.mp hz))
    _ ≤ all.countP (fun z => z.first ≤ top.first) := Multiset.countP_le_of_le _ hle

/-- An entry that is put on a heap with room. -/
theorem Valid.push_covers (hv : h.Valid k bufferSize) (hlt : h.nOutputs < k)
    (e : IdTaggedDistance R) (hcov : CoversExcept key pruned k h.live all) :
    ∃ h', h.push e = some h' ∧ h'.Valid k bufferSize ∧ h'.nOutputs = h.nOutputs + 1 ∧
      CoversExcept key pruned k h'.live (e ::ₘ all) := by
  obtain ⟨h', hrun, hv', hn, hlive⟩ := hv.push hlt e
  refine ⟨h', hrun, hv', hn, ?_⟩
  rw [hlive]
  exact hcov.keep e

/-- An entry that is offered to a full heap. Where it is not nearer than the
top, the key must not put it below a live entry at the same distance. -/
theorem Valid.offerFull_covers (hv : h.Valid k bufferSize) (hk : 0 < k) (hfull : h.nOutputs = k)
    (hkey : Monotone key) (e : IdTaggedDistance R)
    (htie : ∀ z ∈ h.live, z.first ≤ e.first → key z ≤ key e)
    (hcov : CoversExcept key pruned k h.live all) :
    ∃ h', h.offerFull k e = some h' ∧ h'.Valid k bufferSize ∧ h'.nOutputs = k ∧
      CoversExcept key pruned k h'.live (e ::ₘ all) := by
  obtain ⟨top, rest, htop, hlive, hmax⟩ := hv.top_live (hfull ▸ hk)
  by_cases hlt : top.first > e.first
  · obtain ⟨h', hrun, hv', hn, hlive'⟩ := hv.replaceTop hk hfull e hlive
    refine ⟨h', by rw [LocalHeap.offerFull, htop, Option.bind_some, if_pos hlt, hrun], hv', hn, ?_⟩
    rw [hlive']
    rw [hlive, ← Multiset.cons_coe] at hcov
    refine hcov.replace ?_ (fun z hz => hkey ?_) (hkey ?_)
    · rw [Multiset.cons_coe, ← hlive, hv.card_live, hfull]
    · exact hmax z (hlive ▸ List.mem_cons_of_mem _ (Multiset.mem_coe.mp hz))
    · exact (IdTaggedDistance.lt_iff.mpr (Or.inl hlt)).le
  · refine ⟨h, by rw [LocalHeap.offerFull, htop, Option.bind_some, if_neg hlt], hv, hfull, ?_⟩
    have hle : ∀ z ∈ h.live, key z ≤ key e := by
      intro z hz
      exact htie z hz ((IdTaggedDistance.first_le_of_le (hmax z hz)).trans (not_lt.mp hlt))
    have hskip := hcov.skip {e} fun y hy => by
      obtain rfl := Multiset.mem_singleton.mp hy
      refine Or.inl ?_
      rw [Multiset.countP_eq_card.mpr fun z hz => hle z (Multiset.mem_coe.mp hz), hv.card_live,
        hfull]
    rwa [Multiset.singleton_add] at hskip

end Covering

end LocalHeap

end Spheres.Parallel
