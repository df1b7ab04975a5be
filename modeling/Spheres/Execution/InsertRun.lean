import Mathlib.Data.Finset.Card
import Mathlib.Data.Finset.Image
import Mathlib.Data.Multiset.Bind
import Spheres.Execution.Insert
import Spheres.Storage.Contents

/-!
# Whole insertions

An eviction replaces the farthest vector of a page by a nearer one. The sum
over all slots of the rank of the distance to the anchor, taken among the
finitely many distances between the vectors at hand, therefore decreases, and
the recursion of `insert_a_vector` ends. `Core.Ready.insert_induction` is the
rule this gives: a property of the pages and of the vector still to be inserted
that every change keeps holds at the end, and the insertion returns.
-/

namespace Spheres.Execution

open Library

variable {V R : Type*}

section Changes

variable [Zero R] [LinearOrder R] {dist : V → V → R} {maxNum : Nat}
  {pages : List (Page V R)} {buffer : List (IdTaggedDistance R)} {newId : Nat} {newVector : V}
  {grown i : Nat} {p : Page V R} {g : Page V R → Page V R} {left : Option (Nat × V)}

/-- A change gives the page the new vector and takes away what is left over. -/
theorem Change.slots (h : Change dist maxNum pages buffer newId newVector grown i p g left) :
    ((g p).slots : Multiset (Nat × V)) + left.toList = p.slots + {(newId, newVector)} := by
  have happend : ((p.append newId newVector).slots : Multiset (Nat × V)) =
      p.slots + {(newId, newVector)} := by
    rw [Page.slots_append, ← Multiset.coe_add, Multiset.coe_singleton]
  cases h with
  | first => simpa using happend
  | second => simpa using happend
  | inside => simpa using happend
  | evict hBuffer hMany hLt hFull hVictim => simpa using coe_set_add hVictim (newId, newVector)
  | vacant => simpa using happend
  | newFile => simpa using happend

/-- No vector is lost and none is duplicated. -/
theorem Change.contents_eq (h : Change dist maxNum pages buffer newId newVector grown i p g left)
    (hp : (pages ++ List.replicate grown Page.zeroed)[i]? = some p) :
    contents ((pages ++ List.replicate grown Page.zeroed).modify i g) +
      (left.toList : Multiset (Nat × V)) = contents pages + {(newId, newVector)} := by
  have hmodify := contents_modify hp g
  rw [contents_append_zeroed] at hmodify
  refine add_right_cancel (b := (p.slots : Multiset (Nat × V))) ?_
  rw [add_right_comm, hmodify, add_assoc, h.slots]
  ac_rfl

/-- Slot 0 of a non-empty page stays. -/
theorem Change.head? (h : Change dist maxNum pages buffer newId newVector grown i p g left)
    (hne : p.slots ≠ []) : (g p).slots.head? = p.slots.head? := by
  cases h with
  | first => exact Page.head?_append hne _ _
  | second => exact Page.head?_append hne _ _
  | inside => exact Page.head?_append hne _ _
  | evict => exact Page.head?_placeAt (findVictim_pos hne) _ _ _
  | vacant => exact Page.head?_append hne _ _
  | newFile => exact Page.head?_append hne _ _

theorem Change.slots_ne_nil (h : Change dist maxNum pages buffer newId newVector grown i p g left) :
    (g p).slots ≠ [] := by
  cases h with
  | evict hBuffer hMany hLt hFull hVictim =>
    intro hnil
    have hset : p.slots.set (p.findVictimSingleThreaded dist) (newId, newVector) = [] := hnil
    rw [List.set_eq_nil_iff] at hset
    simp [hset] at hVictim
  | _ => simp

theorem mem_radii {dist : DistFunc V R} {p : Page V R} {a : V} (ha : p.anchor = some a) {s : Nat × V}
    (hs : s ∈ p.slots) : dist s.2 a ∈ p.radii dist :=
  ⟨a, ha, s, hs, rfl⟩

/-- A radius that is zero or attained stays so. -/
theorem Change.attained {dist : DistFunc V R}
    (h : Change dist maxNum pages buffer newId newVector grown i p g left)
    (hp : p.Attained dist) : (g p).Attained dist := by
  have happend : (p.append newId newVector).Attained dist := by
    rcases hp with h0 | ⟨a, ha, s, hs, hd⟩
    · exact Or.inl h0
    · have hne := List.ne_nil_of_mem hs
      exact Or.inr ⟨a, by rw [Page.anchor_append hne, ha], s, by simp [hs], hd⟩
  have hrenew : ∀ q : Page V R, q.slots ≠ [] → (q.renewMaxDist dist).Attained dist :=
    fun q hq => Or.inr (Page.exactRadius_renewMaxDist q hq).1
  have hne := h.slots_ne_nil
  cases h with
  | first => exact happend
  | second => exact hrenew _ (by simp)
  | inside => exact happend
  | evict => exact hrenew _ hne
  | vacant => exact happend
  | newFile => exact happend

theorem attained_zeroed {dist : DistFunc V R} : (Page.zeroed : Page V R).Attained dist := Or.inl rfl

omit [LinearOrder R] in
/-- What holds of all pages and of empty ones, and of the changed page, holds
of all pages afterwards. -/
theorem forall_modify {Q : Page V R → Prop} (hall : ∀ q ∈ pages, Q q) (hzero : Q .zeroed)
    (hp : (pages ++ List.replicate grown Page.zeroed)[i]? = some p) (hg : Q p → Q (g p)) :
    ∀ q ∈ (pages ++ List.replicate grown Page.zeroed).modify i g, Q q := by
  have hbase : ∀ q ∈ pages ++ List.replicate grown Page.zeroed, Q q := by
    intro q hq
    rcases List.mem_append.mp hq with hq | hq
    · exact hall q hq
    · obtain ⟨-, rfl⟩ := List.mem_replicate.mp hq
      exact hzero
  intro q hq
  rcases ListUpdate.mem_modify hp g hq with hq | rfl
  · exact hbase q hq
  · exact hg (hbase p (List.mem_of_getElem? hp))

end Changes

/-! ## Evictions come to an end -/

section Rank

variable [LinearOrder R] (distances : Finset R)

/-- How many of the distances lie below `d`. -/
def rank (d : R) : Nat := (distances.filter (· < d)).card

theorem rank_lt {d d' : R} (hd : d ∈ distances) (hlt : d < d') :
    rank distances d < rank distances d' := by
  refine Finset.card_lt_card (Finset.ssubset_iff_subset_ne.mpr ⟨?_, fun heq => ?_⟩)
  · intro x hx
    rw [Finset.mem_filter] at hx ⊢
    exact ⟨hx.1, hx.2.trans hlt⟩
  · have hmem : d ∈ distances.filter (· < d') := Finset.mem_filter.mpr ⟨hd, hlt⟩
    rw [← heq] at hmem
    exact lt_irrefl d (Finset.mem_filter.mp hmem).2

variable [Zero R] (dist : DistFunc V R)

/-- The ranks of the distances from all slots of a page to its anchor. -/
def pagePotential (p : Page V R) : Nat :=
  match p.anchor with
  | none => 0
  | some a => (p.slots.map fun s => rank distances (dist s.2 a)).sum

def potential (pages : List (Page V R)) : Nat := (pages.map (pagePotential distances dist)).sum

variable {distances dist}

theorem pagePotential_eq {p : Page V R} {a : V} (ha : p.anchor = some a) :
    pagePotential distances dist p = (p.slots.map fun s => rank distances (dist s.2 a)).sum := by
  simp [pagePotential, ha]

/-- The page whose farthest vector gives way to a nearer one. -/
theorem pagePotential_placeAt {p : Page V R} {a : V} (ha : p.anchor = some a)
    (hAttained : p.Attained dist) {newId : Nat} {newVector : V}
    (hmem : dist newVector a ∈ distances) (hlt : dist newVector a < p.maxDist) :
    pagePotential distances dist
        ((p.placeAt newId newVector (p.findVictimSingleThreaded dist)).renewMaxDist dist) <
      pagePotential distances dist p := by
  have hpos : 0 < p.maxDist := (dist.nonneg _ _).trans_lt hlt
  have hatt := hAttained.resolve_left hpos.ne'
  obtain ⟨victim, hv, hi, hd⟩ := Page.findVictim_spec hpos hatt
  have ha' : ((p.placeAt newId newVector (p.findVictimSingleThreaded dist)).renewMaxDist
      dist).anchor = some a := by
    rw [Page.anchor_renewMaxDist, Page.anchor_placeAt hi, ha]
  have hsum := ListUpdate.sum_map_set (fun s : Nat × V => rank distances (dist s.2 a)) hv
    (newId, newVector)
  have hrank := rank_lt distances hmem (hlt.trans_eq (hd a ha).symm)
  rw [pagePotential_eq ha', pagePotential_eq ha, Page.slots_renewMaxDist, Page.slots_placeAt]
  simp only at hsum
  omega

theorem potential_modify_lt {pages : List (Page V R)} {i : Nat} {p : Page V R}
    (hp : pages[i]? = some p) {g : Page V R → Page V R}
    (hlt : pagePotential distances dist (g p) < pagePotential distances dist p) :
    potential distances dist (pages.modify i g) < potential distances dist pages := by
  have hsum := ListUpdate.sum_map_modify (pagePotential distances dist) hp g
  unfold potential
  omega

end Rank

/-! ## The rule -/

section Rule

variable [Zero R] [LinearOrder R] {dist : DistFunc V R} {c c' : Core V R}

omit [Zero R] in
/-- A filled buffer names non-empty pages. -/
theorem anchorDistances_names (dist : V → V → R) (pages : List (Page V R)) (query : V) :
    ∀ e ∈ (anchorDistances dist pages query).insertionSort (· ≤ ·),
      ∃ p, pages[e.second]? = some p ∧ p.slots ≠ [] := by
  intro e he
  obtain ⟨p, a, hp, ha, -⟩ := mem_perPage.mp ((List.mem_insertionSort _).mp he)
  refine ⟨p, hp, fun hnil => ?_⟩
  rw [anchor_eq_none.mpr hnil] at ha
  cases ha

/-- Its distances are not negative. -/
theorem anchorDistances_valid (pages : List (Page V R)) (query : V) :
    ∀ e ∈ (anchorDistances dist pages query).insertionSort (· ≤ ·),
      0 ≤ e.first ∧ ∃ p, pages[e.second]? = some p ∧ p.slots ≠ [] := by
  intro e he
  obtain ⟨p, a, -, -, hd⟩ := mem_perPage.mp ((List.mem_insertionSort _).mp he)
  exact ⟨hd ▸ dist.nonneg _ _, anchorDistances_names dist pages query e he⟩

section Sane

variable {dist : V → V → R} {maxNum newId grown i : Nat} {newVector : V} {p : Page V R}
  {g : Page V R → Page V R} {left : Option (Nat × V)}

/-- A page that was not empty is not empty after a change. -/
theorem Edited.slots_ne_nil
    (hchange : Change dist maxNum c.dbStorage.pages c.distToAnchorBuffer newId newVector grown i p g
      left)
    (hedit : Edited c c' grown i p g) {j : Nat}
    (h : ∃ q, c.dbStorage.pages[j]? = some q ∧ q.slots ≠ []) :
    ∃ q, c'.dbStorage.pages[j]? = some q ∧ q.slots ≠ [] := by
  obtain ⟨q, hq, hne⟩ := h
  have hq' : (c.dbStorage.pages ++ List.replicate grown Page.zeroed)[j]? = some q := by
    rw [List.getElem?_append_left (List.getElem?_eq_some_iff.mp hq).1, hq]
  rw [hedit.rewritten.pages_eq]
  by_cases hi : i = j
  · subst hi
    exact ⟨g p, ListUpdate.getElem?_modify_self hedit.page g, hchange.slots_ne_nil⟩
  · exact ⟨q, by rw [ListUpdate.getElem?_modify_ne hi, hq'], hne⟩

/-- A change keeps what every database keeps. -/
theorem Edited.sane (h : c.Sane)
    (hchange : Change dist maxNum c.dbStorage.pages c.distToAnchorBuffer newId newVector grown i p g
      left)
    (hedit : Edited c c' grown i p g)
    (hbuf : c'.distToAnchorBuffer = c.distToAnchorBuffer ∨ ∃ w, c'.distToAnchorBuffer =
      (anchorDistances dist c'.dbStorage.pages w).insertionSort (· ≤ ·)) : c'.Sane where
  uniform := hedit.rewritten.uniform
  nonempty := by
    rw [hedit.rewritten.pages_eq]
    intro hnil
    have hlen := congrArg List.length hnil
    rw [List.length_modify, List.length_append] at hlen
    have hpos := List.length_pos_of_ne_nil h.nonempty
    simp only [List.length_nil] at hlen
    omega
  coherent := hedit.coherent
  buffer := by
    intro e he
    rcases hbuf with hbuf | ⟨w, hbuf⟩
    · exact hedit.slots_ne_nil hchange (h.buffer e (hbuf ▸ he))
    · exact anchorDistances_names dist _ w e (hbuf ▸ he)

/-- An insertion that returns keeps what every database keeps, whatever the
distances are. -/
theorem Core.Sane.insertAVector [Inhabited V] (dist : V → V → R) {density : ℚ} {fuel : Nat}
    (h : c.Sane) (hrun : Execution.insertAVector dist density fuel c newId newVector = some c') :
    c'.Sane ∧ c.dbStorage.SameShape c'.dbStorage := by
  induction fuel generalizing c newId newVector with
  | zero => cases hrun
  | succ fuel ih =>
    rcases h.insert dist density newId newVector with
      ⟨grown, i, p, g, left, d, hchange, hedit, hcont⟩ | ⟨_, _, _, _, _, _, hnone⟩
    · cases left with
      | none =>
        obtain ⟨hbuf, hreturn⟩ := hcont
        obtain rfl : d = c' := Option.some.inj ((hreturn fuel).symm.trans hrun)
        exact ⟨hedit.sane h hchange (Or.inl hbuf), hedit.rewritten.shape⟩
      | some victim =>
        obtain ⟨hbuf, hnext⟩ := hcont
        have hsane := hedit.sane h hchange (Or.inr ⟨_, hbuf⟩)
        obtain ⟨hsane', hshape⟩ := ih hsane ((hnext fuel).symm.trans hrun)
        exact ⟨hsane', hedit.rewritten.shape.trans hshape⟩
    · rw [hnone] at hrun
      cases hrun

end Sane

/-- A change leaves everything ready for the next insertion. -/
theorem Edited.ready {maxNum newId grown i : Nat} {newVector : V} {p : Page V R}
    {g : Page V R → Page V R} {left : Option (Nat × V)} (h : c.Ready dist)
    (hchange : Change dist maxNum c.dbStorage.pages c.distToAnchorBuffer newId newVector grown i p g
      left)
    (hedit : Edited c c' grown i p g)
    (hbuf : c'.distToAnchorBuffer = c.distToAnchorBuffer ∨ ∃ w, c'.distToAnchorBuffer =
      (anchorDistances dist c'.dbStorage.pages w).insertionSort (· ≤ ·)) : c'.Ready dist := by
  have hsane := hedit.sane h.sane hchange hbuf
  refine ⟨hsane.uniform, hsane.nonempty, hsane.coherent, ?_, fun e he => ?_⟩
  · rw [hedit.rewritten.pages_eq]
    exact forall_modify h.attained attained_zeroed hedit.page hchange.attained
  · refine ⟨?_, hsane.buffer e he⟩
    rcases hbuf with hbuf | ⟨w, hbuf⟩
    · exact (h.buffer e (hbuf ▸ he)).1
    · exact (anchorDistances_valid _ w e (hbuf ▸ he)).1

/-- All distances from a vector at hand to an anchor are among `distances`. -/
def Spans (dist : V → V → R) (distances : Finset R) (vectors : Multiset (Nat × V)) : Prop :=
  ∀ s ∈ vectors, ∀ a ∈ vectors, dist s.2 a.2 ∈ distances

omit [Zero R] in
theorem exists_spans (dist : V → V → R) (vectors : Multiset (Nat × V)) :
    ∃ distances : Finset R, Spans dist distances vectors := by
  classical
  refine ⟨(vectors.bind fun s => vectors.map fun a => dist s.2 a.2).toFinset, ?_⟩
  intro s hs a ha
  rw [Multiset.mem_toFinset, Multiset.mem_bind]
  exact ⟨s, hs, Multiset.mem_map_of_mem _ ha⟩

/-- The page that a filled buffer names first has the distance of the vector to
its anchor. -/
theorem head_anchorDistances {pages : List (Page V R)} {query : V} {best : IdTaggedDistance R}
    (h : ((anchorDistances dist pages query).insertionSort (· ≤ ·)).head? = some best) :
    ∃ p a, pages[best.second]? = some p ∧ p.anchor = some a ∧ best.first = dist query a :=
  mem_perPage.mp ((List.mem_insertionSort _).mp (List.mem_of_mem_head? h))

omit [Zero R] [LinearOrder R] in
theorem anchor_mem_contents {pages : List (Page V R)} {i : Nat} {p : Page V R} {a : V}
    (hp : pages[i]? = some p) (ha : p.anchor = some a) : ∃ id, (id, a) ∈ contents pages := by
  obtain ⟨s, hs, rfl⟩ := Option.map_eq_some_iff.mp ha
  exact ⟨s.1, mem_contents.mpr ⟨p, List.mem_of_getElem? hp, List.mem_of_mem_head? hs⟩⟩

/-- With a buffer filled for the new vector an eviction lowers the potential. -/
theorem Change.potential_lt {maxNum newId grown i : Nat} {newVector : V} {p : Page V R}
    {g : Page V R → Page V R} {victim : Nat × V} {pages : List (Page V R)}
    {distances : Finset R} (hall : ∀ q ∈ pages, q.Attained dist)
    (hspan : Spans dist distances (contents pages + {(newId, newVector)}))
    (h : Change dist maxNum pages ((anchorDistances dist pages newVector).insertionSort (· ≤ ·))
      newId newVector grown i p g (some victim))
    (hp : (pages ++ List.replicate grown Page.zeroed)[i]? = some p) :
    potential distances dist ((pages ++ List.replicate grown Page.zeroed).modify i g) <
      potential distances dist pages := by
  cases h with
  | evict hBuffer hMany hLt hFull hVictim =>
    obtain ⟨q, a, hq, ha, hd⟩ := head_anchorDistances hBuffer
    rw [List.replicate_zero, List.append_nil] at hp ⊢
    obtain rfl : p = q := Option.some.inj (hp.symm.trans hq)
    obtain ⟨id, hid⟩ := anchor_mem_contents hq ha
    refine potential_modify_lt hp (pagePotential_placeAt ha
      (hall p (List.mem_of_getElem? hp)) ?_ (hd ▸ hLt))
    exact hspan (newId, newVector) (by simp) (id, a) (Multiset.mem_add.mpr (Or.inl hid))

variable [Inhabited V]

/-- The recursive calls. -/
theorem Core.Ready.insert_fresh {density : ℚ} {maxNum newId : Nat} {newVector : V}
    (I : List (Page V R) → Option (Nat × V) → Prop)
    (hnext : ∀ pages w grown i p g left, I pages (some w) →
      Change dist maxNum pages ((anchorDistances dist pages w.2).insertionSort (· ≤ ·)) w.1 w.2
        grown i p g left →
      (pages ++ List.replicate grown Page.zeroed)[i]? = some p →
      I ((pages ++ List.replicate grown Page.zeroed).modify i g) left)
    (distances : Finset R) (bound : Nat) (h : c.Ready dist)
    (hmax : maxNumVectors c.dbStorage.maxNumVectorsPerPage density = maxNum)
    (hbuf : c.distToAnchorBuffer =
      (anchorDistances dist c.dbStorage.pages newVector).insertionSort (· ≤ ·))
    (hspan : Spans dist distances (contents c.dbStorage.pages + {(newId, newVector)}))
    (hbound : potential distances dist c.dbStorage.pages < bound)
    (hI : I c.dbStorage.pages (some (newId, newVector))) :
    ∃ c' n, (∀ fuel, n ≤ fuel → insertAVector dist density fuel c newId newVector = some c') ∧
      c'.Ready dist ∧ c.dbStorage.SameShape c'.dbStorage ∧ I c'.dbStorage.pages none := by
  induction bound generalizing c newId newVector with
  | zero => exact absurd hbound (Nat.not_lt_zero _)
  | succ bound ih =>
    obtain ⟨grown, i, p, g, left, d, hchange, hedit, hcont⟩ := h.insert density newId newVector
    have hcontents := hchange.contents_eq hedit.page
    rw [hmax, hbuf] at hchange
    have hId := hnext _ (newId, newVector) _ _ _ _ _ hI hchange hedit.page
    rw [← hedit.rewritten.pages_eq] at hId hcontents
    cases left with
    | none =>
      obtain ⟨hbuf', hrun⟩ := hcont
      refine ⟨d, 1, fun fuel hfuel => ?_, hedit.ready h (hbuf ▸ hchange) (Or.inl hbuf'),
        hedit.rewritten.shape, hId⟩
      obtain ⟨fuel, rfl⟩ := Nat.exists_eq_add_of_le' hfuel
      exact hrun fuel
    | some victim =>
      obtain ⟨hbuf', hrun⟩ := hcont
      have hready := hedit.ready h (hbuf ▸ hchange) (Or.inr ⟨_, hbuf'⟩)
      have hlt := hchange.potential_lt h.attained hspan hedit.page
      rw [← hedit.rewritten.pages_eq] at hlt
      have hspan' : Spans dist distances (contents d.dbStorage.pages + {victim}) := by
        have heq : contents d.dbStorage.pages + {victim} =
            contents c.dbStorage.pages + {(newId, newVector)} := by
          simpa using hcontents
        rwa [heq]
      obtain ⟨c', n, hfuel, hc', hshape, hIc'⟩ := ih (c := d) hready
        (by rw [hedit.rewritten.shape.capacity, hmax]) hbuf' hspan'
        (by omega) hId
      refine ⟨c', n + 1, fun fuel hle => ?_, hc', hedit.rewritten.shape.trans hshape, hIc'⟩
      obtain ⟨fuel, rfl⟩ := Nat.exists_eq_add_of_le' (show 1 ≤ fuel by omega)
      rw [hrun]
      exact hfuel fuel (by omega)

/-- The rule for insertions. The first call works with the buffer as it is;
every later call works with a buffer filled for the vector it inserts. -/
theorem Core.Ready.insert_induction (h : c.Ready dist) (density : ℚ) (newId : Nat) (newVector : V)
    (I : List (Page V R) → Option (Nat × V) → Prop)
    (hfirst : ∀ grown i p g left,
      Change dist (maxNumVectors c.dbStorage.maxNumVectorsPerPage density) c.dbStorage.pages
        c.distToAnchorBuffer newId newVector grown i p g left →
      (c.dbStorage.pages ++ List.replicate grown Page.zeroed)[i]? = some p →
      I ((c.dbStorage.pages ++ List.replicate grown Page.zeroed).modify i g) left)
    (hnext : ∀ pages w grown i p g left, I pages (some w) →
      Change dist (maxNumVectors c.dbStorage.maxNumVectorsPerPage density) pages
        ((anchorDistances dist pages w.2).insertionSort (· ≤ ·)) w.1 w.2 grown i p g left →
      (pages ++ List.replicate grown Page.zeroed)[i]? = some p →
      I ((pages ++ List.replicate grown Page.zeroed).modify i g) left) :
    ∃ c' n, (∀ fuel, n ≤ fuel → insertAVector dist density fuel c newId newVector = some c') ∧
      c'.Ready dist ∧ c.dbStorage.SameShape c'.dbStorage ∧ I c'.dbStorage.pages none := by
  obtain ⟨grown, i, p, g, left, d, hchange, hedit, hcont⟩ := h.insert density newId newVector
  have hId := hfirst _ _ _ _ _ hchange hedit.page
  rw [← hedit.rewritten.pages_eq] at hId
  cases left with
  | none =>
    obtain ⟨hbuf', hrun⟩ := hcont
    refine ⟨d, 1, fun fuel hfuel => ?_, hedit.ready h hchange (Or.inl hbuf'),
      hedit.rewritten.shape, hId⟩
    obtain ⟨fuel, rfl⟩ := Nat.exists_eq_add_of_le' hfuel
    exact hrun fuel
  | some victim =>
    obtain ⟨hbuf', hrun⟩ := hcont
    have hready := hedit.ready h hchange (Or.inr ⟨_, hbuf'⟩)
    obtain ⟨distances, hspan⟩ := exists_spans dist (contents d.dbStorage.pages + {victim})
    obtain ⟨c', n, hfuel, hc', hshape, hIc'⟩ := hready.insert_fresh I hnext
      distances _ (by rw [hedit.rewritten.shape.capacity]) hbuf' hspan (Nat.lt_succ_self _) hId
    refine ⟨c', n + 1, fun fuel hle => ?_, hc', hedit.rewritten.shape.trans hshape, hIc'⟩
    obtain ⟨fuel, rfl⟩ := Nat.exists_eq_add_of_le' (show 1 ≤ fuel by omega)
    rw [hrun]
    exact hfuel fuel (by omega)

/-- An insertion returns and adds the new pair, whatever vector the buffer was filled for. -/
theorem Core.Ready.insert_contents (h : c.Ready dist) (density : ℚ) (newId : Nat) (newVector : V) :
    ∃ c' n, (∀ fuel, n ≤ fuel → insertAVector dist density fuel c newId newVector = some c') ∧
      c'.Ready dist ∧
      contents c'.dbStorage.pages = contents c.dbStorage.pages + {(newId, newVector)} := by
  obtain ⟨c', n, hrun, hready, -, hcontents⟩ := h.insert_induction density newId newVector
    (fun pages left => contents pages + (left.toList : Multiset (Nat × V)) =
      contents c.dbStorage.pages + {(newId, newVector)})
    (fun _ _ _ _ _ hchange hp => hchange.contents_eq hp)
    (fun _ w _ _ _ _ _ hI hchange hp => (hchange.contents_eq hp).trans hI)
  exact ⟨c', n, hrun, hready, by simpa using hcontents⟩

end Rule

end Spheres.Execution
