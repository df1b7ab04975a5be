import Spheres.Execution.BulkLoad

/-!
# A bulk load under way

A load writes its pages in the order of their indices, so at any time the first
pages are written and the others are new (`Filling`). `Storing` and `Loading`
are what both loads keep from page to page, for any choice of vectors and for
the choice of the nearest ones.
-/

namespace Spheres.Execution

open Library Library.EraseIf Library.Selection

variable {V R : Type*}

section Files

variable [Zero R] {s s' : Storage V R}

theorem iterate_createStorageFile (h : s.Uniform) (n : Nat) :
    s.Rewritten (Storage.createStorageFile^[n] s)
      (s.pages ++ List.replicate (n * (s.fileSize / s.pageSize)) .zeroed) := by
  induction n with
  | zero => exact ⟨h, Storage.SameShape.refl s, by simp⟩
  | succ n ih =>
    have hnext := ih.uniform.rewritten_createStorageFile
    rw [ih.pages_eq, ih.shape.fileSize, ih.shape.pageSize, List.append_assoc,
      List.replicate_append_replicate, ← Nat.succ_mul] at hnext
    rw [Function.iterate_succ_apply']
    exact ih.trans hnext

/-- The files that are created before a load adds pages to. -/
theorem prepareFiles_spec {maxNum nIds : Nat} (h : s.Uniform)
    (hrun : prepareFiles maxNum nIds s = some s') :
    0 < maxNum ∧ s.Rewritten s' (s.pages ++ List.replicate
      (nIds / (maxNum * s.fileSize / s.pageSize) * (s.fileSize / s.pageSize)) .zeroed) := by
  unfold prepareFiles at hrun
  split at hrun
  · cases hrun
  · rename_i hne
    obtain rfl := Option.some.inj hrun
    refine ⟨?_, iterate_createStorageFile h _⟩
    apply Nat.pos_of_ne_zero
    rintro rfl
    exact hne (Or.inr (by simp))

theorem prepareFiles_extended {maxNum nIds : Nat} (h : s.Uniform)
    (hrun : prepareFiles maxNum nIds s = some s') : Extended s s' := by
  obtain ⟨-, hw⟩ := prepareFiles_spec h hrun
  refine ⟨hw.uniform, hw.shape, ?_, ?_⟩
  · rw [hw.pages_eq, List.length_append]
    exact Nat.le_add_right _ _
  · rintro i ⟨p, hp, hne⟩
    refine ⟨p, ?_, hne⟩
    rw [hw.pages_eq, List.getElem?_append_left (List.getElem?_eq_some_iff.mp hp).1, hp]

theorem prepareFiles_isSome {maxNum : Nat} (h : s.Uniform) (hmax : 0 < maxNum) (nIds : Nat) :
    ∃ s', prepareFiles maxNum nIds s = some s' := by
  have hps : 0 < s.pageSize := by
    apply Nat.pos_of_ne_zero
    intro hps
    have := h.width_pos
    simp [hps] at this
  have hle : s.fileSize / s.pageSize ≤ maxNum * s.fileSize / s.pageSize :=
    Nat.div_le_div_right (Nat.le_mul_of_pos_left _ hmax)
  refine ⟨_, if_neg ?_⟩
  have := h.width_pos
  omega

end Files

/-- A storage whose first pages are written and whose other pages are new. -/
structure Filling [Zero R] (s : Storage V R) (written : List (Page V R)) (free : Nat) : Prop where
  uniform : s.Uniform
  pages_eq : s.pages = written ++ List.replicate free .zeroed

section Step

variable [Zero R] {l l' : Load V R} {written : List (Page V R)} {free : Nat}
  {indices : List Nat} {maxDist : R}

/-- Storing a page writes the next one. -/
theorem Filling.storePage (h : Filling l.dbStorage written free)
    (hrun : l.storePage written.length indices maxDist = some l') :
    ∃ free', free = free' + 1 ∧
      Filling l'.dbStorage (written ++ [packed l.slots indices maxDist]) free' ∧
      l.dbStorage.SameShape l'.dbStorage ∧ (∀ i ∈ indices, i < l.slots.length) ∧
      l'.newVectors = eraseIf indices.contains 0 l.newVectors ∧
      l'.ids = eraseIf indices.contains 0 l.ids ∧
      l'.slots = eraseIf indices.contains 0 l.slots := by
  obtain ⟨hpage, hlt, hw, hvectors, hids⟩ := Load.storePage_spec h.uniform hrun
  rw [h.pages_eq, List.length_append, List.length_replicate] at hpage
  obtain ⟨free', rfl⟩ : ∃ free', free = free' + 1 := ⟨free - 1, by omega⟩
  refine ⟨free', rfl, ⟨hw.uniform, ?_⟩, hw.shape, hlt, hvectors, hids, ?_⟩
  · rw [hw.pages_eq, h.pages_eq, List.replicate_succ, ListUpdate.modify_append_cons,
      List.append_assoc, List.singleton_append]
    rfl
  · rw [Load.slots, hvectors, hids, zip_eraseIf, Load.slots]

theorem Filling.storePage_isSome (h : Filling l.dbStorage written free) (hfree : 0 < free)
    (hlt : ∀ i ∈ indices, i < l.slots.length) (maxDist : R) :
    ∃ l', l.storePage written.length indices maxDist = some l' := by
  refine Load.storePage_isSome h.uniform ?_ hlt maxDist
  rw [h.pages_eq, List.length_append, List.length_replicate]
  omega

omit [Zero R] in
theorem map_snd_slots (l : Load V R) :
    l.slots.map Prod.snd = l.newVectors.take l.ids.length := by
  rw [Load.slots, List.zip_eq_zip_take_min, List.map_snd_zip]
  · simp
  · simp

variable [LinearOrder R] {dist : DistFunc V R} {sel : List (IdTaggedDistance R)}

/-- A choice among the first vectors only. -/
theorem Chosen.take {vectors : List V} (h : Chosen dist vectors sel maxDist) {n : Nat}
    (hlt : ∀ e ∈ sel, e.second < n) : Chosen dist (vectors.take n) sel maxDist := by
  refine ⟨(Multiset.le_iff_subset ?_).mpr fun e he => ?_, h.head, h.max⟩
  · exact Multiset.nodup_of_le h.le (nodup_candidates dist vectors)
  · obtain ⟨hlen, heq⟩ := h.mem (Multiset.mem_coe.mp he)
    have hn := hlt e (Multiset.mem_coe.mp he)
    refine mem_candidates.mpr ⟨by rw [List.length_take]; omega, heq.trans ?_⟩
    simp only [toFirst, List.getElem?_take, if_pos hn, List.head?_take, if_neg (Nat.ne_of_gt
      (Nat.zero_lt_of_lt hn))]

/-- What a load keeps whatever it chooses: every written page is within `bound`
and has its exact radius, and no pair is lost or stored twice. -/
def Storing (dist : DistFunc V R) (bound : Nat) (all : Multiset (Nat × V)) (pageIdx : Nat)
    (l : Load V R) : Prop :=
  ∃ written free, Filling l.dbStorage written free ∧ written.length = pageIdx ∧
    (∀ p ∈ written, p.nVectors ≤ bound ∧ p.ExactRadius dist ∧ p.slots ≠ []) ∧
    contents written + (l.slots : Multiset (Nat × V)) = all

variable {bound pageIdx : Nat} {all : Multiset (Nat × V)}

theorem Storing.storePage (h : Storing dist bound all pageIdx l)
    (hsel : Chosen dist l.newVectors sel maxDist) (hbound : sel.length ≤ bound)
    (hrun : l.storePage pageIdx (sel.map (·.second)) maxDist = some l') :
    Storing dist bound all (pageIdx + 1) l' ∧ l.dbStorage.SameShape l'.dbStorage ∧
      l'.newVectors.length < l.newVectors.length ∧
      (l.ids.length = l.newVectors.length → l'.ids.length = l'.newVectors.length) := by
  obtain ⟨written, free, hfilling, rfl, hpages, hcontents⟩ := h
  obtain ⟨free', rfl, hfilling', hshape, hlt, hvectors, hids, hslots⟩ := hfilling.storePage hrun
  have hsel' : Chosen dist (l.slots.map Prod.snd) sel maxDist := by
    rw [map_snd_slots]
    refine hsel.take fun e he => ?_
    have := hlt e.second (List.mem_map_of_mem he)
    rw [Load.slots, List.length_zip] at this
    omega
  have hlength := length_eraseIf hsel.nodup hsel.lt_length
  have hpos := List.length_pos_of_ne_nil hsel.ne_nil
  rw [List.length_map, ← hvectors] at hlength
  refine ⟨⟨_, free', hfilling', by simp, ?_, ?_⟩, hshape, by omega, fun heq => ?_⟩
  · intro p hp
    rcases List.mem_append.mp hp with hp | hp
    · exact hpages p hp
    · obtain rfl := List.mem_singleton.mp hp
      have hcount := length_packed hlt maxDist
      refine ⟨hcount.trans_le hbound, hsel'.exactRadius, fun hnil => ?_⟩
      rw [Page.nVectors, hnil, List.length_nil] at hcount
      omega
  · rw [contents_append, contents_cons, hslots, contents_nil, add_zero, add_assoc,
      hsel'.packed_add_eraseIf, hcontents]
  · rw [hids, hvectors]
    exact length_eraseIf_eq heq 0

/-- Once nothing is left, the pages hold all pairs. -/
theorem Storing.finished (h : Storing dist bound all pageIdx l) (hdone : l.newVectors = []) :
    l.dbStorage.Uniform ∧ contents l.dbStorage.pages = all ∧
      ∀ p ∈ l.dbStorage.pages, p.nVectors ≤ bound ∧ p.ExactRadius dist ∧
        (p.slots = [] → p.maxDist = 0) := by
  obtain ⟨written, free, hfilling, -, hpages, hcontents⟩ := h
  have hslots : l.slots = [] := by rw [Load.slots, hdone, List.zip_nil_right]
  rw [hslots, Multiset.coe_nil, add_zero] at hcontents
  refine ⟨hfilling.uniform, ?_, ?_⟩
  · rw [hfilling.pages_eq, contents_append_zeroed, hcontents]
  · intro p hp
    rw [hfilling.pages_eq] at hp
    rcases List.mem_append.mp hp with hp | hp
    · obtain ⟨hcount, hradius, hne⟩ := hpages p hp
      exact ⟨hcount, hradius, fun hnil => absurd hnil hne⟩
    · obtain ⟨-, rfl⟩ := List.mem_replicate.mp hp
      exact ⟨Nat.zero_le _, fun hne => absurd rfl hne, fun _ => rfl⟩

omit [LinearOrder R] in
theorem Filling.start {s s' : Storage V R} {maxNum n nIds : Nat} (h : s.Uniform)
    (hpages : s.pages = List.replicate n .zeroed) (hrun : prepareFiles maxNum nIds s = some s') :
    Filling s' [] (n + nIds / (maxNum * s.fileSize / s.pageSize) * (s.fileSize / s.pageSize)) ∧
      s.SameShape s' ∧ 0 < maxNum := by
  obtain ⟨hmax, hw⟩ := prepareFiles_spec h hrun
  refine ⟨⟨hw.uniform, ?_⟩, hw.shape, hmax⟩
  rw [hw.pages_eq, hpages, List.replicate_append_replicate, List.nil_append]

/-- A load starts on new pages. -/
theorem Filling.storing {s : Storage V R} {free : Nat} (h : Filling s [] free)
    (dist : DistFunc V R) (bound : Nat) (newVectors : List V) (ids : List Nat) :
    Storing dist bound (ids.zip newVectors) 0 ⟨s, newVectors, ids⟩ :=
  ⟨[], free, h, rfl, by simp, by rw [contents_nil, zero_add]; rfl⟩

/-- What a load keeps that chooses the nearest vectors: the written pages are the
first groups of the pairs, and there are pages for the others. -/
def Loading (dist : DistFunc V R) (k : Nat) (all : List (Nat × V)) (total pageIdx : Nat)
    (l : Load V R) : Prop :=
  ∃ written free done, Filling l.dbStorage written free ∧ written.length = pageIdx ∧
    List.Forall₂ SamePage written done ∧ done ++ groups dist k l.slots = groups dist k all ∧
    written.length + free = total ∧ (groups dist k all).length ≤ total ∧
    l.ids.length = l.newVectors.length

variable {k total : Nat} {all : List (Nat × V)}

/-- With a choice of the nearest vectors there is a page, and the load goes on. -/
theorem Loading.storePage (h : Loading dist k all total pageIdx l) (hk : 0 < k)
    (hsel : Chosen dist l.newVectors sel maxDist)
    (hsmallest : IsSmallest id k (sel : Multiset _) (candidates dist l.newVectors)) :
    ∃ l', l.storePage pageIdx (sel.map (·.second)) maxDist = some l' ∧
      Loading dist k all total (pageIdx + 1) l' ∧ l'.newVectors.length < l.newVectors.length := by
  obtain ⟨written, free, done, hfilling, rfl, hsame, hgroups, htotal, hroom, hlength⟩ := h
  have hvectors : l.slots.map Prod.snd = l.newVectors := by
    rw [map_snd_slots, hlength, List.take_length]
  have hlength' := length_eraseIf hsel.nodup hsel.lt_length
  have hpos := List.length_pos_of_ne_nil hsel.ne_nil
  rw [← hvectors] at hsel hsmallest
  have hlt : ∀ i ∈ sel.map (·.second), i < l.slots.length := by
    intro i hi
    have := hsel.lt_length i hi
    rwa [List.length_map] at this
  have hne : l.slots ≠ [] := by
    intro hnil
    have := hlt 0 (List.mem_map.mpr ⟨_, List.mem_of_mem_head? hsel.head, rfl⟩)
    simp [hnil] at this
  rw [groups_cons hk hne] at hgroups
  have hfree : 0 < free := by
    have hcount := congrArg List.length hgroups
    rw [List.length_append, List.length_cons, ← hsame.length_eq] at hcount
    omega
  obtain ⟨l', hrun⟩ := hfilling.storePage_isSome hfree hlt maxDist
  obtain ⟨free', rfl, hfilling', -, -, hv, hids, hslots⟩ := hfilling.storePage hrun
  obtain ⟨hpage, hrest⟩ := hsel.samePage_group hk hne hsmallest
  rw [List.length_map, ← hv] at hlength'
  refine ⟨l', hrun, ⟨_, free', done ++ [groupPage dist k l.slots], hfilling', by simp, ?_, ?_, ?_,
    hroom, ?_⟩, by omega⟩
  · exact List.rel_append hsame (List.Forall₂.cons hpage .nil)
  · rw [hslots, hrest, List.append_assoc, List.singleton_append, hgroups]
  · rw [List.length_append, List.length_singleton]
    omega
  · rw [hids, hv]
    exact length_eraseIf_eq hlength 0

/-- The groups with the pages that stay new. -/
def layout (dist : DistFunc V R) (k : Nat) (all : List (Nat × V)) (total : Nat) :
    List (Page V R) :=
  groups dist k all ++ List.replicate (total - (groups dist k all).length) .zeroed

/-- Every page before a page with vectors is full. -/
def FullButLast (k : Nat) (pages : List (Page V R)) : Prop :=
  ∀ (i : Nat) (p q : Page V R), pages[i]? = some p → pages[i + 1]? = some q → q.slots ≠ [] →
    p.nVectors = k

theorem fullButLast_layout (dist : DistFunc V R) (hk : 0 < k) (all : List (Nat × V))
    (total : Nat) : FullButLast k (layout dist k all total) := by
  intro i p q hp hq hne
  have hlt : i + 1 < (groups dist k all).length := by
    by_contra hge
    rw [layout, List.getElem?_append_right (by omega)] at hq
    obtain ⟨-, rfl⟩ := List.mem_replicate.mp (List.mem_of_getElem? hq)
    exact hne rfl
  rw [layout, List.getElem?_append_left (by omega)] at hp hq
  exact (length_groups dist hk all).2 i p q hp hq

omit [Zero R] [LinearOrder R] in
theorem FullButLast.of_samePage {pages pages' : List (Page V R)} (h : FullButLast k pages')
    (hsame : List.Forall₂ SamePage pages pages') : FullButLast k pages := by
  intro i p q hp hq hne
  obtain ⟨hlength, hget⟩ := List.forall₂_iff_get.mp hsame
  obtain ⟨hi, rfl⟩ := List.getElem?_eq_some_iff.mp hp
  obtain ⟨hi', rfl⟩ := List.getElem?_eq_some_iff.mp hq
  have hp' := hget i hi (hlength ▸ hi)
  have hq' := hget (i + 1) hi' (hlength ▸ hi')
  refine hp'.slots.length_eq.trans (h i _ (pages'.get ⟨i + 1, hlength ▸ hi'⟩)
    (List.getElem?_eq_getElem _) (List.getElem?_eq_getElem _) fun hnil => hne ?_)
  exact (hnil ▸ hq'.slots).eq_nil

/-- Once nothing is left, the pages are those of the layout. -/
theorem Loading.finished (h : Loading dist k all total pageIdx l) (hdone : l.newVectors = []) :
    l.dbStorage.Uniform ∧ List.Forall₂ SamePage l.dbStorage.pages (layout dist k all total) := by
  obtain ⟨written, free, done, hfilling, -, hsame, hgroups, htotal, -, -⟩ := h
  have hslots : l.slots = [] := by rw [Load.slots, hdone, List.zip_nil_right]
  rw [hslots, groups_nil, List.append_nil] at hgroups
  subst hgroups
  have hfree : total - (groups dist k all).length = free := by
    rw [← hsame.length_eq]
    omega
  refine ⟨hfilling.uniform, ?_⟩
  rw [hfilling.pages_eq, layout, hfree]
  exact List.rel_append hsame (List.forall₂_same.mpr fun p _ => .refl p)

/-- The files that are created suffice for the groups. -/
theorem length_groups_le (hk : 0 < k) {w : Nat} (hw : 0 < w) (slots : List (Nat × V)) :
    (groups dist k slots).length ≤ w + slots.length / (k * w) * w := by
  have hcount := (length_groups dist hk slots).1
  have hlt : slots.length < (slots.length / (k * w) + 1) * (k * w) := by
    have := Nat.lt_div_mul_add (a := slots.length) (Nat.mul_pos hk hw)
    rwa [Nat.succ_mul]
  have hmul : (groups dist k slots).length * k < (w + slots.length / (k * w) * w + 1) * k := by
    calc (groups dist k slots).length * k < slots.length + k := hcount
      _ ≤ (slots.length / (k * w) + 1) * (k * w) + k := by omega
      _ = (w + slots.length / (k * w) * w + 1) * k := by ring
  exact Nat.lt_succ_iff.mp (lt_of_mul_lt_mul_right hmul (Nat.zero_le k))

/-- A load starts on new pages, enough of them for all groups. -/
theorem Filling.loading (dist : DistFunc V R) {s s' : Storage V R} {newVectors : List V} {ids : List Nat}
    (h : s.Uniform) (hpages : s.pages = List.replicate (s.fileSize / s.pageSize) .zeroed)
    (hdvd : s.pageSize ∣ s.fileSize) (hk : 0 < k) (hlength : ids.length = newVectors.length)
    (hrun : prepareFiles k ids.length s = some s') :
    Loading dist k (ids.zip newVectors) s'.pages.length 0 ⟨s', newVectors, ids⟩ := by
  obtain ⟨hfilling, -, -⟩ := Filling.start h hpages hrun
  have hps : 0 < s.pageSize := by
    apply Nat.pos_of_ne_zero
    intro hps
    have := h.width_pos
    simp [hps] at this
  have hdiv : k * s.fileSize / s.pageSize = k * (s.fileSize / s.pageSize) :=
    Nat.mul_div_assoc k hdvd
  have hids : ids.length = (ids.zip newVectors).length := by
    rw [List.length_zip, hlength, Nat.min_self]
  rw [hdiv, hids] at hfilling
  have htotal := congrArg List.length hfilling.pages_eq
  rw [List.nil_append, List.length_replicate] at htotal
  refine ⟨[], _, [], hfilling, rfl, .nil, rfl, ?_, ?_, hlength⟩
  · rw [htotal, List.length_nil, Nat.zero_add]
  · rw [htotal]
    exact length_groups_le hk h.width_pos _

end Step

end Spheres.Execution
