import Mathlib.Data.List.Perm.Basic
import Spheres.Benchmark.ParseArgv
import Spheres.Library.Assignments

/-!
# The order of the arguments

The loops of `parse_argv` run over the arguments as they stand on the command line and as
the map lists them. What they amount to does not mention an order: `withArguments` sets the
fields that are given, all at once, and `parseArgv_eq_ok_iff` describes the result by it.
-/

namespace Spheres.Benchmark

open Library Library.Assignments

/-! ## One argument -/

def readSize (key value : String) : SizeT := (parseSize value key).toOption.getD 0

def readDistance (value : String) : DistanceType :=
  (parseDistanceType value).toOption.getD .normalizedL2

/-- The configuration with the fields that are given. -/
def withArguments (given : String → Option String) (config : BenchmarkConfig) :
    BenchmarkConfig :=
  { config with
    engineName := (given "engine").elim config.engineName id
    engineMode := (given "mode").elim config.engineMode id
    nThreads := (given "n_threads").elim config.nThreads (readSize "n_threads")
    datasetPath := (given "path").elim config.datasetPath id
    distanceType := (given "distance").elim config.distanceType readDistance
    vectorDim := (given "dim").elim config.vectorDim (readSize "dim")
    nBaseVectors := (given "n_base").elim config.nBaseVectors (readSize "n_base")
    nLearnVectors := (given "n_learn").elim config.nLearnVectors (readSize "n_learn")
    nQueryVectors := (given "n_query").elim config.nQueryVectors (readSize "n_query")
    k := (given "k").elim config.k (readSize "k")
    kInGt := (given "kgt").elim config.kInGt (readSize "kgt")
    metricsPath := (given "metrics").elim config.metricsPath id
    indexPath := (given "index").elim config.indexPath id
    reuseIndex := (given "reuse_index").elim config.reuseIndex (· = "1")
    spheresPageSize :=
      (given "spheres_page_size").elim config.spheresPageSize (readSize "spheres_page_size")
    spheresFileSize :=
      (given "spheres_file_size").elim config.spheresFileSize (readSize "spheres_file_size")
    spheresNPagesToProbe :=
      (given "spheres_n_ppage").elim config.spheresNPagesToProbe (readSize "spheres_n_ppage")
    spheresLocalBufferSize :=
      (given "spheres_buf_size").elim config.spheresLocalBufferSize (readSize "spheres_buf_size")
    spheresMorselStep :=
      (given "spheres_morsel").elim config.spheresMorselStep (readSize "spheres_morsel")
    faissHnswM := (given "faiss_hnsw_m").elim config.faissHnswM (readSize "faiss_hnsw_m")
    faissHnswEfsearch :=
      (given "faiss_hnsw_search").elim config.faissHnswEfsearch (readSize "faiss_hnsw_search")
    faissHnswEfconstruction :=
      (given "faiss_hnsw_con").elim config.faissHnswEfconstruction (readSize "faiss_hnsw_con")
    faissLshNbits := (given "faiss_lsh_nb").elim config.faissLshNbits (readSize "faiss_lsh_nb")
    faissIvfflatNlists :=
      (given "faiss_ivf_nlists").elim config.faissIvfflatNlists (readSize "faiss_ivf_nlists")
    faissIvfflatNprobe :=
      (given "faiss_ivf_nprobe").elim config.faissIvfflatNprobe (readSize "faiss_ivf_nprobe")
    faissIvfflatIngestBatchSize :=
      (given "faiss_ivf_batch").elim config.faissIvfflatIngestBatchSize
        (readSize "faiss_ivf_batch") }

theorem withArguments_none (config : BenchmarkConfig) :
    withArguments (fun _ => none) config = config := rfl

theorem elim_or {α β : Type} (m m' : Option α) (old : β) (read : α → β) :
    m'.elim (m.elim old read) read = (m'.or m).elim old read := by
  cases m' <;> rfl

theorem withArguments_withArguments (given given' : String → Option String)
    (config : BenchmarkConfig) :
    withArguments given' (withArguments given config) =
      withArguments (fun key => (given' key).or (given key)) config := by
  simp only [withArguments, elim_or]

/-- A value that is read and then set. -/
theorem map_of_ok {α : Type} {o : Except String α} {f f' : α → BenchmarkConfig}
    {config : BenchmarkConfig} (h : ∀ n, o = .ok n → f n = config) :
    o.map f = (o.map f').map fun _ => config := by
  cases o with
  | error e => rfl
  | ok n => exact congrArg Except.ok (h n rfl)

/-- Whether an argument is accepted does not depend on the configuration, and it sets its
own field. -/
theorem applyArgument_eq (config : BenchmarkConfig) (a : String × String) :
    applyArgument config a =
      (applyArgument {} a).map fun _ => withArguments (single a) config := by
  obtain ⟨key, value⟩ := a
  simp only [applyArgument]
  split
  case h_28 => rfl
  all_goals
    first
    | apply map_of_ok
      intro n hn
      simp [withArguments, single, readSize, readDistance, hn, Except.toOption]
    | simp [withArguments, single, Except.map]

/-- An argument that no configuration is refused for. -/
def AcceptsArgument (a : String × String) : Prop := ∃ config, applyArgument {} a = .ok config

theorem applyArgument_eq_ok (config config' : BenchmarkConfig) (a : String × String) :
    applyArgument config a = .ok config' ↔
      AcceptsArgument a ∧ config' = withArguments (single a) config := by
  rw [applyArgument_eq]
  constructor
  · intro h
    cases ha : applyArgument {} a with
    | error e =>
      rw [ha] at h
      cases h
    | ok config =>
      rw [ha] at h
      exact ⟨⟨config, ha⟩, (Except.ok.inj h).symm⟩
  · rintro ⟨⟨config, ha⟩, rfl⟩
    rw [ha]
    rfl

/-- The loop over the arguments, in whatever order. -/
theorem foldlM_applyArgument {arguments : List (String × String)}
    {config config' : BenchmarkConfig} :
    arguments.foldlM applyArgument config = .ok config' ↔
      (∀ a ∈ arguments, AcceptsArgument a) ∧ config' = withArguments (given arguments) config :=
  foldlM_eq_ok withArguments_none withArguments_withArguments applyArgument_eq_ok

/-! ## The command line -/

/-- An argument on the command line. -/
def onCommandLine (a : String × String) : List String := ["--" ++ a.1, a.2]

theorem optionKey_eq_some_iff {option key : String} :
    optionKey option = some key ↔ option = "--" ++ key := by
  have hdashes : "--".toList = ['-', '-'] := rfl
  constructor
  · intro h
    unfold optionKey at h
    split at h
    · rename_i chars hchars
      obtain rfl := Option.some.inj h
      apply String.toList_inj.mp
      rw [String.toList_append, hdashes, hchars, String.toList_ofList]
      rfl
    · cases h
  · rintro rfl
    have hchars : ("--" ++ key).toList = '-' :: '-' :: key.toList := by
      rw [String.toList_append, hdashes]
      rfl
    rw [optionKey, hchars]
    exact congrArg some String.ofList_toList

theorem cons_cons_eq_flatMap {option value : String} {rest : List String}
    {arguments : List (String × String)} :
    option :: value :: rest = arguments.flatMap onCommandLine ↔
      ∃ key tail, option = "--" ++ key ∧ arguments = (key, value) :: tail ∧
        rest = tail.flatMap onCommandLine := by
  constructor
  · intro h
    cases arguments with
    | nil => cases h
    | cons a tail =>
      rw [List.flatMap_cons, onCommandLine, List.cons_append, List.cons_append,
        List.nil_append] at h
      obtain ⟨hoption, htail⟩ := List.cons.inj h
      obtain ⟨rfl, hrest⟩ := List.cons.inj htail
      exact ⟨a.1, tail, hoption, rfl, hrest⟩
  · rintro ⟨key, tail, rfl, rfl, rfl⟩
    rfl

theorem singleton_ne_flatMap (option : String) (arguments : List (String × String)) :
    [option] ≠ arguments.flatMap onCommandLine := by
  intro h
  cases arguments with
  | nil => cases h
  | cons a tail =>
    have hlength := congrArg List.length h
    rw [List.flatMap_cons, List.length_append, List.length_singleton] at hlength
    exact absurd hlength (by rw [show (onCommandLine a).length = 2 from rfl]; omega)

/-- The arguments that are read are those of the command line, with different keys. -/
theorem readArguments_eq_ok {argv : List String} {front arguments : List (String × String)}
    (hfront : (front.map Prod.fst).Nodup) :
    readArguments argv front = .ok arguments ↔
      ∃ new, argv = new.flatMap onCommandLine ∧ arguments = front ++ new ∧
        (arguments.map Prod.fst).Nodup := by
  induction argv, front using readArguments.induct with
  | case1 front =>
    constructor
    · intro h
      obtain rfl := Except.ok.inj h
      exact ⟨[], rfl, (List.append_nil front).symm, hfront⟩
    · rintro ⟨new, hargv, rfl, -⟩
      cases new with
      | nil => exact congrArg Except.ok (List.append_nil front).symm
      | cons a tail => cases hargv
  | case2 option front hkey =>
    simp only [readArguments, hkey]
    refine ⟨fun h => (by cases h), ?_⟩
    rintro ⟨new, hargv, -⟩
    exact absurd hargv (singleton_ne_flatMap option new)
  | case3 option front key hkey =>
    simp only [readArguments, hkey]
    refine ⟨fun h => (by cases h), ?_⟩
    rintro ⟨new, hargv, -⟩
    exact absurd hargv (singleton_ne_flatMap option new)
  | case4 option value rest front hkey =>
    simp only [readArguments, hkey]
    refine ⟨fun h => (by cases h), ?_⟩
    rintro ⟨new, hargv, -⟩
    obtain ⟨key, tail, hoption, -⟩ := cons_cons_eq_flatMap.mp hargv
    rw [optionKey_eq_some_iff.mpr hoption] at hkey
    cases hkey
  | case5 option value rest front key hkey hany =>
    simp only [readArguments, hkey, if_pos hany]
    refine ⟨fun h => (by cases h), ?_⟩
    rintro ⟨new, hargv, rfl, hkeys⟩
    obtain ⟨key', tail, hoption, rfl, -⟩ := cons_cons_eq_flatMap.mp hargv
    rw [optionKey_eq_some_iff.mpr hoption] at hkey
    obtain rfl := Option.some.inj hkey
    obtain ⟨a, ha, heq⟩ := List.any_eq_true.mp hany
    rw [List.map_append, List.nodup_append] at hkeys
    exact absurd (of_decide_eq_true heq)
      (hkeys.2.2 a.1 (List.mem_map_of_mem ha) key' List.mem_cons_self)
  | case6 option value rest front key hkey hany ih =>
    have hnew : ((front ++ [(key, value)]).map Prod.fst).Nodup := by
      rw [List.map_append, List.nodup_append]
      refine ⟨hfront, List.nodup_singleton _, fun k hk k' hk' heq => hany ?_⟩
      obtain ⟨a, ha, rfl⟩ := List.mem_map.mp hk
      rw [List.map_singleton, List.mem_singleton] at hk'
      exact List.any_eq_true.mpr ⟨a, ha, decide_eq_true (heq.trans hk')⟩
    simp only [readArguments, hkey, if_neg hany]
    rw [ih hnew]
    constructor
    · rintro ⟨tail, rfl, rfl, hkeys⟩
      refine ⟨(key, value) :: tail, ?_, List.append_assoc _ _ _, hkeys⟩
      exact cons_cons_eq_flatMap.mpr ⟨key, tail, optionKey_eq_some_iff.mp hkey, rfl, rfl⟩
    · rintro ⟨new, hargv, rfl, hkeys⟩
      obtain ⟨key', tail, hoption, rfl, hrest⟩ := cons_cons_eq_flatMap.mp hargv
      rw [optionKey_eq_some_iff.mpr hoption] at hkey
      obtain rfl := Option.some.inj hkey
      exact ⟨tail, hrest, List.append_cons front (key', value) tail, hkeys⟩

/-! ## The result -/

section Result

variable {iterate : List (String × String) → List (String × String)} {argv : List String}
  {config : BenchmarkConfig}

/-- The arguments stand on the command line with different keys, and each is accepted. -/
structure Reads (argv : List String) (arguments : List (String × String)) : Prop where
  argv : argv = arguments.flatMap onCommandLine
  keys : (arguments.map Prod.fst).Nodup
  accepts : ∀ a ∈ arguments, AcceptsArgument a

/-- The defaults of a data set. -/
def defaults (dataset : String) : BenchmarkConfig :=
  makeBenchmarkWithDefaultParams { datasetType := parseDatasetType dataset }

/-- No two arguments have the same key. -/
theorem Reads.find?_eq {arguments : List (String × String)} {dataset : String}
    (h : Reads argv arguments) (hdataset : ("dataset", dataset) ∈ arguments) :
    arguments.find? (fun argument => argument.1 = "dataset") = some ("dataset", dataset) := by
  have hsome : (arguments.find? fun argument => argument.1 = "dataset").isSome := by
    rw [List.find?_isSome]
    exact ⟨_, hdataset, decide_eq_true rfl⟩
  obtain ⟨⟨key, value⟩, hfind⟩ := Option.isSome_iff_exists.mp hsome
  obtain rfl : key = "dataset" := by simpa using List.find?_some hfind
  have hgiven := (given_eq_some_iff h.keys).mpr (List.mem_of_find?_eq_some hfind)
  rw [(given_eq_some_iff h.keys).mpr hdataset] at hgiven
  rw [hfind, Option.some.inj hgiven]

/-- What `parse_argv` returns, with no order in it. -/
theorem parseArgv_eq_ok_iff (hiterate : ∀ l, (iterate l).Perm l) :
    parseArgv iterate argv = .ok config ↔
      ∃ arguments dataset, Reads argv arguments ∧ ("dataset", dataset) ∈ arguments ∧
        validate (setVectorPaths (withArguments (given arguments) (defaults dataset))) =
          .ok config := by
  have hloop : ∀ {arguments : List (String × String)} {config config' : BenchmarkConfig},
      (arguments.map Prod.fst).Nodup →
      ((iterate arguments).foldlM applyArgument config = .ok config' ↔
        (∀ a ∈ arguments, AcceptsArgument a) ∧
          config' = withArguments (given arguments) config) := by
    intro arguments config config' hkeys
    rw [foldlM_applyArgument, given_perm hkeys (hiterate arguments).symm]
    simp only [(hiterate arguments).mem_iff]
  have hnil : (([] : List (String × String)).map Prod.fst).Nodup := List.nodup_nil
  constructor
  · intro h
    simp only [parseArgv, bind, Except.bind] at h
    split at h
    · cases h
    rename_i arguments hread
    obtain ⟨new, hargv, rfl, hkeys⟩ := (readArguments_eq_ok hnil).mp hread
    split at h
    · cases h
    rename_i dataset hfind
    split at h
    · cases h
    rename_i config' hfold
    obtain ⟨haccepts, rfl⟩ := (hloop hkeys).mp hfold
    obtain ⟨key, value⟩ := dataset
    obtain rfl : key = "dataset" := by simpa using List.find?_some hfind
    exact ⟨arguments, value, ⟨hargv, hkeys, haccepts⟩, List.mem_of_find?_eq_some hfind, h⟩
  · rintro ⟨arguments, dataset, hreads, hdataset, hvalidate⟩
    have hread : readArguments argv [] = .ok arguments :=
      (readArguments_eq_ok hnil).mpr
        ⟨arguments, hreads.argv, (List.nil_append _).symm, hreads.keys⟩
    have hfold := (hloop hreads.keys).mpr
      ⟨hreads.accepts, (rfl : _ = withArguments (given arguments) (defaults dataset))⟩
    rw [defaults] at hfold
    simp only [parseArgv, bind, Except.bind, hread, hreads.find?_eq hdataset, hfold]
    exact hvalidate

end Result

/-! ## Pairs and permutations -/

/-- The command line of pairs of an option and a value. -/
def toArgv (pairs : List (String × String)) : List String := pairs.flatMap fun p => [p.1, p.2]

/-- Both throw, or both return the same. -/
def SameResult (o o' : Except String BenchmarkConfig) : Prop :=
  (∃ config, o = .ok config ∧ o' = .ok config) ∨ (∃ e, o = .error e) ∧ ∃ e, o' = .error e

/-- The options of a command line. -/
def options : List String → List String
  | [] => []
  | [option] => [option]
  | option :: _ :: rest => option :: options rest

def knownKeys : List String :=
  ["dataset", "engine", "mode", "n_threads", "path", "distance", "dim", "n_base", "n_learn",
    "n_query", "k", "kgt", "metrics", "index", "reuse_index", "spheres_page_size",
    "spheres_file_size", "spheres_n_ppage", "spheres_buf_size", "spheres_morsel", "faiss_hnsw_m",
    "faiss_hnsw_search", "faiss_hnsw_con", "faiss_lsh_nb", "faiss_ivf_nlists", "faiss_ivf_nprobe",
    "faiss_ivf_batch"]

inductive Malformed (argv : List String) : Prop where
  | repeated (h : ¬ (options argv).Nodup)
  | unknown (h : ∃ option ∈ options argv, ∀ key ∈ knownKeys, option ≠ "--" ++ key)
  | valueless (h : argv.length % 2 = 1)
  | noDataset (h : "--dataset" ∉ options argv)

/-- The counts that a data set has defaults for. -/
def counts : List (String × (BenchmarkConfig → SizeT)) :=
  [("dim", (·.vectorDim)), ("n_base", (·.nBaseVectors)), ("n_learn", (·.nLearnVectors)),
    ("n_query", (·.nQueryVectors)), ("k", (·.k)), ("kgt", (·.kInGt))]

section Order

variable {pairs pairs' arguments : List (String × String)}

theorem toArgv_eq_iff : toArgv pairs = arguments.flatMap onCommandLine ↔
    List.Forall₂ (fun p a => p = ("--" ++ a.1, a.2)) pairs arguments := by
  induction pairs generalizing arguments with
  | nil =>
    rw [List.forall₂_nil_left_iff]
    constructor
    · intro h
      cases arguments with
      | nil => rfl
      | cons a tail => cases h
    · rintro rfl
      rfl
  | cons p pairs ih =>
    have hcons : toArgv (p :: pairs) = p.1 :: p.2 :: toArgv pairs := rfl
    rw [hcons, cons_cons_eq_flatMap]
    constructor
    · rintro ⟨key, tail, hoption, rfl, hrest⟩
      exact .cons (Prod.ext hoption rfl) (ih.mp hrest)
    · intro h
      cases h with
      | @cons _ a _ tail hp htail =>
        exact ⟨a.1, tail, congrArg Prod.fst hp, by rw [hp], ih.mpr htail⟩

/-- The arguments are permuted with the pairs. -/
theorem Reads.perm (h : Reads (toArgv pairs) arguments) (hperm : pairs.Perm pairs') :
    ∃ arguments', arguments'.Perm arguments ∧ Reads (toArgv pairs') arguments' := by
  obtain ⟨arguments', hforall, hperm'⟩ :=
    List.perm_comp_forall₂ hperm.symm (toArgv_eq_iff.mp h.argv)
  refine ⟨arguments', hperm', toArgv_eq_iff.mpr hforall, ?_, fun a ha => ?_⟩
  · exact (hperm'.map Prod.fst).nodup_iff.mpr h.keys
  · exact h.accepts a (hperm'.mem_iff.mp ha)

theorem sameResult_of_iff {o o' : Except String BenchmarkConfig}
    (h : ∀ config, o = .ok config ↔ o' = .ok config) : SameResult o o' := by
  cases o with
  | ok config => exact Or.inl ⟨config, rfl, (h config).mp rfl⟩
  | error e =>
    cases o' with
    | ok config => cases (h config).mpr rfl
    | error e' => exact Or.inr ⟨⟨e, rfl⟩, e', rfl⟩

theorem parseArgv_perm {iterate iterate' : List (String × String) → List (String × String)}
    (hiterate : ∀ l, (iterate l).Perm l) (hiterate' : ∀ l, (iterate' l).Perm l)
    (hperm : pairs.Perm pairs') {config : BenchmarkConfig}
    (h : parseArgv iterate (toArgv pairs) = .ok config) :
    parseArgv iterate' (toArgv pairs') = .ok config := by
  obtain ⟨arguments, dataset, hreads, hdataset, hvalidate⟩ := (parseArgv_eq_ok_iff hiterate).mp h
  obtain ⟨arguments', hperm', hreads'⟩ := hreads.perm hperm
  rw [given_perm hreads.keys hperm'.symm] at hvalidate
  exact (parseArgv_eq_ok_iff hiterate').mpr
    ⟨arguments', dataset, hreads', hperm'.mem_iff.mpr hdataset, hvalidate⟩

end Order

/-! ## What is given -/

section Given

variable {iterate : List (String × String) → List (String × String)} {argv : List String}
  {config : BenchmarkConfig} {arguments : List (String × String)}

/-- The paths leave the counts alone. -/
theorem setVectorPaths_count {count : String × (BenchmarkConfig → SizeT)} (h : count ∈ counts)
    (config : BenchmarkConfig) : count.2 (setVectorPaths config) = count.2 config := by
  simp only [counts, List.mem_cons, List.not_mem_nil, or_false] at h
  rcases h with rfl | rfl | rfl | rfl | rfl | rfl <;>
    cases hdataset : config.datasetType <;> simp only [setVectorPaths, hdataset]

theorem withArguments_count {count : String × (BenchmarkConfig → SizeT)} (h : count ∈ counts)
    (given : String → Option String) (config : BenchmarkConfig) :
    count.2 (withArguments given config) =
      (given count.1).elim (count.2 config) (readSize count.1) := by
  simp only [counts, List.mem_cons, List.not_mem_nil, or_false] at h
  rcases h with rfl | rfl | rfl | rfl | rfl | rfl <;> rfl

/-- A count is accepted if its value is a number. -/
theorem AcceptsArgument.parseSize {count : String × (BenchmarkConfig → SizeT)} (h : count ∈ counts)
    {value : String} (haccepts : AcceptsArgument (count.1, value)) :
    parseSize value count.1 = .ok (readSize count.1 value) := by
  obtain ⟨config, hconfig⟩ := haccepts
  have hread : ∀ {key : String} {f : SizeT → BenchmarkConfig},
      (Benchmark.parseSize value key).map f = .ok config →
        Benchmark.parseSize value key = .ok (readSize key value) := by
    intro key f hmap
    rw [readSize]
    cases hparse : Benchmark.parseSize value key with
    | error e =>
      rw [hparse] at hmap
      cases hmap
    | ok n => rfl
  simp only [counts, List.mem_cons, List.not_mem_nil, or_false] at h
  rcases h with rfl | rfl | rfl | rfl | rfl | rfl <;> exact hread hconfig

theorem AcceptsArgument.mem_knownKeys {a : String × String} (h : AcceptsArgument a) :
    a.1 ∈ knownKeys := by
  obtain ⟨config, hconfig⟩ := h
  obtain ⟨key, value⟩ := a
  simp only [applyArgument] at hconfig
  split at hconfig
  case h_28 => cases hconfig
  all_goals simp [knownKeys]

theorem Reads.options_eq (h : Reads argv arguments) :
    options argv = arguments.map fun a => "--" ++ a.1 := by
  rw [h.argv]
  clear h
  induction arguments with
  | nil => rfl
  | cons a tail ih => exact congrArg (("--" ++ a.1) :: ·) ih

theorem Reads.length_eq (h : Reads argv arguments) : argv.length = 2 * arguments.length := by
  rw [h.argv]
  clear h
  induction arguments with
  | nil => rfl
  | cons a tail ih =>
    rw [List.flatMap_cons, List.length_append, ih, List.length_cons,
      show (onCommandLine a).length = 2 from rfl]
    omega

theorem dashes_injective : Function.Injective fun key : String => "--" ++ key := by
  intro key key' h
  have hkey := optionKey_eq_some_iff.mpr (show "--" ++ key = "--" ++ key from rfl)
  rw [show "--" ++ key = "--" ++ key' from h, optionKey_eq_some_iff.mpr rfl] at hkey
  exact (Option.some.inj hkey).symm

theorem Malformed.throws (hiterate : ∀ l, (iterate l).Perm l) (h : Malformed argv) :
    ∃ e, parseArgv iterate argv = .error e := by
  cases hparse : parseArgv iterate argv with
  | error e => exact ⟨e, rfl⟩
  | ok config =>
    obtain ⟨arguments, dataset, hreads, hdataset, -⟩ := (parseArgv_eq_ok_iff hiterate).mp hparse
    have hoptions := hreads.options_eq
    exfalso
    cases h with
    | repeated hrepeated =>
      rw [hoptions] at hrepeated
      apply hrepeated
      have hkeys := hreads.keys.map dashes_injective
      rwa [List.map_map] at hkeys
    | unknown hunknown =>
      obtain ⟨option, hoption, hne⟩ := hunknown
      rw [hoptions] at hoption
      obtain ⟨a, ha, rfl⟩ := List.mem_map.mp hoption
      exact hne a.1 (hreads.accepts a ha).mem_knownKeys rfl
    | valueless hodd =>
      rw [hreads.length_eq] at hodd
      omega
    | noDataset hnone =>
      rw [hoptions] at hnone
      exact hnone (List.mem_map.mpr ⟨_, hdataset, rfl⟩)

/-- The pairs are the arguments with their dashes. -/
theorem Reads.pairs_eq {pairs : List (String × String)} (h : Reads (toArgv pairs) arguments) :
    pairs = arguments.map fun a => ("--" ++ a.1, a.2) := by
  rw [← List.forall₂_eq_eq_eq, List.forall₂_map_right_iff]
  exact toArgv_eq_iff.mp h.argv

theorem Reads.mem_iff {pairs : List (String × String)} (h : Reads (toArgv pairs) arguments)
    {key value : String} : ("--" ++ key, value) ∈ pairs ↔ (key, value) ∈ arguments := by
  rw [h.pairs_eq, List.mem_map]
  constructor
  · rintro ⟨⟨key', value'⟩, ha, heq⟩
    obtain ⟨hkey, rfl⟩ := Prod.mk.inj heq
    rwa [← dashes_injective hkey]
  · intro ha
    exact ⟨_, ha, rfl⟩

/-- The counts of the result. -/
theorem parseArgv_count (hiterate : ∀ l, (iterate l).Perm l) {pairs : List (String × String)}
    (h : parseArgv iterate (toArgv pairs) = .ok config) :
    ∃ arguments dataset, Reads (toArgv pairs) arguments ∧ ("--dataset", dataset) ∈ pairs ∧
      ∀ count ∈ counts, count.2 config =
        (given arguments count.1).elim (count.2 (defaults dataset)) (readSize count.1) := by
  obtain ⟨arguments, dataset, hreads, hdataset, hvalidate⟩ := (parseArgv_eq_ok_iff hiterate).mp h
  obtain ⟨rfl, -⟩ := validate_accepted hvalidate
  refine ⟨arguments, dataset, hreads, hreads.mem_iff.mpr hdataset, fun count hcount => ?_⟩
  rw [setVectorPaths_count hcount, withArguments_count hcount]

/-- A count that is given replaces the default. -/
theorem parseArgv_given (hiterate : ∀ l, (iterate l).Perm l) {pairs : List (String × String)}
    (h : parseArgv iterate (toArgv pairs) = .ok config)
    {count : String × (BenchmarkConfig → SizeT)} (hcount : count ∈ counts) {value : String}
    (hvalue : ("--" ++ count.1, value) ∈ pairs) :
    parseSize value count.1 = .ok (count.2 config) := by
  obtain ⟨arguments, dataset, hreads, -, hcounts⟩ := parseArgv_count hiterate h
  have harguments := hreads.mem_iff.mp hvalue
  rw [hcounts count hcount, (given_eq_some_iff hreads.keys).mpr harguments, Option.elim_some]
  exact (hreads.accepts _ harguments).parseSize hcount

/-- A count that is not given keeps it. -/
theorem parseArgv_default (hiterate : ∀ l, (iterate l).Perm l) {pairs : List (String × String)}
    (h : parseArgv iterate (toArgv pairs) = .ok config)
    {count : String × (BenchmarkConfig → SizeT)} (hcount : count ∈ counts)
    (hvalue : ∀ value, ("--" ++ count.1, value) ∉ pairs) :
    ∃ dataset, ("--dataset", dataset) ∈ pairs ∧ count.2 config = count.2 (defaults dataset) := by
  obtain ⟨arguments, dataset, hreads, hdataset, hcounts⟩ := parseArgv_count hiterate h
  have hnone : given arguments count.1 = none := by
    by_contra hsome
    obtain ⟨value, hgiven⟩ := Option.ne_none_iff_exists'.mp hsome
    exact hvalue value (hreads.mem_iff.mpr (mem_of_given hgiven))
  refine ⟨dataset, hdataset, ?_⟩
  rw [hcounts count hcount, hnone, Option.elim_none]

end Given

/-- The order of the pairs and of the map decides about nothing but which error is thrown,
what is given replaces the defaults, and a malformed command line is refused. -/
theorem parseArgv_order {iterate iterate' : List (String × String) → List (String × String)}
    (hiterate : ∀ l, (iterate l).Perm l) (hiterate' : ∀ l, (iterate' l).Perm l) :
    (∀ pairs pairs' : List (String × String), pairs.Perm pairs' →
        SameResult (parseArgv iterate (toArgv pairs)) (parseArgv iterate' (toArgv pairs'))) ∧
      (∀ pairs config, parseArgv iterate (toArgv pairs) = .ok config →
        ∀ count ∈ counts, ∀ value, ("--" ++ count.1, value) ∈ pairs →
          parseSize value count.1 = .ok (count.2 config)) ∧
      ∀ argv, Malformed argv → ∃ e, parseArgv iterate argv = .error e := by
  refine ⟨fun pairs pairs' hperm => ?_, fun pairs config h count hcount value hvalue => ?_,
    fun argv h => h.throws hiterate⟩
  · apply sameResult_of_iff
    intro config
    exact ⟨parseArgv_perm hiterate hiterate' hperm, parseArgv_perm hiterate' hiterate hperm.symm⟩
  · exact parseArgv_given hiterate h hcount hvalue

/-- The arguments of a small run. -/
def smallRun : List (String × String) :=
  [("--dim", "8"), ("--engine", "baseline"), ("--path", "/data"), ("--metrics", "m.json"),
    ("--distance", "squared_l2"), ("--dataset", "sift1m")]

theorem parseArgv_order_smallRun :
    ∃ config, parseArgv id (toArgv smallRun) = .ok config ∧
      parseArgv List.reverse (toArgv smallRun.reverse) = .ok config := by
  have horder := @parseArgv_order id List.reverse (fun _ => .refl _) fun l => l.reverse_perm
  rcases horder.1 smallRun smallRun.reverse smallRun.reverse_perm.symm with h | ⟨⟨e, he⟩, -⟩
  · exact h
  · have hok : (parseArgv id (toArgv smallRun)).toBool = true := by decide
    rw [he] at hok
    cases hok

end Spheres.Benchmark
