import Spheres.Library.SizeT

/-!
# The command line of the benchmark

`parse_argv` reads pairs of an option and a value, sets the defaults of the
dataset, lets every option overwrite its field and checks the result. The map of
the arguments is iterated in no particular order, here `iterate`; no two
arguments have the same key, so the order decides about the error that is
reported first and about nothing else.
-/

namespace Spheres.Benchmark

open Library

inductive DatasetType where
  | gist1M
  | sift1M
  | generated
  deriving DecidableEq

inductive DistanceType where
  | normalizedL2
  | squaredNormalizedL2
  | squaredL2
  deriving DecidableEq

structure BenchmarkConfig where
  engineName : String := ""
  engineMode : String := ""
  nThreads : SizeT := 4
  datasetType : DatasetType := .sift1M
  datasetPath : String := ""
  distanceType : DistanceType := .normalizedL2
  vectorDim : SizeT := 0
  nBaseVectors : SizeT := 0
  nQueryVectors : SizeT := 0
  nLearnVectors : SizeT := 0
  k : SizeT := 0
  kInGt : SizeT := 0
  metricsPath : String := ""
  indexPath : String := ""
  reuseIndex : Bool := false
  baseVectorPath : String := ""
  queryVectorPath : String := ""
  gtVectorPath : String := ""
  learnVectorPath : String := ""
  spheresPageSize : SizeT := 8 * 1024 * 1024
  spheresFileSize : SizeT := 256 * 1024 * 1024
  spheresNPagesToProbe : SizeT := 0
  spheresLocalBufferSize : SizeT := 30000
  spheresMorselStep : SizeT := 1
  faissHnswM : SizeT := 16
  faissHnswEfsearch : SizeT := 200
  faissHnswEfconstruction : SizeT := 128
  faissLshNbits : SizeT := 256
  faissIvfflatNlists : SizeT := 4000
  faissIvfflatNprobe : SizeT := 100
  faissIvfflatIngestBatchSize : SizeT := 10000
  deriving DecidableEq

def parseDatasetType (value : String) : DatasetType :=
  if value = "sift1m" then .sift1M else if value = "gist1m" then .gist1M else .generated

def parseDistanceType (value : String) : Except String DistanceType :=
  if value = "norml2" then .ok .normalizedL2
  else if value = "squared_norml2" then .ok .squaredNormalizedL2
  else if value = "squared_l2" then .ok .squaredL2
  else .error ("invalid value for " ++ value)

def makeBenchmarkWithDefaultParams (config : BenchmarkConfig) : BenchmarkConfig :=
  match config.datasetType with
  | .gist1M => { config with
      k := 100, kInGt := 100, vectorDim := 960, nBaseVectors := 1000000
      nQueryVectors := 1000, nLearnVectors := 500000 }
  | .sift1M => { config with
      k := 100, kInGt := 100, vectorDim := 128, nBaseVectors := 1000000
      nQueryVectors := 10000, nLearnVectors := 100000 }
  | .generated => { config with
      k := 100, kInGt := 100, vectorDim := 128, nBaseVectors := 10000000
      nQueryVectors := 10000, nLearnVectors := 100000 }

/-- `std::from_chars` over the whole value: decimal digits only, at least one, and
a number that the type can hold. -/
def parseSize (value option : String) : Except String SizeT :=
  let digits := value.toList
  let result := digits.foldl (fun n c => 10 * n + (c.toNat - '0'.toNat)) 0
  if digits ≠ [] ∧ digits.all Char.isDigit ∧ result < SizeT.size then .ok (.ofNat result)
  else .error ("invalid unsigned integer for --" ++ option)

/-- The key of an option that starts with `--`. -/
def optionKey (option : String) : Option String :=
  match option.toList with
  | '-' :: '-' :: key => some (String.ofList key)
  | _ => none

/-- The loop over the arguments. -/
def readArguments : List String → List (String × String) → Except String (List (String × String))
  | [], arguments => .ok arguments
  | [option], _ => match optionKey option with
    | none => .error ("expected an option beginning with --, got: " ++ option)
    | some _ => .error ("missing value for option: " ++ option)
  | option :: value :: rest, arguments => match optionKey option with
    | none => .error ("expected an option beginning with --, got: " ++ option)
    | some key =>
      if arguments.any fun argument => argument.1 = key then
        .error ("duplicate option: --" ++ key)
      else readArguments rest (arguments ++ [(key, value)])

/-- The body of the loop over the map of the arguments. -/
def applyArgument (config : BenchmarkConfig) : String × String → Except String BenchmarkConfig
  | (key, value) =>
    match key with
    | "dataset" => .ok config
    | "engine" => .ok { config with engineName := value }
    | "mode" => .ok { config with engineMode := value }
    | "n_threads" => (parseSize value key).map fun n => { config with nThreads := n }
    | "path" => .ok { config with datasetPath := value }
    | "distance" => (parseDistanceType value).map fun d => { config with distanceType := d }
    | "dim" => (parseSize value key).map fun n => { config with vectorDim := n }
    | "n_base" => (parseSize value key).map fun n => { config with nBaseVectors := n }
    | "n_learn" => (parseSize value key).map fun n => { config with nLearnVectors := n }
    | "n_query" => (parseSize value key).map fun n => { config with nQueryVectors := n }
    | "k" => (parseSize value key).map fun n => { config with k := n }
    | "kgt" => (parseSize value key).map fun n => { config with kInGt := n }
    | "metrics" => .ok { config with metricsPath := value }
    | "index" => .ok { config with indexPath := value }
    | "reuse_index" => .ok { config with reuseIndex := value = "1" }
    | "spheres_page_size" =>
      (parseSize value key).map fun n => { config with spheresPageSize := n }
    | "spheres_file_size" =>
      (parseSize value key).map fun n => { config with spheresFileSize := n }
    | "spheres_n_ppage" =>
      (parseSize value key).map fun n => { config with spheresNPagesToProbe := n }
    | "spheres_buf_size" =>
      (parseSize value key).map fun n => { config with spheresLocalBufferSize := n }
    | "spheres_morsel" =>
      (parseSize value key).map fun n => { config with spheresMorselStep := n }
    | "faiss_hnsw_m" => (parseSize value key).map fun n => { config with faissHnswM := n }
    | "faiss_hnsw_search" =>
      (parseSize value key).map fun n => { config with faissHnswEfsearch := n }
    | "faiss_hnsw_con" =>
      (parseSize value key).map fun n => { config with faissHnswEfconstruction := n }
    | "faiss_lsh_nb" => (parseSize value key).map fun n => { config with faissLshNbits := n }
    | "faiss_ivf_nlists" =>
      (parseSize value key).map fun n => { config with faissIvfflatNlists := n }
    | "faiss_ivf_nprobe" =>
      (parseSize value key).map fun n => { config with faissIvfflatNprobe := n }
    | "faiss_ivf_batch" =>
      (parseSize value key).map fun n => { config with faissIvfflatIngestBatchSize := n }
    | _ => .error ("unknown option: --" ++ key)

/-- `operator/` of `std::filesystem::path` with a file name. -/
def pathAppend (path file : String) : String :=
  if path.toList.getLast?.all (· = '/') then path ++ file else path ++ "/" ++ file

/-- The switch that sets the paths of the data files. -/
def setVectorPaths (config : BenchmarkConfig) : BenchmarkConfig :=
  match config.datasetType with
  | .gist1M => { config with
      baseVectorPath := pathAppend config.datasetPath "gist_base.fvecs"
      queryVectorPath := pathAppend config.datasetPath "gist_query.fvecs"
      gtVectorPath := pathAppend config.datasetPath "gist_groundtruth.ivecs"
      learnVectorPath := pathAppend config.datasetPath "gist_learn.fvecs" }
  | .sift1M => { config with
      baseVectorPath := pathAppend config.datasetPath "sift_base.fvecs"
      queryVectorPath := pathAppend config.datasetPath "sift_query.fvecs"
      gtVectorPath := pathAppend config.datasetPath "sift_groundtruth.ivecs"
      learnVectorPath := pathAppend config.datasetPath "sift_learn.fvecs" }
  | .generated => { config with
      baseVectorPath := config.datasetPath ++ "base.fvecs"
      queryVectorPath := config.datasetPath ++ "query.fvecs"
      gtVectorPath := config.datasetPath ++ "groundtruth.ivecs"
      learnVectorPath := config.datasetPath ++ "learn.fvecs" }

/-- The checks that a configuration has to pass. -/
def validate (config : BenchmarkConfig) : Except String BenchmarkConfig :=
  if config.engineName = "" then .error "missing option: --engine"
  else if config.datasetPath = "" then .error "missing option: --path"
  else if config.metricsPath = "" then .error "missing option: --metrics"
  else if config.engineName ≠ "baseline" ∧ config.engineName ≠ "pgvector" ∧
      config.indexPath = "" then .error "missing option: --index"
  else if config.nThreads = 0 ∨ config.vectorDim = 0 ∨ config.nBaseVectors = 0 ∨
      config.nQueryVectors = 0 ∨ config.k = 0 ∨ config.k > config.kInGt ∨
      config.k > config.nBaseVectors then
    .error "invalid zero/count/k benchmark configuration"
  else if config.distanceType ≠ .squaredL2 then
    .error "current engine harnesses require --distance squared_l2"
  else .ok config

/-- `parse_argv` on the arguments after the name of the program. -/
def parseArgv (iterate : List (String × String) → List (String × String)) (argv : List String) :
    Except String BenchmarkConfig := do
  let arguments ← readArguments argv []
  match arguments.find? fun argument => argument.1 = "dataset" with
  | none => .error "missing option: --dataset"
  | some dataset =>
    let config := makeBenchmarkWithDefaultParams { datasetType := parseDatasetType dataset.2 }
    let config ← (iterate arguments).foldlM applyArgument config
    validate (setVectorPaths config)

/-- What an accepted configuration is known to satisfy. -/
structure Accepted (config : BenchmarkConfig) : Prop where
  nThreads : config.nThreads ≠ 0
  vectorDim : config.vectorDim ≠ 0
  nBaseVectors : config.nBaseVectors ≠ 0
  nQueryVectors : config.nQueryVectors ≠ 0
  k : config.k ≠ 0 ∧ config.k ≤ config.kInGt ∧ config.k ≤ config.nBaseVectors
  distanceType : config.distanceType = .squaredL2

theorem validate_accepted {config config' : BenchmarkConfig}
    (h : validate config = .ok config') : config' = config ∧ Accepted config := by
  unfold validate at h
  split_ifs at h with _ _ _ _ hcounts hdistance
  obtain rfl := Except.ok.inj h
  simp only [not_or, UInt64.not_lt, gt_iff_lt] at hcounts
  obtain ⟨hThreads, hDim, hBase, hQuery, hk⟩ := hcounts
  exact ⟨rfl, hThreads, hDim, hBase, hQuery, hk, not_not.mp hdistance⟩

theorem parseArgv_accepted {iterate : List (String × String) → List (String × String)}
    {argv : List String} {config : BenchmarkConfig} (h : parseArgv iterate argv = .ok config) :
    Accepted config := by
  simp only [parseArgv, bind, Except.bind] at h
  split at h
  · cases h
  split at h
  · cases h
  split at h
  · cases h
  · obtain ⟨rfl, haccepted⟩ := validate_accepted h
    exact haccepted

/-- The defaults of every dataset pass the check of the counts. -/
theorem makeBenchmarkWithDefaultParams_counts (datasetType : DatasetType) :
    let config := makeBenchmarkWithDefaultParams { datasetType }
    config.nThreads ≠ 0 ∧ config.vectorDim ≠ 0 ∧ config.nBaseVectors ≠ 0 ∧
      config.nQueryVectors ≠ 0 ∧ config.k ≠ 0 ∧ config.k ≤ config.kInGt ∧
      config.k ≤ config.nBaseVectors := by
  cases datasetType <;> decide

end Spheres.Benchmark
