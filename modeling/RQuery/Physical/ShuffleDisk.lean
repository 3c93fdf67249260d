import RQuery.Physical.ShuffleRoundTrip
import RQuery.Common.FileTree

/-!
# Shuffle files on disk

`ShuffleManager` composes the path of a partition file from its base directory, the job's id, the
stage and the partition, and takes any string for an id. Ids are confined when their directories are
paths without `..` into the base directory (`Confines`). Every run of calls on confined ids is
isolated (`RunIsolated`) exactly when no directory of an id is in that of another
(`Confines.runIsolated_iff`): the invariant is `Stores`, that the files below the base directory are
those last written, with one lemma per call. An id such as `..` lets a job delete what is not its own
(`not_runIsolated_escaping`).
-/

namespace RQuery

open FilePath

/-! ## Names -/

/-- An `i32` in decimal. -/
def decimal (n : Int32) : String := toString n.toInt

/-- A number is written with digits and a sign. -/
theorem decimal_chars (n : Int32) : ∀ c ∈ (decimal n).toList, c.isDigit ∨ c = '-' := by
  have hdigits : ∀ m : ℕ, ∀ c ∈ m.repr.toList, c.isDigit := fun m c hc => by
    rw [Nat.toList_repr] at hc
    exact Nat.isDigit_of_mem_toDigits (by decide) (by decide) hc
  intro c hc
  unfold decimal at hc
  cases hn : n.toInt with
  | ofNat m =>
    rw [hn] at hc
    exact .inl (hdigits m c hc)
  | negSucc m =>
    rw [hn, show toString (Int.negSucc m) = "-" ++ (m + 1).repr from rfl, String.toList_append,
      List.mem_append] at hc
    obtain hc | hc := hc
    · exact .inr (by simpa using hc)
    · exact .inl (hdigits _ c hc)

/-- A number has a digit. -/
theorem decimal_ne_empty (n : Int32) : (decimal n).toList ≠ [] := by
  have hrepr : ∀ m : ℕ, m.repr.toList ≠ [] := fun m => by
    rw [Nat.toList_repr]
    exact Nat.toDigits_ne_nil
  unfold decimal
  cases n.toInt with
  | ofNat m => exact hrepr m
  | negSucc m =>
    rw [show toString (Int.negSucc m) = "-" ++ (m + 1).repr from rfl, String.toList_append]
    exact fun h => hrepr _ (List.append_eq_nil_iff.mp h).2

/-- Different numbers are written differently. -/
theorem decimal_injective {m n : Int32} (h : decimal m = decimal n) : m = n := by
  have hinteger : ∀ i : ℤ, Text.parseInteger (toString i) = some i := by
    intro i
    cases i with
    | ofNat k => exact Text.parseInteger_repr k
    | negSucc k =>
      rw [show toString (Int.negSucc k) = "-" ++ (k + 1).repr from rfl, Text.parseInteger,
        String.toList_append, show "-".toList = ['-'] from rfl, List.singleton_append]
      show (Text.parseDigits (k + 1).repr.toList).map _ = _
      rw [Text.parseDigits_repr]
      rfl
  have heq := congrArg Text.parseInteger h
  rw [decimal, decimal, hinteger, hinteger, Option.some.injEq] at heq
  exact Int32.toInt_inj.mp heq

/-- A number is a single piece of a path. -/
theorem pieces_decimal (n : Int32) : pieces (decimal n) = [decimal n] := by
  rw [pieces, split_eq_singleton (decimal_ne_empty n), String.ofList_toList]
  intro h
  obtain h | h := decimal_chars n _ h
  · exact absurd h (by decide)
  · exact absurd h (by decide)

/-- A number is neither of the dots that a path walks by. -/
theorem decimal_not_dots (n : Int32) : decimal n ≠ "." ∧ decimal n ≠ ".." := by
  have hdot : '.' ∉ (decimal n).toList := fun h => by
    obtain h | h := decimal_chars n _ h
    · exact absurd h (by decide)
    · exact absurd h (by decide)
  exact ⟨fun h => hdot (by rw [h]; decide), fun h => hdot (by rw [h]; decide)⟩

/-- A number does not begin a path at the root. -/
theorem isAbsolute_decimal (n : Int32) : isAbsolute (decimal n) = false := by
  obtain ⟨c, cs, hcs⟩ := List.exists_cons_of_ne_nil (decimal_ne_empty n)
  have hc := decimal_chars n c (by simp [hcs])
  rw [isAbsolute, hcs, List.head?_cons, decide_eq_false_iff_not, Option.some.injEq]
  rintro rfl
  exact absurd hc (by decide)

def partitionName (partitionId : Int32) : String := "partition_" ++ decimal partitionId ++ ".arrow"

/-- The characters of a partition's name. -/
theorem partitionName_toList (n : Int32) : (partitionName n).toList =
    "partition_".toList ++ (decimal n).toList ++ ".arrow".toList := by
  rw [partitionName, String.toList_append, String.toList_append]

/-- Different partitions have different names. -/
theorem partitionName_injective {m n : Int32} (h : partitionName m = partitionName n) : m = n := by
  have hlist := congrArg String.toList h
  rw [partitionName_toList, partitionName_toList] at hlist
  exact decimal_injective
    (String.toList_inj.mp (List.append_cancel_left (List.append_cancel_right hlist)))

/-- The name of a partition is no dots. -/
theorem partitionName_not_dot (n : Int32) : partitionName n ≠ "." ∧ partitionName n ≠ ".." := by
  have hhead : (partitionName n).toList.head? = some 'p' := by
    rw [partitionName_toList]
    rfl
  exact ⟨fun h => by rw [h] at hhead; exact absurd hhead (by decide),
    fun h => by rw [h] at hhead; exact absurd hhead (by decide)⟩

/-- The name of a partition does not begin a path at the root. -/
theorem isAbsolute_partitionName (n : Int32) : isAbsolute (partitionName n) = false := by
  rw [isAbsolute, partitionName_toList]
  rfl

/-- The name of a partition is a single piece of a path. -/
theorem pieces_partitionName (n : Int32) : pieces (partitionName n) = [partitionName n] := by
  rw [pieces, split_eq_singleton, String.ofList_toList]
  · rw [partitionName_toList]
    simp
  · rw [partitionName_toList]
    intro h
    simp only [List.mem_append] at h
    obtain (h | h) | h := h
    · exact absurd h (by decide)
    · obtain h | h := decimal_chars n _ h
      · exact absurd h (by decide)
      · exact absurd h (by decide)
    · exact absurd h (by decide)

/-! ## Paths -/

/-- `ShuffleManager`, with the paths that it composes. -/
structure ShuffleDisk where
  baseDir : String

namespace ShuffleDisk

section

variable (m : ShuffleDisk)

def jobDir (jobUuid : String) : String := join m.baseDir jobUuid

/-- Directory for one job and stage. -/
def partitionDir (jobUuid : String) (stageId : Int32) : String :=
  join (m.jobDir jobUuid) (decimal stageId)

/-- Path of a shuffle partition file. -/
def partitionFile (file : PartitionFile) : String :=
  join (m.partitionDir file.jobUuid file.stageId) (partitionName file.partitionId)

/-- Where the directory of a stage is. -/
def stagePlace (jobUuid : String) (stageId : Int32) : List String :=
  components (m.jobDir jobUuid) ++ [decimal stageId]

/-- Where a partition file is. -/
def filePlace (file : PartitionFile) : List String :=
  m.stagePlace file.jobUuid file.stageId ++ [partitionName file.partitionId]

end

variable {m : ShuffleDisk} {jobs : Set String}

/-- The directories of the ids are paths without `..` into the base directory. -/
structure Confines (m : ShuffleDisk) (jobs : Set String) : Prop where
  base_absolute : isAbsolute m.baseDir
  base_plain : ".." ∉ pieces m.baseDir
  plain : ∀ j ∈ jobs, ".." ∉ pieces (m.jobDir j)
  inside : ∀ j ∈ jobs, components m.baseDir <+: components (m.jobDir j)

/-- Of two ids, the directory of neither is in that of the other. -/
structure Isolates (m : ShuffleDisk) (jobs : Set String) : Prop extends m.Confines jobs where
  apart : ∀ j ∈ jobs, ∀ k ∈ jobs, components (m.jobDir j) <+: components (m.jobDir k) → j = k

/-- The directory of a job is below the manager's own, which is absolute. -/
theorem Confines.isAbsolute_jobDir (h : m.Confines jobs) (jobUuid : String) :
    isAbsolute (m.jobDir jobUuid) := by
  rw [jobDir]
  cases hj : isAbsolute jobUuid with
  | true => rwa [join, if_pos hj]
  | false => rw [isAbsolute_join hj]; exact h.base_absolute

/-- The directory of a stage is one piece below that of its job. -/
theorem pieces_partitionDir (jobUuid : String) (stageId : Int32) :
    pieces (m.partitionDir jobUuid stageId) = pieces (m.jobDir jobUuid) ++ [decimal stageId] := by
  rw [partitionDir, pieces_join (isAbsolute_decimal stageId), pieces_decimal]

/-- The directory of a stage is at the stage's place. -/
theorem components_partitionDir (jobUuid : String) (stageId : Int32) :
    components (m.partitionDir jobUuid stageId) = m.stagePlace jobUuid stageId := by
  rw [components, pieces_partitionDir, names_append, names_cons (decimal_not_dots stageId).1,
    names_nil]
  rfl

/-- The file of a partition is one piece below the directory of its stage. -/
theorem pieces_partitionFile (file : PartitionFile) : pieces (m.partitionFile file) =
    pieces (m.partitionDir file.jobUuid file.stageId) ++ [partitionName file.partitionId] := by
  rw [partitionFile, pieces_join (isAbsolute_partitionName _), pieces_partitionName]

/-- The file of a partition is at the partition's place. -/
theorem components_partitionFile (file : PartitionFile) :
    components (m.partitionFile file) = m.filePlace file := by
  rw [components, pieces_partitionFile, names_append, names_cons (partitionName_not_dot _).1,
    names_nil, ← components, components_partitionDir]
  rfl

/-- The directory of a stage is found from everywhere. -/
theorem Confines.isAbsolute_partitionDir (h : m.Confines jobs) (jobUuid : String)
    (stageId : Int32) : isAbsolute (m.partitionDir jobUuid stageId) := by
  rw [partitionDir, isAbsolute_join (isAbsolute_decimal stageId)]
  exact h.isAbsolute_jobDir jobUuid

/-- The file of a partition is found from everywhere. -/
theorem Confines.isAbsolute_partitionFile (h : m.Confines jobs) (file : PartitionFile) :
    isAbsolute (m.partitionFile file) := by
  rw [partitionFile, isAbsolute_join (isAbsolute_partitionName _)]
  exact h.isAbsolute_partitionDir _ _

/-- The path to a stage of a confined job goes down only. -/
theorem Confines.plain_partitionDir (h : m.Confines jobs) {jobUuid : String}
    (hj : jobUuid ∈ jobs) (stageId : Int32) : ".." ∉ pieces (m.partitionDir jobUuid stageId) := by
  rw [pieces_partitionDir, List.mem_append, List.mem_singleton]
  rintro (hmem | heq)
  · exact h.plain _ hj hmem
  · exact (decimal_not_dots stageId).2 heq.symm

/-- The path to a partition of a confined job goes down only. -/
theorem Confines.plain_partitionFile (h : m.Confines jobs) {file : PartitionFile}
    (hj : file.jobUuid ∈ jobs) : ".." ∉ pieces (m.partitionFile file) := by
  rw [pieces_partitionFile, List.mem_append, List.mem_singleton]
  rintro (hmem | heq)
  · exact h.plain_partitionDir hj _ hmem
  · exact (partitionName_not_dot _).2 heq.symm

/-- The directory of a job is above its files and stages only. -/
theorem Isolates.eq_of_above (h : m.Isolates jobs) {j k : String} (hj : j ∈ jobs) (hk : k ∈ jobs)
    {q : List String} (hjq : components (m.jobDir j) <+: q) (hkq : components (m.jobDir k) <+: q) :
    j = k := by
  obtain hjk | hkj := List.prefix_or_prefix_of_prefix hjq hkq
  · exact h.apart j hj k hk hjk
  · exact (h.apart k hk j hj hkj).symm

/-- A stage is placed below its job. -/
theorem jobDir_above_stagePlace (jobUuid : String) (stageId : Int32) :
    components (m.jobDir jobUuid) <+: m.stagePlace jobUuid stageId := List.prefix_append _ _

/-- A partition is placed below its job. -/
theorem jobDir_above_filePlace (file : PartitionFile) :
    components (m.jobDir file.jobUuid) <+: m.filePlace file :=
  (jobDir_above_stagePlace _ _).trans (List.prefix_append _ _)

/-- Stages are one level below their jobs. -/
theorem stagePlace_length (jobUuid : String) (stageId : Int32) :
    (m.stagePlace jobUuid stageId).length = (components (m.jobDir jobUuid)).length + 1 := by
  rw [stagePlace, List.length_append, List.length_singleton]

/-- Partitions are two levels below their jobs. -/
theorem filePlace_length (file : PartitionFile) :
    (m.filePlace file).length = (components (m.jobDir file.jobUuid)).length + 2 := by
  rw [filePlace, List.length_append, stagePlace_length, List.length_singleton]

/-- No file is where a directory of a stage is, or above it. -/
theorem Isolates.filePlace_not_above (h : m.Isolates jobs) {file : PartitionFile}
    (hfile : file.jobUuid ∈ jobs) {j : String} (hj : j ∈ jobs) (stageId : Int32) :
    ¬ m.filePlace file <+: m.stagePlace j stageId := by
  intro habove
  obtain rfl := h.eq_of_above hfile hj ((jobDir_above_filePlace file).trans habove)
    (jobDir_above_stagePlace _ _)
  have hlen := habove.length_le
  rw [filePlace_length, stagePlace_length] at hlen
  omega

/-- Partitions of isolated jobs have places of their own. -/
theorem Isolates.filePlace_injective (h : m.Isolates jobs) {file file' : PartitionFile}
    (hfile : file.jobUuid ∈ jobs) (hfile' : file'.jobUuid ∈ jobs)
    (heq : m.filePlace file = m.filePlace file') : file = file' := by
  have habove : components (m.jobDir file'.jobUuid) <+: m.filePlace file := by
    rw [heq]
    exact jobDir_above_filePlace file'
  have hjob := h.eq_of_above hfile hfile' (jobDir_above_filePlace file) habove
  rw [filePlace, filePlace, stagePlace, stagePlace] at heq
  obtain ⟨hstage, hname⟩ := List.append_inj' heq (by simp)
  obtain ⟨-, hdecimal⟩ := List.append_inj' hstage (by simp)
  have hstageId := decimal_injective (List.singleton_inj.mp hdecimal)
  have hpartitionId := partitionName_injective (List.singleton_inj.mp hname)
  cases file
  cases file'
  exact PartitionFile.mk.injEq .. ▸ ⟨hjob, hstageId, hpartitionId⟩

end ShuffleDisk

/-! ## The manager -/

section

variable [FloatModel]

/-- The file system of an executor: a partition file holds the batches written to it. -/
abbrev ShuffleFiles := FileTree (List RecordBatch)

/-- One call on a `ShuffleManager`. -/
inductive ShuffleCall
  | writePartition (file : PartitionFile) (batches : List RecordBatch)
  | readPartition (file : PartitionFile)
  | cleanupJob (jobUuid : String)
  | cleanupAll

namespace ShuffleDisk

variable (m : ShuffleDisk)

/-- Write a partition's batches. What was made before a failure stays. -/
def writePartition (file : PartitionFile) (batches : List RecordBatch) (t : ShuffleFiles) :
    ShuffleFiles × Result Unit :=
  if batches.isEmpty then (t, .ok ⟨⟩)
  else
    match t.createDirAll (m.partitionDir file.jobUuid file.stageId) with
    | (t', some _) =>
      (t', .error (.inputOutput (m.partitionDir file.jobUuid file.stageId)))
    | (t', none) =>
      match t'.createFile (m.partitionFile file) batches with
      | .ok t'' => (t'', .ok ⟨⟩)
      | .error _ => (t', .error (.inputOutput (m.partitionFile file)))

/-- Read a partition's batches. -/
def readPartition (file : PartitionFile) (t : ShuffleFiles) : Result (List RecordBatch) :=
  match t.lookup (m.partitionFile file) with
  | some (.file batches) => .ok batches
  | _ => .error (.inputOutput (m.partitionFile file))

/-- Remove a directory, if it exists. -/
def cleanupDir (dir : String) (t : ShuffleFiles) : ShuffleFiles :=
  if (t.lookup dir).isSome then t.removeDirAll dir else t

def cleanupJob (jobUuid : String) (t : ShuffleFiles) : ShuffleFiles :=
  cleanupDir (m.jobDir jobUuid) t

def cleanupAll (t : ShuffleFiles) : ShuffleFiles := cleanupDir m.baseDir t

/-- What a call leaves on disk, and what it returns. -/
def call (t : ShuffleFiles) : ShuffleCall → ShuffleFiles × Result (List RecordBatch)
  | .writePartition file batches =>
    ((m.writePartition file batches t).1, (fun _ => []) <$> (m.writePartition file batches t).2)
  | .readPartition file => (t, m.readPartition file t)
  | .cleanupJob jobUuid => (m.cleanupJob jobUuid t, .ok [])
  | .cleanupAll => (m.cleanupAll t, .ok [])

/-- The files after a run of calls. -/
def run (calls : List ShuffleCall) (t : ShuffleFiles) : ShuffleFiles :=
  calls.foldl (fun t c => (m.call t c).1) t

end ShuffleDisk

/-! ## What the calls say -/

namespace ShuffleCall

/-- The job that a call is on. -/
def jobUuid? : ShuffleCall → Option String
  | writePartition file _ => some file.jobUuid
  | readPartition file => some file.jobUuid
  | cleanupJob jobUuid => some jobUuid
  | cleanupAll => none

/-- What a call makes of the batches last written. -/
def update (found : PartitionFile → Option (List RecordBatch)) :
    ShuffleCall → PartitionFile → Option (List RecordBatch)
  | writePartition file batches, f => if f = file ∧ batches ≠ [] then some batches else found f
  | readPartition _, f => found f
  | cleanupJob jobUuid, f => if f.jobUuid = jobUuid then none else found f
  | cleanupAll, _ => none

/-- The batches of the last write to every file that was not empty, since it was cleaned up. -/
def lastWritten (calls : List ShuffleCall) : PartitionFile → Option (List RecordBatch) :=
  calls.foldl update fun _ => none

/-- A call on a job says nothing of the others. -/
theorem update_of_ne {found : PartitionFile → Option (List RecordBatch)} {c : ShuffleCall}
    {jobUuid : String} (hc : c.jobUuid? = some jobUuid) {file : PartitionFile}
    (hfile : file.jobUuid ≠ jobUuid) : c.update found file = found file := by
  cases c with
  | writePartition f batches =>
    cases hc
    exact if_neg fun h => hfile (congrArg PartitionFile.jobUuid h.1)
  | readPartition f => rfl
  | cleanupJob j =>
    cases hc
    exact if_neg hfile
  | cleanupAll => cases hc

end ShuffleCall

/-! ## The map of files -/

namespace ShuffleManager

/-- A call on the map of files. -/
def call (m : ShuffleManager) : ShuffleCall → ShuffleManager
  | .writePartition file batches => m.writePartition file batches
  | .readPartition _ => m
  | .cleanupJob jobUuid => ⟨m.files.filter fun entry => entry.1.jobUuid ≠ jobUuid⟩
  | .cleanupAll => empty

/-- The record of the files written is updated by a call as the manager's map is. -/
theorem file?_call (m : ShuffleManager) (c : ShuffleCall) :
    (m.call c).file? = ShuffleCall.update m.file? c := by
  funext f
  cases c with
  | writePartition file batches =>
    by_cases hbatches : batches = []
    · subst hbatches
      exact (if_neg fun h => h.2 rfl).symm
    · by_cases heq : f = file
      · subst heq
        exact (file?_writePartition_self hbatches).trans (if_pos ⟨rfl, hbatches⟩).symm
      · exact (file?_writePartition_ne heq).trans (if_neg fun h => heq h.1).symm
  | readPartition _ => rfl
  | cleanupJob jobUuid =>
    -- Of a job that is cleaned up no file is left.
    show Option.map Prod.snd (List.find? _ (List.filter _ m.files)) = if f.jobUuid = jobUuid then none
      else Option.map Prod.snd (List.find? _ m.files)
    rw [List.find?_filter]
    split
    · rename_i heq
      rw [List.find?_eq_none.mpr, Option.map_none]
      rintro entry - h
      simp only [decide_eq_true_eq] at h
      exact h.1 (h.2 ▸ heq)
    · rename_i hne
      congr 2
      funext entry
      by_cases hentry : entry.1 = f
      · simp [hentry, hne]
      · simp [hentry]
  | cleanupAll => rfl

/-- The map of files holds what the calls say. -/
theorem file?_calls (calls : List ShuffleCall) :
    (calls.foldl call empty).file? = ShuffleCall.lastWritten calls := by
  have hrun : ∀ m : ShuffleManager,
      (calls.foldl call m).file? = calls.foldl ShuffleCall.update m.file? := by
    induction calls with
    | nil => exact fun m => rfl
    | cons c rest ih => exact fun m => (ih (m.call c)).trans (by rw [file?_call]; rfl)
  exact hrun empty

end ShuffleManager

namespace ShuffleDisk

open FileTree

variable {m : ShuffleDisk} {jobs : Set String}

/-! ## What is on disk -/

/-- The base directory has a directory above it, is no file, and nothing is in it. -/
structure Mounted (m : ShuffleDisk) (world : ShuffleFiles) : Prop where
  above : ∀ q, q <+: components m.baseDir → q ≠ components m.baseDir → world.node q = some .dir
  base : ∀ c, world.node (components m.baseDir) ≠ some (.file c)
  below : ∀ q, components m.baseDir <+: q → q ≠ components m.baseDir → world.node q = none

/-- Below the base directory are the files last written and the directories of stages, and outside
of it is what was there before. -/
structure Stores (m : ShuffleDisk) (jobs : Set String) (world : ShuffleFiles)
    (found : PartitionFile → Option (List RecordBatch)) (t : ShuffleFiles) : Prop where
  outside : ∀ q, ¬ components m.baseDir <+: q → t.node q = world.node q
  files : ∀ q c, components m.baseDir <+: q → t.node q = some (.file c) →
    ∃ file, file.jobUuid ∈ jobs ∧ q = m.filePlace file ∧ found file = some c
  stored : ∀ file c, file.jobUuid ∈ jobs → found file = some c →
    t.node (m.filePlace file) = some (.file c)
  dirs : ∀ q, components m.baseDir <+: q → q ≠ components m.baseDir → t.node q = some .dir →
    ∃ j ∈ jobs, ∃ s, q <+: m.stagePlace j s

variable {world t : ShuffleFiles} {found : PartitionFile → Option (List RecordBatch)}

/-- Above the directory of a stage is no file. -/
theorem Stores.not_file (h : m.Stores jobs world found t) (hjobs : m.Isolates jobs)
    (hworld : m.Mounted world) {j : String} (hj : j ∈ jobs) (stageId : Int32) {q : List String}
    (hq : q <+: m.stagePlace j stageId) (c : List RecordBatch) : t.node q ≠ some (.file c) := by
  intro hnode
  by_cases hbase : components m.baseDir <+: q
  · obtain ⟨file, hfile, rfl, -⟩ := h.files q c hbase hnode
    exact hjobs.filePlace_not_above hfile hj stageId hq
  · have habove : q <+: components m.baseDir := by
      obtain hq | hbase' := List.prefix_or_prefix_of_prefix hq
        ((hjobs.inside j hj).trans (jobDir_above_stagePlace j stageId))
      · exact hq
      · exact absurd hbase' hbase
    rw [h.outside q hbase, hworld.above q habove fun heq => hbase (heq ▸ List.prefix_refl _)]
      at hnode
    cases hnode

/-- What a read returns. -/
theorem Stores.readPartition (h : m.Stores jobs world found t) (hjobs : m.Isolates jobs)
    (hworld : m.Mounted world) {file : PartitionFile} (hfile : file.jobUuid ∈ jobs) :
    m.readPartition file t =
      match found file with
      | some batches => .ok batches
      | none => .error (.inputOutput (m.partitionFile file)) := by
  have hlookup : t.lookup (m.partitionFile file) = t.node (m.filePlace file) := by
    have hdir : names (pieces (m.partitionDir file.jobUuid file.stageId)) =
        m.stagePlace file.jobUuid file.stageId := components_partitionDir _ _
    have hnode := lookup_name (hjobs.isAbsolute_partitionFile file) (pieces_partitionFile file)
      (hjobs.plain_partitionFile hfile) (partitionName_not_dot _).1 fun q hq c => by
        rw [hdir] at hq
        exact h.not_file hjobs hworld hfile file.stageId hq c
    rw [hnode, hdir, filePlace]
  -- The equation of `readPartition` would evaluate the path.
  delta ShuffleDisk.readPartition
  rw [hlookup]
  cases hfound : found file with
  | some batches => rw [h.stored file batches hfile hfound]
  | none =>
    match hnode : t.node (m.filePlace file) with
    | some (.file c) =>
      obtain ⟨file', hfile', heq, hfound'⟩ := h.files _ c
        ((hjobs.inside _ hfile).trans (jobDir_above_filePlace file)) hnode
      obtain rfl := hjobs.filePlace_injective hfile hfile' heq
      rw [hfound] at hfound'
      cases hfound'
    | some .dir => rfl
    | none => rfl

/-- A write of some batches makes its file and the directories above it. -/
theorem Stores.writePartition_node (h : m.Stores jobs world found t) (hjobs : m.Isolates jobs)
    (hworld : m.Mounted world) {file : PartitionFile} (hfile : file.jobUuid ∈ jobs)
    {batches : List RecordBatch} (hbatches : batches ≠ []) :
    ∃ t', m.writePartition file batches t = (t', .ok ()) ∧
      ∀ q, t'.node q = if q = m.filePlace file then some (.file batches)
        else if q <+: m.stagePlace file.jobUuid file.stageId then some .dir else t.node q := by
  have hplace := components_partitionDir (m := m) file.jobUuid file.stageId
  have hbase : components m.baseDir <+: m.stagePlace file.jobUuid file.stageId :=
    (hjobs.inside _ hfile).trans (jobDir_above_stagePlace _ _)
  obtain ⟨t₁, ht₁, hnodes₁⟩ := createDirAll_ok (t := t)
    (hjobs.isAbsolute_partitionDir file.jobUuid file.stageId) (hjobs.plain_partitionDir hfile _)
    fun q hq => h.not_file hjobs hworld hfile file.stageId (hplace ▸ hq)
  rw [hplace] at hnodes₁
  -- A directory in its place would be above a file of some job, and no place is above another.
  have hnotDir : t₁.node (m.filePlace file) ≠ some .dir := by
    intro hdir
    have hbaseFile : components m.baseDir <+: m.filePlace file :=
      hbase.trans (List.prefix_append _ _)
    rw [hnodes₁, if_neg (hjobs.filePlace_not_above hfile hfile _)] at hdir
    obtain ⟨j, hj, s, habove⟩ := h.dirs _ hbaseFile (fun heq => by
      have hlen := hbase.length_le
      rw [← heq, filePlace_length, stagePlace_length] at hlen
      omega) hdir
    exact hjobs.filePlace_not_above hfile hj s habove
  obtain ⟨t₂, ht₂, hnodes₂⟩ := createFile_ok (t := t₁) (hjobs.isAbsolute_partitionFile file)
    (pieces_partitionFile file) (hjobs.plain_partitionFile hfile) (partitionName_not_dot _).1
    (by
      show t₁.node (components (m.partitionDir file.jobUuid file.stageId)) = _
      rw [hplace, hnodes₁, if_pos (List.prefix_refl _)])
    (by
      show t₁.node (components (m.partitionDir file.jobUuid file.stageId) ++ _) ≠ _
      rw [hplace]
      exact hnotDir) batches
  refine ⟨t₂, ?_, fun q => ?_⟩
  · unfold ShuffleDisk.writePartition
    rw [if_neg (List.isEmpty_iff.not.mpr hbatches), ht₁]
    dsimp only
    rw [ht₂]
  · rw [hnodes₂, hnodes₁]
    show (if q = components (m.partitionDir file.jobUuid file.stageId) ++ _ then _ else _) = _
    rw [hplace]
    rfl

/-- With a file and the directories above it made, the file is the one that changes. -/
theorem Stores.written (h : m.Stores jobs world found t) (hjobs : m.Isolates jobs)
    (hworld : m.Mounted world) {file : PartitionFile} (hfile : file.jobUuid ∈ jobs)
    {batches : List RecordBatch} (hbatches : batches ≠ []) {t' : ShuffleFiles}
    (hnodes : ∀ q, t'.node q = if q = m.filePlace file then some (.file batches)
      else if q <+: m.stagePlace file.jobUuid file.stageId then some .dir else t.node q) :
    m.Stores jobs world (ShuffleCall.update found (.writePartition file batches)) t' := by
  have hbase : components m.baseDir <+: m.stagePlace file.jobUuid file.stageId :=
    (hjobs.inside _ hfile).trans (jobDir_above_stagePlace _ _)
  constructor
  case outside =>
    intro q hq
    have hne : q ≠ m.filePlace file := fun heq =>
      hq (heq ▸ hbase.trans (List.prefix_append _ _))
    rw [hnodes, if_neg hne]
    split
    · rename_i habove
      obtain hq' | hq' := List.prefix_or_prefix_of_prefix habove hbase
      · exact (hworld.above q hq' fun heq => hq (heq ▸ List.prefix_refl _)).symm
      · exact absurd hq' hq
    · exact h.outside q hq
  case files =>
    intro q c hq hnode
    rw [hnodes] at hnode
    split at hnode
    · rename_i heq
      cases hnode
      exact ⟨file, hfile, heq, if_pos ⟨rfl, hbatches⟩⟩
    · rename_i hne
      split at hnode
      · cases hnode
      · obtain ⟨f, hf, rfl, hfound⟩ := h.files q c hq hnode
        refine ⟨f, hf, rfl, ?_⟩
        rw [ShuffleCall.update, if_neg fun heq => hne (congrArg m.filePlace heq.1)]
        exact hfound
  -- Every file that should be stored is, since the places of two files differ.
  case stored =>
    intro f c hf hfound
    rw [ShuffleCall.update] at hfound
    rw [hnodes]
    split at hfound
    · rename_i heq
      cases hfound
      rw [if_pos (congrArg m.filePlace heq.1)]
    · rename_i hne
      rw [if_neg fun heq => hne ⟨hjobs.filePlace_injective hf hfile heq, hbatches⟩,
        if_neg (hjobs.filePlace_not_above hf hfile _)]
      exact h.stored f c hf hfound
  -- New directories lie above the new file.
  case dirs =>
    intro q hq hne hnode
    rw [hnodes] at hnode
    split at hnode
    · cases hnode
    · split at hnode
      · rename_i habove
        exact ⟨file.jobUuid, hfile, file.stageId, habove⟩
      · exact h.dirs q hq hne hnode

/-- A write succeeds, and its file is the one that changes. -/
theorem Stores.writePartition (h : m.Stores jobs world found t) (hjobs : m.Isolates jobs)
    (hworld : m.Mounted world) {file : PartitionFile} (hfile : file.jobUuid ∈ jobs)
    (batches : List RecordBatch) :
    (m.writePartition file batches t).2 = .ok () ∧
      m.Stores jobs world (ShuffleCall.update found (.writePartition file batches))
        (m.writePartition file batches t).1 := by
  by_cases hbatches : batches = []
  · have hsame : ShuffleCall.update found (.writePartition file batches) = found := by
      funext f
      exact if_neg fun hf => hf.2 hbatches
    unfold ShuffleDisk.writePartition
    rw [hsame, if_pos (List.isEmpty_iff.mpr hbatches)]
    exact ⟨rfl, h⟩
  · obtain ⟨t', ht', hnodes⟩ := h.writePartition_node hjobs hworld hfile hbatches
    rw [ht']
    exact ⟨rfl, h.written hjobs hworld hfile hbatches hnodes⟩

/-- Cleaning up a directory empties it and changes nothing outside of it. -/
theorem cleanupDir_node {dir : String} (habsolute : isAbsolute dir) (hplain : ".." ∉ pieces dir)
    (hfiles : ∀ q, q <+: components dir → ∀ c, t.node q ≠ some (.file c)) :
    (∀ q, ¬ components dir <+: q → (cleanupDir dir t).node q = t.node q) ∧
      (∀ q, components dir <+: q → q ≠ components dir → (cleanupDir dir t).node q = none) ∧
      ∀ n, (cleanupDir dir t).node (components dir) = some n →
        t.node (components dir) = some n := by
  -- The source looks whether the path is there before it removes it.
  have hcleanup : cleanupDir dir t =
      if (t.node (components dir)).isSome then t.removeDirAll dir else t := by
    rw [cleanupDir, lookup_eq habsolute hplain hfiles]
  match hnode : t.node (components dir) with
  | some (.file c) => exact absurd hnode (hfiles _ (List.prefix_refl _) c)
  | none =>
    rw [hnode, Option.isSome_none, if_neg Bool.false_ne_true] at hcleanup
    rw [hcleanup]
    refine ⟨fun q _ => rfl, fun q hq hne => ?_, fun n hn => hnode.symm.trans hn⟩
    -- Below a place without a node there is none.
    by_contra hsome
    rw [dir_of_node hq hne.symm hsome] at hnode
    cases hnode
  | some .dir =>
    obtain ⟨self, hremove⟩ := removeDirAll_ok habsolute hplain hnode
    rw [hnode, Option.isSome_some, if_pos rfl, hremove] at hcleanup
    rw [hcleanup]
    refine ⟨fun q hq => if_neg fun h => hq h.1, fun q hq hne => ?_, fun n hn => ?_⟩
    · have hnil : q ≠ [] := fun hnil => by
        rw [hnil] at hq hne
        exact hne (List.prefix_nil.mp hq).symm
      exact if_pos ⟨hq, fun h => absurd h hne, hnil⟩
    · rw [remove_node] at hn
      split at hn
      · cases hn
      · exact hnode.symm.trans hn

/-- Cleaning up a directory keeps the files that are not in it. -/
theorem Stores.cleanupDir (h : m.Stores jobs world found t) {dir : String}
    (habsolute : isAbsolute dir) (hplain : ".." ∉ pieces dir)
    (hinside : components m.baseDir <+: components dir)
    (hfiles : ∀ q, q <+: components dir → ∀ c, t.node q ≠ some (.file c))
    {found' : PartitionFile → Option (List RecordBatch)}
    (hfound : ∀ f, f.jobUuid ∈ jobs →
      found' f = if components dir <+: m.filePlace f then none else found f) :
    m.Stores jobs world found' (cleanupDir dir t) := by
  -- What lies outside the directory is untouched, what lies below it is gone.
  obtain ⟨hother, hbelow, hsame⟩ := cleanupDir_node habsolute hplain hfiles
  refine ⟨fun q hq => ?_, fun q c hq hnode => ?_, fun f c hf hc => ?_, fun q hq hne hnode => ?_⟩
  · rw [hother q fun hdir => hq (hinside.trans hdir)]
    exact h.outside q hq
  · by_cases hdir : components dir <+: q
    · by_cases heq : q = components dir
      · exact absurd (hsame _ (heq ▸ hnode)) (hfiles _ (List.prefix_refl _) c)
      · rw [hbelow q hdir heq] at hnode
        cases hnode
    · rw [hother q hdir] at hnode
      obtain ⟨f, hf, rfl, hc⟩ := h.files q c hq hnode
      exact ⟨f, hf, rfl, by rw [hfound f hf, if_neg hdir, hc]⟩
  · rw [hfound f hf] at hc
    split at hc
    · cases hc
    · rename_i hdir
      rw [hother _ hdir]
      exact h.stored f c hf hc
  · by_cases hdir : components dir <+: q
    · by_cases heq : q = components dir
      · exact h.dirs q hq hne (heq ▸ hsame _ (heq ▸ hnode))
      · rw [hbelow q hdir heq] at hnode
        cases hnode
    · exact h.dirs q hq hne (hother q hdir ▸ hnode)

/-- Removing the directory of a job forgets the files of this job, and no others. -/
theorem Stores.cleanupJob (h : m.Stores jobs world found t) (hjobs : m.Isolates jobs)
    (hworld : m.Mounted world) {jobUuid : String} (hj : jobUuid ∈ jobs) :
    m.Stores jobs world (ShuffleCall.update found (.cleanupJob jobUuid))
      (m.cleanupJob jobUuid t) := by
  refine h.cleanupDir (hjobs.isAbsolute_jobDir jobUuid) (hjobs.plain _ hj) (hjobs.inside _ hj)
    (fun q hq => h.not_file hjobs hworld hj 0 (hq.trans (jobDir_above_stagePlace _ _)))
    fun f hf => ?_
  refine if_congr ⟨?_, fun hdir => ?_⟩ rfl rfl
  · rintro rfl
    exact jobDir_above_filePlace f
  · exact hjobs.eq_of_above hf hj (jobDir_above_filePlace f) hdir

/-- Removing the directory of the manager forgets all files. -/
theorem Stores.cleanupAll (h : m.Stores jobs world found t) (hjobs : m.Isolates jobs)
    (hworld : m.Mounted world) :
    m.Stores jobs world (ShuffleCall.update found .cleanupAll) (m.cleanupAll t) := by
  refine h.cleanupDir hjobs.base_absolute hjobs.base_plain (List.prefix_refl _) (fun q hq c => ?_)
    fun f hf => ?_
  · intro hnode
    by_cases hbase : q = components m.baseDir
    · obtain ⟨f, hf, heq, -⟩ := h.files q c (hbase ▸ List.prefix_refl _) hnode
      have hlen := (hjobs.inside _ hf).length_le
      rw [← hbase, heq, filePlace_length] at hlen
      omega
    · rw [h.outside q fun hq' => hbase (hq.eq_of_length_le hq'.length_le),
        hworld.above q hq hbase] at hnode
      cases hnode
  · rw [if_pos ((hjobs.inside _ hf).trans (jobDir_above_filePlace f))]
    rfl

/-- What one call keeps. -/
theorem Stores.call (h : m.Stores jobs world found t) (hjobs : m.Isolates jobs)
    (hworld : m.Mounted world) {c : ShuffleCall} (hc : ∀ j, c.jobUuid? = some j → j ∈ jobs) :
    m.Stores jobs world (ShuffleCall.update found c) (m.call t c).1 := by
  cases c with
  | writePartition file batches => exact (h.writePartition hjobs hworld (hc _ rfl) batches).2
  | readPartition file => exact h
  | cleanupJob jobUuid => exact h.cleanupJob hjobs hworld (hc _ rfl)
  | cleanupAll => exact h.cleanupAll hjobs hworld

/-- What a run of calls keeps. -/
theorem Stores.run (h : m.Stores jobs world found t) (hjobs : m.Isolates jobs)
    (hworld : m.Mounted world) {calls : List ShuffleCall}
    (hcalls : ∀ c ∈ calls, ∀ j, c.jobUuid? = some j → j ∈ jobs) :
    m.Stores jobs world (calls.foldl ShuffleCall.update found) (m.run calls t) := by
  induction calls generalizing found t with
  | nil => exact h
  | cons c rest ih =>
    exact ih (h.call hjobs hworld (hcalls c List.mem_cons_self)) fun d hd =>
      hcalls d (List.mem_cons_of_mem _ hd)

/-- At the start nothing is stored. -/
theorem Mounted.stores (hworld : m.Mounted world) (jobs : Set String) :
    m.Stores jobs world (fun _ => none) world := by
  refine ⟨fun q _ => rfl, fun q c hq hnode => ?_, fun _ _ _ hc => absurd hc nofun,
    fun q hq hne hnode => ?_⟩
  · by_cases hbase : q = components m.baseDir
    · exact absurd (hbase ▸ hnode) (hworld.base c)
    · rw [hworld.below q hq hbase] at hnode
      cases hnode
  · rw [hworld.below q hq hne] at hnode
    cases hnode

/-- What holds of the state that a run of calls reaches: a read returns the batches of the last
non-empty write of that file since the job was cleaned up; a write succeeds; a call on a job changes
no read of another; and outside of the base directory nothing is changed or read. -/
structure RunIsolated (m : ShuffleDisk) (jobs : Set String) (world : ShuffleFiles)
    (calls : List ShuffleCall) : Prop where
  reads : ∀ file, file.jobUuid ∈ jobs → m.readPartition file (m.run calls world) =
    match ShuffleCall.lastWritten calls file with
    | some batches => .ok batches
    | none => .error (.inputOutput (m.partitionFile file))
  writes : ∀ file batches, file.jobUuid ∈ jobs →
    (m.writePartition file batches (m.run calls world)).2 = .ok ()
  others : ∀ c j, c.jobUuid? = some j → j ∈ jobs → ∀ file, file.jobUuid ∈ jobs →
    file.jobUuid ≠ j → m.readPartition file (m.call (m.run calls world) c).1 =
      m.readPartition file (m.run calls world)
  outside : ∀ q, ¬ components m.baseDir <+: q → (m.run calls world).node q = world.node q
  confined : ∀ file place, file.jobUuid ∈ jobs →
    (m.run calls world).resolve (m.partitionFile file) = .ok place →
      components m.baseDir <+: place

/-- Calls about isolated jobs find what they expect, whatever their order is. -/
theorem Isolates.runIsolated (hjobs : m.Isolates jobs) (hworld : m.Mounted world)
    {calls : List ShuffleCall} (hcalls : ∀ c ∈ calls, ∀ j, c.jobUuid? = some j → j ∈ jobs) :
    m.RunIsolated jobs world calls := by
  have hstores := (hworld.stores jobs).run hjobs hworld hcalls
  refine ⟨fun file hfile => hstores.readPartition hjobs hworld hfile,
    fun file batches hfile => (hstores.writePartition hjobs hworld hfile batches).1,
    fun c j hc hj file hfile hne => ?_, hstores.outside, fun file place hfile hplace => ?_⟩
  · have hcall := hstores.call hjobs hworld (c := c) fun k hk =>
      Option.some.inj (hc.symm.trans hk) ▸ hj
    rw [hcall.readPartition hjobs hworld hfile, hstores.readPartition hjobs hworld hfile,
      ShuffleCall.update_of_ne hc hne]
  · rw [eq_of_resolve (hjobs.isAbsolute_partitionFile file) (hjobs.plain_partitionFile hfile) hplace,
      components_partitionFile]
    exact (hjobs.inside _ hfile).trans (jobDir_above_filePlace file)

/-- Over isolated ids, a read from disk returns what the map of files holds. -/
theorem Isolates.readPartition_iff_file? (hjobs : m.Isolates jobs) (hworld : m.Mounted world)
    {calls : List ShuffleCall} (hcalls : ∀ c ∈ calls, ∀ j, c.jobUuid? = some j → j ∈ jobs)
    {file : PartitionFile} (hfile : file.jobUuid ∈ jobs) (batches : List RecordBatch) :
    m.readPartition file (m.run calls world) = .ok batches ↔
      (calls.foldl ShuffleManager.call .empty).file? file = some batches := by
  rw [(hjobs.runIsolated hworld hcalls).reads file hfile, ShuffleManager.file?_calls]
  cases ShuffleCall.lastWritten calls file <;> simp

/-! ## Ids that are not isolated -/

/-- A job whose directory is in that of another one loses its file when the other is cleaned up. -/
theorem Confines.cleanupJob_above (h : m.Confines jobs) (hworld : m.Mounted world) {j k : String}
    (hj : j ∈ jobs) (hk : k ∈ jobs) (habove : components (m.jobDir j) <+: components (m.jobDir k))
    (batches : List RecordBatch) :
    m.readPartition ⟨k, 0, 0⟩
      (m.run [.writePartition ⟨k, 0, 0⟩ batches, .cleanupJob j] world) ≠ .ok batches := by
  have honly : m.Isolates {k} :=
    ⟨⟨h.base_absolute, h.base_plain, fun i hi => h.plain i (hi ▸ hk),
      fun i hi => h.inside i (hi ▸ hk)⟩, fun a ha b hb _ => ha.trans hb.symm⟩
  have hfile : (⟨k, 0, 0⟩ : PartitionFile).jobUuid ∈ ({k} : Set String) := rfl
  have hwrite := ((hworld.stores {k}).writePartition honly hworld hfile batches).2
  obtain ⟨-, hbelow, -⟩ := cleanupDir_node (h.isAbsolute_jobDir j) (h.plain j hj) fun q hq =>
    hwrite.not_file honly hworld rfl 0 ((hq.trans habove).trans (jobDir_above_stagePlace k 0))
  -- The file is two steps below its own job's directory, so it is not the directory of the other.
  have hne : m.filePlace ⟨k, 0, 0⟩ ≠ components (m.jobDir j) := fun heq => by
    have hplace : (m.filePlace ⟨k, 0, 0⟩).length = (components (m.jobDir k)).length + 2 :=
      filePlace_length _
    have hlen := habove.length_le
    rw [heq] at hplace
    omega
  have hgone := hbelow _ (habove.trans (jobDir_above_filePlace ⟨k, 0, 0⟩)) hne
  have hfile : ∀ t : ShuffleFiles, t.node (m.filePlace ⟨k, 0, 0⟩) = none →
      m.readPartition ⟨k, 0, 0⟩ t ≠ .ok batches := by
    intro t hnone hread
    delta ShuffleDisk.readPartition at hread
    rw [lookup] at hread
    cases hplace : t.resolve (m.partitionFile ⟨k, 0, 0⟩) with
    | ok place =>
      rw [hplace, eq_of_resolve (h.isAbsolute_partitionFile _) (h.plain_partitionFile hk) hplace,
        components_partitionFile] at hread
      dsimp only at hread
      rw [hnone] at hread
      cases hread
    | error e =>
      rw [hplace] at hread
      cases hread
  exact hfile _ hgone

/-- Let the ids be confined to the base directory. Then every run of calls on them is isolated
exactly when no directory of an id is in that of another. -/
theorem Confines.runIsolated_iff (h : m.Confines jobs) (hworld : m.Mounted world) :
    (∀ calls : List ShuffleCall, (∀ c ∈ calls, ∀ j, c.jobUuid? = some j → j ∈ jobs) →
        m.RunIsolated jobs world calls) ↔
      ∀ j ∈ jobs, ∀ k ∈ jobs, components (m.jobDir j) <+: components (m.jobDir k) → j = k := by
  constructor
  · intro hall j hj k hk habove
    -- Cleaning up the one job takes the file of the other with it.
    by_contra hne
    let batches : List RecordBatch := [.ofRows ⟨[]⟩ [] (by simp)]
    have hrun := (hall [.writePartition ⟨k, 0, 0⟩ batches, .cleanupJob j] (by
      rintro c hc i hi
      obtain rfl | rfl : c = .writePartition ⟨k, 0, 0⟩ batches ∨ c = .cleanupJob j := by
        simpa using hc
      · cases hi
        exact hk
      · cases hi
        exact hj)).reads ⟨k, 0, 0⟩ hk
    have hfound : ShuffleCall.lastWritten [.writePartition ⟨k, 0, 0⟩ batches, .cleanupJob j]
        ⟨k, 0, 0⟩ = some batches := by
      show (if k = j then none else _) = _
      rw [if_neg (Ne.symm hne)]
      exact if_pos ⟨rfl, by simp [batches]⟩
    rw [hfound] at hrun
    exact h.cleanupJob_above hworld hj hk habove batches hrun
  · exact fun hapart calls hcalls => Isolates.runIsolated ⟨h, hapart⟩ hworld hcalls

end ShuffleDisk

end

section EscapingJobs

attribute [local instance] integerFloats

/-- The default manager. -/
def defaultDisk : ShuffleDisk := ⟨"/tmp/rquery-shuffle"⟩

/-- A file system with `/tmp/notes`, and nothing else in `/tmp`. -/
def notesRoot : ShuffleFiles where
  node q :=
    if q = [] ∨ q = ["tmp"] then some .dir
    else if q = ["tmp", "notes"] then some (.file [])
    else none
  root := rfl
  closed := by
    intro place name h
    match place with
    | [] => rfl
    | [x] =>
      by_cases hx : x = "tmp"
      · rw [hx]
        rfl
      · simp [hx] at h
    | x :: y :: rest => simp at h
  workingDir := []

/-- The directory of the manager is on the disk. -/
theorem notesRoot_mounted : defaultDisk.Mounted notesRoot := by
  have hbase : components defaultDisk.baseDir = ["tmp", "rquery-shuffle"] := by decide +kernel
  refine ⟨fun q hq hne => ?_, fun c => ?_, fun q hq hne => ?_⟩
  · rw [hbase] at hq hne
    match q with
    | [] => rfl
    | [x] =>
      obtain rfl : x = "tmp" := by simpa using hq
      rfl
    | x :: y :: rest => exact absurd (hq.eq_of_length_le (by simp)) hne
  · rw [hbase]
    exact nofun
  · rw [hbase] at hq hne
    obtain ⟨rest, rfl⟩ := hq
    simp [notesRoot] at hne ⊢

/-- A batch without columns. -/
def shuffledBatch : RecordBatch := ⟨⟨[]⟩, [], 0, rfl, by simp⟩

/-- A job writes a file, and another one is cleaned up. -/
def cleanedRun (jobs : String × String) : List ShuffleCall :=
  [.writePartition ⟨jobs.1, 0, 0⟩ [shuffledBatch], .cleanupJob jobs.2]

/-- Cleaning up the job `..` removes what is beside the base directory. That job, the empty one and
`.` remove the files of all jobs, and `a` those of `a/b`. -/
theorem not_runIsolated_escaping :
    defaultDisk.Mounted notesRoot ∧ (notesRoot.node ["tmp", "notes"]).isSome ∧
      ((defaultDisk.run (cleanedRun ("a", "..")) notesRoot).node ["tmp", "notes"]).isNone ∧
      ∀ jobs ∈ [("a", ".."), ("a", ""), ("a", "."), ("a/b", "a")],
        ¬ defaultDisk.RunIsolated {jobs.1, jobs.2} notesRoot (cleanedRun jobs) := by
  have hgone : ((defaultDisk.run (cleanedRun ("a", "..")) notesRoot).node
      ["tmp", "notes"]).isNone := by decide +kernel
  have hlost : ∀ jobs ∈ [("a", ".."), ("a", ""), ("a", "."), ("a/b", "a")],
      defaultDisk.readPartition ⟨jobs.1, 0, 0⟩ (defaultDisk.run (cleanedRun jobs) notesRoot) ≠
          .ok [shuffledBatch] ∧
        ShuffleCall.lastWritten (cleanedRun jobs) ⟨jobs.1, 0, 0⟩ = some [shuffledBatch] := by
    decide +kernel
  refine ⟨notesRoot_mounted, rfl, hgone, fun jobs hjobs h => ?_⟩
  obtain ⟨hread, hfound⟩ := hlost jobs hjobs
  have hreads := h.reads ⟨jobs.1, 0, 0⟩ (.inl rfl)
  rw [hfound] at hreads
  exact hread hreads

/-- Plain ids are isolated. -/
theorem runIsolated_iff_plain :
    defaultDisk.RunIsolated {"a", "b"} notesRoot (cleanedRun ("a", "b")) := by
  have hlocal : defaultDisk.Confines {"a", "b"} := by
    refine ⟨by decide, by decide +kernel, ?_, ?_⟩
    · rintro j (rfl | rfl) <;> decide +kernel
    · rintro j (rfl | rfl) <;> decide +kernel
  refine (hlocal.runIsolated_iff notesRoot_mounted).mpr ?_ _ ?_
  · rintro j (rfl | rfl) k (rfl | rfl) <;> decide +kernel
  · rintro c hc j hj
    obtain rfl | rfl : c = .writePartition ⟨"a", 0, 0⟩ [shuffledBatch] ∨ c = .cleanupJob "b" := by
      simpa [cleanedRun] using hc
    · exact .inl (Option.some.inj hj).symm
    · exact .inr (Option.some.inj hj).symm

end EscapingJobs

end RQuery
