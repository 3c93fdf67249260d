import RQuery.Common.Outcome
import Mathlib.Data.List.Infix

/-!
# File trees

A file system without links: a node for every place, which is the list of the names from the root.
Paths are strings. `resolve` walks along the pieces of one, so that `.` and `..` are looked up in
the tree as it is; a path of plain names leads to the place of its names (`walk_of_dir`). The
operations are those of `std::fs`: `createDirAll`, `createFile`, `removeDirAll`.
-/

namespace RQuery

/-! ## Paths -/

namespace FilePath

/-- The pieces between the slashes. -/
def split (cs : List Char) : List String :=
  ((cs.splitOnP (· == '/')).filter (· ≠ [])).map String.ofList

def pieces (path : String) : List String := split path.toList

/-- Pieces that are not `.`. -/
def names (ps : List String) : List String := ps.filter (· ≠ ".")

/-- `Path::components`, where `.` is dropped. -/
def components (path : String) : List String := names (pieces path)

def isAbsolute (path : String) : Bool := path.toList.head? = some '/'

/-- `Path::join`: an absolute path replaces the first one. -/
def join (path other : String) : String :=
  if isAbsolute other then other
  else if path = "" ∨ path.toList.getLast? = some '/' then path ++ other
  else path ++ "/" ++ other

@[simp] theorem names_nil : names [] = [] := rfl

@[simp] theorem names_dot (ps : List String) : names ("." :: ps) = names ps := rfl

/-- Another piece than the dot is a name. -/
theorem names_cons {piece : String} (h : piece ≠ ".") (ps : List String) :
    names (piece :: ps) = piece :: names ps := by
  simp [names, h]

/-- Pieces without a dot are names. -/
theorem names_eq_self {ps : List String} (h : "." ∉ ps) : names ps = ps :=
  List.filter_eq_self.mpr fun p hp => by simpa using fun heq : p = "." => h (heq ▸ hp)

/-- The names of a path are those of its parts. -/
theorem names_append (ps qs : List String) : names (ps ++ qs) = names ps ++ names qs :=
  List.filter_append ..

/-- A slash ends a piece. -/
theorem split_append_slash (xs ys : List Char) : split (xs ++ '/' :: ys) = split xs ++ split ys := by
  rw [split, List.splitOnP_append_cons xs ys (by simp), List.filter_append, List.map_append]
  rfl

/-- A text without a slash is a single piece. -/
theorem split_eq_singleton {cs : List Char} (hne : cs ≠ []) (h : '/' ∉ cs) :
    split cs = [String.ofList cs] := by
  rw [split, List.splitOnP_eq_singleton fun c hc => by
    simpa using fun heq : c = '/' => h (heq ▸ hc)]
  simp [hne]

/-- Joining a relative path appends its pieces. -/
theorem pieces_join {path other : String} (h : isAbsolute other = false) :
    pieces (join path other) = pieces path ++ pieces other := by
  unfold join
  rw [h, if_neg Bool.false_ne_true]
  split
  · rename_i hpath
    obtain rfl | hslash := hpath
    · simp [pieces, split]
    · obtain ⟨front, hfront⟩ : ∃ front, path.toList = front ++ ['/'] := by
        obtain ⟨c, hc⟩ := List.getLast?_eq_some_iff.mp hslash
        exact ⟨c, hc⟩
      rw [pieces, pieces, pieces, String.toList_append, hfront, List.append_assoc,
        List.singleton_append, split_append_slash, split_append_slash front []]
      simp [split]
  · rw [pieces, String.toList_append, String.toList_append,
      show "/".toList = ['/'] from rfl, List.append_assoc, List.singleton_append,
      split_append_slash]
    rfl

/-- A relative path is appended to the path, which stays absolute. -/
theorem isAbsolute_join {path other : String} (h : isAbsolute other = false) :
    isAbsolute (join path other) = isAbsolute path := by
  unfold join
  rw [h, if_neg Bool.false_ne_true]
  unfold isAbsolute at h ⊢
  split
  · rename_i hpath
    obtain rfl | hslash := hpath
    · simpa using h
    · obtain ⟨front, hfront⟩ := List.getLast?_eq_some_iff.mp hslash
      rw [String.toList_append, hfront]
      cases front <;> simp
  · rename_i hpath
    have hne : path.toList ≠ [] := fun hnil => hpath (.inl (by simpa using hnil))
    obtain ⟨c, cs, hcs⟩ := List.exists_cons_of_ne_nil hne
    rw [String.toList_append, String.toList_append, hcs]
    simp

end FilePath

/-! ## Trees -/

/-- A file or a directory. -/
inductive FileNode (α : Type)
  | dir
  | file (content : α)

/-- Why an operation fails. -/
inductive FileError
  | notFound
  | alreadyExists
  | notADirectory
  | isADirectory
  deriving DecidableEq, Repr

/-- The node of every place: what is in a directory has that directory above it. -/
structure FileTree (α : Type) where
  node : List String → Option (FileNode α)
  root : node [] = some .dir
  closed : ∀ place name, node (place ++ [name]) ≠ none → node place = some .dir
  /-- Where relative paths start. -/
  workingDir : List String

namespace FileTree

variable {α : Type} (t : FileTree α)

def isDir (place : List String) : Bool :=
  match t.node place with
  | some .dir => true
  | _ => false

/-- Where a piece of a path leads from a directory. -/
def enter (place : List String) (piece : String) : List String :=
  if piece = "." then place
  else if piece = ".." then place.dropLast
  else place ++ [piece]

/-- Follow the pieces of a path. Only what they lead to may be missing. -/
def walk : List String → List String → Except FileError (List String)
  | place, [] => .ok place
  | place, piece :: rest =>
    match t.node place with
    | some .dir => walk (enter place piece) rest
    | some (.file _) => .error .notADirectory
    | none => .error .notFound

/-- Where a path starts. -/
def start (path : String) : List String := if FilePath.isAbsolute path then [] else t.workingDir

def resolve (path : String) : Except FileError (List String) :=
  if path = "" then .error .notFound
  else t.walk (t.start path) (FilePath.pieces path)

/-- The node that a path leads to. -/
def lookup (path : String) : Option (FileNode α) :=
  match t.resolve path with
  | .ok place => t.node place
  | .error _ => none

variable {t}

/-- A directory is a node that is one. -/
theorem isDir_iff {place : List String} : t.isDir place ↔ t.node place = some .dir := by
  unfold isDir
  split
  · rename_i h
    exact iff_of_true rfl h
  · rename_i h
    exact iff_of_false Bool.false_ne_true h

/-- What is above a node is a directory. -/
theorem dir_of_append {place rest : List String} (hrest : rest ≠ [])
    (h : t.node (place ++ rest) ≠ none) : t.node place = some .dir := by
  induction rest using List.reverseRecOn with
  | nil => exact absurd rfl hrest
  | append_singleton rest name ih =>
    rw [← List.append_assoc] at h
    have hdir := t.closed _ _ h
    by_cases hnil : rest = []
    · rwa [hnil, List.append_nil] at hdir
    · exact ih hnil (hdir ▸ Option.some_ne_none _)

/-- Above every node there are directories. -/
theorem dir_of_node {place q : List String} (habove : place <+: q) (hne : place ≠ q)
    (h : t.node q ≠ none) : t.node place = some .dir := by
  obtain ⟨rest, rfl⟩ := habove
  exact dir_of_append (fun hnil => hne (by simp [hnil])) h

/-! ## Plain paths -/

open FilePath

/-- A path is walked part by part. -/
theorem walk_append (place ps qs : List String) :
    t.walk place (ps ++ qs) = t.walk place ps >>= fun q => t.walk q qs := by
  induction ps generalizing place with
  | nil => rfl
  | cons piece ps ih =>
    rw [List.cons_append, walk, walk]
    split
    · exact ih _
    · rfl
    · rfl

/-- A piece that is not `..` appends its name. -/
theorem enter_append {place ps : List String} {piece : String} (h : ".." ∉ piece :: ps) :
    enter place piece ++ names ps = place ++ names (piece :: ps) := by
  have hpiece : piece ≠ ".." := fun heq => h (heq ▸ List.mem_cons_self)
  by_cases hdot : piece = "."
  · subst hdot
    rfl
  · rw [enter, if_neg hdot, if_neg hpiece, names_cons hdot, List.append_assoc,
      List.singleton_append]

/-- Without `..`, a path leads to the place of its names. -/
theorem eq_of_walk {place ps q : List String} (hps : ".." ∉ ps) (h : t.walk place ps = .ok q) :
    q = place ++ names ps := by
  induction ps generalizing place with
  | nil =>
    cases h
    exact (List.append_nil _).symm
  | cons piece ps ih =>
    rw [walk] at h
    split at h
    · rw [ih (List.not_mem_of_not_mem_cons hps) h, enter_append hps]
    · cases h
    · cases h

/-- A path of plain names to a directory is walked. -/
theorem walk_of_dir {place ps : List String} (hps : ".." ∉ ps)
    (h : t.node (place ++ names ps) = some .dir) : t.walk place ps = .ok (place ++ names ps) := by
  induction ps generalizing place with
  | nil => rw [walk, names_nil, List.append_nil]
  | cons piece ps ih =>
    have hplace : t.node place = some .dir := by
      by_cases hnames : names (piece :: ps) = []
      · rwa [hnames, List.append_nil] at h
      · exact dir_of_append hnames (h ▸ Option.some_ne_none _)
    rw [← enter_append hps] at h ⊢
    rw [walk, hplace]
    exact ih (List.not_mem_of_not_mem_cons hps) h

/-- The last name of a path may be missing. -/
theorem walk_name {place ps : List String} (hps : ".." ∉ ps)
    (h : t.node (place ++ names ps) = some .dir) {name : String} (hdot : name ≠ ".")
    (hdots : name ≠ "..") : t.walk place (ps ++ [name]) = .ok (place ++ names ps ++ [name]) := by
  rw [walk_append, walk_of_dir hps h]
  show t.walk _ [name] = _
  rw [walk, h, enter, if_neg hdot, if_neg hdots]
  rfl

/-- Where no file is in the way, a path that cannot be walked leads to a place that is missing. -/
theorem walk_error {place ps : List String} {e : FileError} (hps : ".." ∉ ps)
    (hfiles : ∀ q, q <+: place ++ names ps → ∀ c, t.node q ≠ some (.file c))
    (h : t.walk place ps = .error e) : e = .notFound ∧ t.node (place ++ names ps) = none := by
  induction ps generalizing place with
  | nil => cases h
  | cons piece ps ih =>
    rw [walk] at h
    split at h
    · rw [← enter_append hps] at hfiles ⊢
      exact ih (List.not_mem_of_not_mem_cons hps) hfiles h
    · rename_i c hc
      exact absurd hc (hfiles place (List.prefix_append _ _) c)
    · rename_i hnone
      cases h
      refine ⟨rfl, ?_⟩
      by_contra hnode
      by_cases hnames : names (piece :: ps) = []
      · rw [hnames, List.append_nil] at hnode
        exact hnode hnone
      · rw [dir_of_append hnames hnode] at hnone
        cases hnone

/-! ## Changing a node -/

/-- Put a node into a directory, not in place of a directory. -/
def insert (t : FileTree α) (place : List String) (n : FileNode α)
    (hdir : t.node place.dropLast = some .dir) (hplace : t.node place = some .dir → n = .dir) :
    FileTree α where
  node q := if q = place then some n else t.node q
  root := by
    split
    · rename_i h
      rw [hplace (h ▸ t.root)]
    · exact t.root
  closed := by
    intro q name hq
    have hdirq : t.node q = some .dir := by
      split at hq
      · rename_i h
        rw [← h, List.dropLast_concat] at hdir
        exact hdir
      · exact t.closed q name hq
    split
    · rename_i h
      rw [hplace (h ▸ hdirq)]
    · exact hdirq
  workingDir := t.workingDir

@[simp] theorem insert_node {place : List String} {n : FileNode α}
    {hdir : t.node place.dropLast = some .dir} {hplace : t.node place = some .dir → n = .dir}
    (q : List String) :
    (t.insert place n hdir hplace).node q = if q = place then some n else t.node q := rfl

/-- Remove what is below a directory, and the directory as well if `self`. The root stays. -/
def remove (t : FileTree α) (place : List String) (self : Bool) : FileTree α where
  node q := if place <+: q ∧ (q = place → self) ∧ q ≠ [] then none else t.node q
  root := by
    rw [if_neg (by simp)]
    exact t.root
  closed := by
    intro q name hq
    split at hq
    · exact absurd rfl hq
    · rename_i hkept
      rw [if_neg]
      · exact t.closed q name hq
      · rintro ⟨hq', -, -⟩
        refine hkept ⟨hq'.trans (List.prefix_append q [name]), fun heq => ?_, by simp⟩
        have hlen := hq'.length_le
        rw [← heq, List.length_append, List.length_singleton] at hlen
        omega
  workingDir := t.workingDir

@[simp] theorem remove_node {place : List String} {self : Bool} (q : List String) :
    (t.remove place self).node q =
      if place <+: q ∧ (q = place → self) ∧ q ≠ [] then none else t.node q := rfl

/-! ## Operations -/

/-- Make a directory at a place. -/
def makeDir (t : FileTree α) (place : List String) : Except FileError (FileTree α) :=
  match hnode : t.node place with
  | some _ => .error .alreadyExists
  | none =>
    if hdir : t.isDir place.dropLast then
      .ok (t.insert place .dir (isDir_iff.mp hdir) fun h => absurd (hnode.symm.trans h) nofun)
    else .error .notFound

/-- Make a file at a place, or replace one. -/
def makeFile (t : FileTree α) (place : List String) (content : α) :
    Except FileError (FileTree α) :=
  if hnode : t.isDir place then .error .isADirectory
  else if hdir : t.isDir place.dropLast then
    .ok (t.insert place (.file content) (isDir_iff.mp hdir) fun h => absurd (isDir_iff.mpr h) hnode)
  else .error .notFound

/-- Make a directory, unless there is one. -/
def ensureDir (t : FileTree α) (start ps : List String) : FileTree α × Option FileError :=
  match t.walk start ps >>= t.makeDir with
  | .ok t' => (t', none)
  | .error e =>
    match t.walk start ps with
    | .ok place => (t, if t.isDir place then none else some e)
    | .error _ => (t, some e)

/-- `create_dir_all`, along components in reverse: make the directory, and what is above it first if
that is missing. On a failure the directories that were made stay. -/
def createDirs (t : FileTree α) (start : List String) :
    List String → FileTree α × Option FileError
  | [] => (t, none)
  | name :: above =>
    match t.walk start (name :: above).reverse >>= t.makeDir with
    | .error .notFound =>
      match t.createDirs start above with
      | (t', none) => t'.ensureDir start (name :: above).reverse
      | (t', some e) => (t', some e)
    | _ => t.ensureDir start (name :: above).reverse

def createDirAll (t : FileTree α) (path : String) : FileTree α × Option FileError :=
  t.createDirs (t.start path) (FilePath.components path).reverse

/-- `File::create`, and writing the content. -/
def createFile (t : FileTree α) (path : String) (content : α) : Except FileError (FileTree α) := do
  t.makeFile (← t.resolve path) content

/-- `remove_dir_all`. A path that ends in `.` or `..` is emptied, but does not name an entry that
can be removed. What fails is ignored. -/
def removeDirAll (t : FileTree α) (path : String) : FileTree α :=
  match t.resolve path with
  | .ok place =>
    if t.isDir place then
      t.remove place (((FilePath.pieces path).getLast?.all fun piece => piece ≠ "." ∧ piece ≠ ".."))
    else t
  | .error _ => t

variable {t : FileTree α}

/-- Making a directory changes one place. -/
theorem makeDir_ok {place : List String} (hnode : t.node place = none)
    (hdir : t.node place.dropLast = some .dir) :
    ∃ t', t.makeDir place = .ok t' ∧
      ∀ q, t'.node q = if q = place then some .dir else t.node q := by
  unfold makeDir
  split
  · rename_i h
    rw [hnode] at h
    cases h
  · rw [dif_pos (isDir_iff.mpr hdir)]
    exact ⟨_, rfl, fun q => rfl⟩

/-- A directory that exists is not made again. -/
theorem makeDir_exists {place : List String} (hnode : t.node place = some .dir) :
    t.makeDir place = .error .alreadyExists := by
  unfold makeDir
  split
  · rfl
  · rename_i h
    rw [hnode] at h
    cases h

/-- Making a file changes one place. -/
theorem makeFile_ok {place : List String} (hnode : t.node place ≠ some .dir)
    (hdir : t.node place.dropLast = some .dir) (content : α) :
    ∃ t', t.makeFile place content = .ok t' ∧
      ∀ q, t'.node q = if q = place then some (.file content) else t.node q := by
  unfold makeFile
  rw [dif_neg (isDir_iff.not.mpr hnode), dif_pos (isDir_iff.mpr hdir)]
  exact ⟨_, rfl, fun q => rfl⟩

/-- The directories that `ensureDir` leaves below a directory. -/
theorem ensureDir_ok {start ps : List String} {name : String} (hps : ".." ∉ ps ++ [name])
    (hdots : name ≠ ".") (hdir : t.node (start ++ names ps) = some .dir)
    (hfile : ∀ c, t.node (start ++ names (ps ++ [name])) ≠ some (.file c)) :
    ∃ t', t.ensureDir start (ps ++ [name]) = (t', none) ∧
      ∀ q, t'.node q = if q = start ++ names (ps ++ [name]) then some .dir else t.node q := by
  have hpiece : name ≠ ".." := fun heq => hps (by simp [heq])
  have hwalk := walk_name (fun h => hps (List.mem_append_left _ h)) hdir hdots hpiece
  have hplace : start ++ names (ps ++ [name]) = start ++ names ps ++ [name] := by
    rw [names_append, names_cons hdots, names_nil, List.append_assoc]
  rw [← hplace] at hwalk
  unfold ensureDir
  rw [hwalk, Outcome.ok_bind]
  match hnode : t.node (start ++ names (ps ++ [name])) with
  | none =>
    obtain ⟨t', ht', hnodes⟩ := makeDir_ok hnode (by rwa [hplace, List.dropLast_concat])
    rw [ht']
    exact ⟨t', rfl, hnodes⟩
  | some .dir =>
    rw [makeDir_exists hnode]
    refine ⟨t, by simp [isDir_iff.mpr hnode], fun q => ?_⟩
    split
    · rename_i h
      rw [h, hnode]
    · rfl
  | some (.file c) => exact absurd hnode (hfile c)

section Directories

variable {start ns : List String} {name : String}

/-- Below the directory of the names, making the directory of one more name does not fail for want
of a directory. -/
theorem makeDir_found (hns : ".." ∉ ns ++ [name]) (hdot : "." ∉ ns ++ [name])
    (hnode : t.node (start ++ ns) = some .dir)
    (hfile : ∀ c, t.node (start ++ (ns ++ [name])) ≠ some (.file c)) :
    t.walk start (ns ++ [name]) >>= t.makeDir ≠ .error .notFound := by
  have hnames : names ns = ns := names_eq_self fun h => hdot (List.mem_append_left _ h)
  have hwalk := walk_name (fun h => hns (List.mem_append_left _ h)) (by rwa [hnames])
    (fun heq : name = "." => hdot (by simp [heq])) fun heq => hns (by simp [heq])
  rw [hwalk, Outcome.ok_bind, hnames, List.append_assoc]
  match hlast : t.node (start ++ (ns ++ [name])) with
  | none =>
    have hparent : t.node (start ++ (ns ++ [name])).dropLast = some .dir := by
      rwa [← List.append_assoc, List.dropLast_concat]
    obtain ⟨t', ht', -⟩ := makeDir_ok hlast hparent
    rw [ht']
    exact nofun
  | some .dir =>
    rw [makeDir_exists hlast]
    exact nofun
  | some (.file c) => exact absurd hlast (hfile c)

/-- A path below a missing directory is missing. -/
theorem walk_missing (hns : ".." ∉ ns) (hdot : "." ∉ ns) (hnode : t.node (start ++ ns) = none)
    (hfiles : ∀ q, q <+: start ++ ns → ∀ c, t.node q ≠ some (.file c)) :
    t.walk start (ns ++ [name]) = .error .notFound := by
  have hnames : names ns = ns := names_eq_self hdot
  rw [walk_append]
  match hwalk : t.walk start ns with
  | .ok place =>
    obtain rfl := eq_of_walk hns hwalk
    rw [Outcome.ok_bind, walk, hnames, hnode]
  | .error e =>
    obtain ⟨rfl, -⟩ := walk_error hns (fun q hq => hfiles q (hnames ▸ hq)) hwalk
    rfl

/-- With the directories of the names made, the one of the next name is made. -/
theorem ensureDir_next {t₁ : FileTree α} (hns : ".." ∉ ns ++ [name]) (hdot : "." ∉ ns ++ [name])
    (hfile : ∀ c, t.node (start ++ (ns ++ [name])) ≠ some (.file c))
    (hdir : t₁.node (start ++ ns) = some .dir)
    (ht₁ : ∀ q, t₁.node q = if start <+: q ∧ q <+: start ++ ns then some .dir else t.node q) :
    ∃ t', t₁.ensureDir start (ns ++ [name]) = (t', none) ∧
      ∀ q, t'.node q =
        if start <+: q ∧ q <+: start ++ (ns ++ [name]) then some .dir else t.node q := by
  have hnames : names ns = ns := names_eq_self fun h => hdot (List.mem_append_left _ h)
  have hfull : start ++ (ns ++ [name]) = start ++ ns ++ [name] := by rw [List.append_assoc]
  have hname : name ≠ "." := fun heq => hdot (by simp [heq])
  obtain ⟨t', ht', hnodes⟩ := ensureDir_ok hns hname (by rwa [hnames]) fun c hc => by
    rw [names_eq_self hdot, ht₁] at hc
    split at hc
    · cases hc
    · exact hfile c hc
  refine ⟨t', ht', fun q => ?_⟩
  rw [hnodes, names_eq_self hdot, ht₁]
  by_cases hlast : q = start ++ (ns ++ [name])
  · rw [if_pos hlast, if_pos ⟨hlast ▸ List.prefix_append _ _, hlast ▸ List.prefix_refl _⟩]
  · rw [if_neg hlast]
    refine if_congr (and_congr_right fun _ => ?_) rfl rfl
    rw [hfull, List.prefix_concat_iff, ← hfull, or_iff_right hlast]

/-- Where no file is in the way, `create_dir_all` makes the directories of the names. -/
theorem createDirs_ok (hns : ".." ∉ ns) (hdot : "." ∉ ns) (hstart : t.node start = some .dir)
    (hfiles : ∀ q, q <+: start ++ ns → ∀ c, t.node q ≠ some (.file c)) :
    ∃ t', t.createDirs start ns.reverse = (t', none) ∧
      ∀ q, t'.node q = if start <+: q ∧ q <+: start ++ ns then some .dir else t.node q := by
  -- From the last name back, as `create_dir_all` walks up to the first directory that is there.
  induction ns using List.reverseRecOn with
  | nil =>
    refine ⟨t, rfl, fun q => ?_⟩
    split
    · rename_i h
      rw [List.append_nil] at h
      rw [← h.1.eq_of_length_le h.2.length_le, hstart]
    · rfl
  | append_singleton ns name ih =>
    have hns' : ".." ∉ ns := fun h => hns (List.mem_append_left _ h)
    have hdot' : "." ∉ ns := fun h => hdot (List.mem_append_left _ h)
    have hfile := hfiles _ (List.prefix_refl (start ++ (ns ++ [name])))
    have habove : ∀ q, q <+: start ++ ns → q <+: start ++ (ns ++ [name]) := by
      intro q hq
      rw [← List.append_assoc]
      exact hq.trans (List.prefix_append _ _)
    rw [List.reverse_append, List.reverse_singleton, List.singleton_append, createDirs,
      List.reverse_cons, List.reverse_reverse]
    match hnode : t.node (start ++ ns) with
    | some (.file c) => exact absurd hnode (hfiles _ (habove _ (List.prefix_refl _)) c)
    | some .dir =>
      obtain ⟨t', ht', hnodes⟩ := ensureDir_next hns hdot hfile hnode fun q => by
        split
        · rename_i hq
          by_cases heq : q = start ++ ns
          · rw [heq, hnode]
          · exact dir_of_node hq.2 heq (hnode ▸ Option.some_ne_none _)
        · rfl
      refine ⟨t', ?_, hnodes⟩
      split
      · rename_i h
        exact absurd h (makeDir_found hns hdot hnode hfile)
      · exact ht'
    | none =>
      obtain ⟨t₁, ht₁, hnodes₁⟩ := ih hns' hdot' fun q hq => hfiles q (habove q hq)
      obtain ⟨t', ht', hnodes⟩ := ensureDir_next hns hdot hfile
        (by rw [hnodes₁, if_pos ⟨List.prefix_append _ _, List.prefix_refl _⟩]) hnodes₁
      refine ⟨t', ?_, hnodes⟩
      rw [walk_missing hns' hdot' hnode fun q hq => hfiles q (habove q hq), Outcome.error_bind]
      dsimp only
      rw [ht₁]
      exact ht'

end Directories

/-! ## Operations on absolute paths -/

/-- An absolute path is walked from the root. -/
theorem resolve_absolute {path : String} (h : isAbsolute path) :
    t.resolve path = t.walk [] (pieces path) := by
  have hne : path ≠ "" := fun heq => by rw [heq] at h; exact absurd h (by decide)
  rw [resolve, if_neg hne, start, if_pos h]

/-- An absolute path without `..` leads to the place of its components. -/
theorem eq_of_resolve {path : String} (h : isAbsolute path) (hdots : ".." ∉ pieces path)
    {place : List String} (hplace : t.resolve path = .ok place) : place = components path := by
  rw [resolve_absolute h] at hplace
  exact eq_of_walk hdots hplace

/-- Where no file is in the way, a path looks up the place of its components. -/
theorem lookup_eq {path : String} (h : isAbsolute path) (hdots : ".." ∉ pieces path)
    (hfiles : ∀ q, q <+: components path → ∀ c, t.node q ≠ some (.file c)) :
    t.lookup path = t.node (components path) := by
  unfold lookup
  match hplace : t.resolve path with
  | .ok place =>
    rw [eq_of_resolve h hdots hplace]
  | .error e =>
    rw [resolve_absolute h] at hplace
    exact (walk_error hdots hfiles hplace).2.symm

/-- Where no file is in the way, the directory and all directories above it are made, and nothing
else changes. -/
theorem createDirAll_ok {path : String} (h : isAbsolute path) (hdots : ".." ∉ pieces path)
    (hfiles : ∀ q, q <+: components path → ∀ c, t.node q ≠ some (.file c)) :
    ∃ t', t.createDirAll path = (t', none) ∧
      ∀ q, t'.node q = if q <+: components path then some .dir else t.node q := by
  have hstart : t.start path = [] := by rw [start, if_pos h]
  have hdots' : ".." ∉ components path := fun hmem => hdots (List.mem_of_mem_filter hmem)
  have hdot : "." ∉ components path := fun hmem => by simpa using List.of_mem_filter hmem
  obtain ⟨t', ht', hnodes⟩ := createDirs_ok hdots' hdot t.root hfiles
  refine ⟨t', by rw [createDirAll, hstart, ht'], fun q => ?_⟩
  rw [hnodes]
  exact if_congr (by simp) rfl rfl

/-- A path whose last piece is a name leads there from a directory. -/
theorem resolve_name {path : String} (h : isAbsolute path) {ps : List String} {name : String}
    (hpieces : pieces path = ps ++ [name]) (hdots : ".." ∉ pieces path) (hname : name ≠ ".")
    (hdir : t.node (names ps) = some .dir) : t.resolve path = .ok (names ps ++ [name]) := by
  rw [hpieces] at hdots
  rw [resolve_absolute h, hpieces]
  have hps : ".." ∉ ps := fun hmem => hdots (List.mem_append_left _ hmem)
  have hdots' : name ≠ ".." := fun heq => hdots (by simp [heq])
  rw [← List.nil_append (names ps)] at hdir ⊢
  exact walk_name hps hdir hname hdots'

/-- In a directory that exists a file is created or replaced, and nothing else changes. -/
theorem createFile_ok {path : String} (h : isAbsolute path) {ps : List String} {name : String}
    (hpieces : pieces path = ps ++ [name]) (hdots : ".." ∉ pieces path) (hname : name ≠ ".")
    (hdir : t.node (names ps) = some .dir) (hnode : t.node (names ps ++ [name]) ≠ some .dir)
    (content : α) :
    ∃ t', t.createFile path content = .ok t' ∧
      ∀ q, t'.node q = if q = names ps ++ [name] then some (.file content) else t.node q := by
  rw [createFile, resolve_name h hpieces hdots hname hdir, Outcome.ok_bind]
  exact makeFile_ok hnode (by rwa [List.dropLast_concat]) content

/-- Where no file is in the way, a file is looked up at its name. -/
theorem lookup_name {path : String} (h : isAbsolute path) {ps : List String} {name : String}
    (hpieces : pieces path = ps ++ [name]) (hdots : ".." ∉ pieces path) (hname : name ≠ ".")
    (hfiles : ∀ q, q <+: names ps → ∀ c, t.node q ≠ some (.file c)) :
    t.lookup path = t.node (names ps ++ [name]) := by
  match hnode : t.node (names ps) with
  | some .dir => rw [lookup, resolve_name h hpieces hdots hname hnode]
  | some (.file c) => exact absurd hnode (hfiles _ (List.prefix_refl _) c)
  | none =>
    have hmissing : t.node (names ps ++ [name]) = none := by
      by_contra hne
      rw [t.closed _ _ hne] at hnode
      cases hnode
    rw [hmissing, lookup]
    match hplace : t.resolve path with
    | .ok place =>
      rw [resolve_absolute h, hpieces, walk_append] at hplace
      obtain ⟨place', hwalk, hplace⟩ := Outcome.bind_eq_ok_iff.mp hplace
      obtain rfl := eq_of_walk (fun hmem => hdots (hpieces ▸ List.mem_append_left _ hmem)) hwalk
      rw [walk, List.nil_append, hnode] at hplace
      cases hplace
    | .error e => rfl

/-- A directory that exists is removed with what is below it. -/
theorem removeDirAll_ok {path : String} (h : isAbsolute path) (hdots : ".." ∉ pieces path)
    (hdir : t.node (components path) = some .dir) :
    ∃ self, t.removeDirAll path = t.remove (components path) self := by
  have hwalk : t.resolve path = .ok (components path) := by
    rw [resolve_absolute h]
    rw [← List.nil_append (components path)] at hdir ⊢
    exact walk_of_dir hdots hdir
  rw [removeDirAll, hwalk]
  exact ⟨_, if_pos (isDir_iff.mpr hdir)⟩

end FileTree

end RQuery
