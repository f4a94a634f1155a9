import Mathlib
import LineShell.ProcessTable.Scan
import LineShell.Proofs.Plain
import LineShell.Proofs.StatusLine

/-!
# Which processes are found

Where the path of a file in a directory leads somewhere, so does the path of the directory
(`Files.exists_resolveNode_of_append`). So a directory in which the status line can be read has an
owner (`ProcessTable.owner?_eq_some`), and a process is found exactly if its status line can be read
(`ProcessTable.process?_eq_map`).

`StatusLine` is a status line as a system writes it, with any bytes at all for the name. It is text
if its name and its rest are (`StatusLine.valid_bytes_iff`), and only then it is read
(`StatusLine.read`). `ProcessTable.scan_statusLines` : of numbered directories that all have such a
line, those whose lines are text are listed, each one once.
-/

namespace LineShell

/-! ## Below a directory -/

namespace Path

variable {path name : Bytes}

/-- A name of an entry of a directory. -/
structure Ordinary (name : Bytes) : Prop where
  ne_nil : name ≠ []
  not_mem : slash ∉ name
  ne_here : name ≠ here
  ne_above : name ≠ above

theorem hasTrailingSlash_append (hne : name ≠ []) (h : slash ∉ name) (path : Bytes) :
    hasTrailingSlash (path ++ name) = false := by
  rw [hasTrailingSlash, List.getLast?_append_of_ne_nil _ hne, List.getLast?_eq_some_getLast hne]
  refine decide_eq_false fun heq => h ?_
  rw [← Option.some.inj heq]
  exact List.getLast_mem hne

/-- The names of a path in a directory. -/
theorem names_append_slash (hpath : hasTrailingSlash path = false) (hne : name ≠ [])
    (h : slash ∉ name) : names (path ++ slash :: name) = names path ++ [name] := by
  have hlast : hasTrailingSlash (path ++ slash :: name) = false := by
    rw [← List.singleton_append, ← List.append_assoc]
    exact hasTrailingSlash_append hne h _
  have hkeep : (!List.isEmpty name) = true := by simpa using hne
  rw [names, names, hlast, hpath, Text.filter_records_append, Text.records_of_not_mem hne h]
  simp [hkeep]

end Path

namespace Files

variable {files : Files} {view : View} {links : Nat} {directory id : NodeId} {names : List Bytes}
  {name path bytes : Bytes} {place : Place}

/-- Who follows names up to one more has followed them to a node. -/
theorem exists_walk_of_walk_append
    (h : files.walk view .follow links directory (names ++ [name]) = .ok place) :
    ∃ id, files.walk view .follow links directory names = .ok (.node id) ∧
      ∃ links', files.walk view .follow links' id [name] = .ok place := by
  fun_induction files.walk view .follow links directory names with
  | case1 links directory => exact ⟨directory, rfl, links, h⟩
  | case2 links directory x rest hx ih =>
    rw [List.cons_append, walk, if_pos hx] at h
    exact ih h
  | case3 links directory rest hx ih =>
    rw [List.cons_append, walk, if_neg hx, if_pos rfl] at h
    exact ih h
  -- the path of no file to be made, and no link that is kept
  | case4 links directory x rest _ _ hcreate => simp at hcreate
  | case8 links directory x rest _ _ _ _ n opened _ hkeep => simp at hkeep
  | case17 links directory x rest _ _ _ _ id _ target _ hkeep => simp at hkeep
  | case12 | case15 | case16 | case20 =>
    -- the name is passed, and the others are followed from where it leads
    rename_i ih
    rw [List.cons_append, walk] at h
    simp only [*] at h ih
    exact ih (by simpa [*] using h)
  | _ =>
    rw [List.cons_append, walk] at h
    simp [*] at h

/-- An ordinary name leads on only from a node that is in the tree. -/
theorem isSome_node?_of_walk (hname : Path.Ordinary name)
    (h : files.walk view .follow links directory [name] = .ok (.node id)) :
    (files.node? directory).isSome = true := by
  by_contra hnone
  have hnode : files.node? directory = none := by simpa using hnone
  have hchild : files.childOf view directory name = .missing := by
    simp [childOf, child?, hnode]
  rw [walk, if_neg (by simp [hname.ne_nil, hname.ne_here]), if_neg hname.ne_above] at h
  simp only [hchild] at h
  repeat' split at h
  all_goals cases h

theorem resolve_eq_walk (hne : path ≠ []) (hlimit : path.length ≤ Path.limit) :
    files.resolve view path = files.walk view .follow Path.linkLimit
      (if Path.isAbsolute path then 0 else view.directory) (Path.names path) := by
  rw [resolve, if_neg (by simpa using hne), if_neg (Nat.not_lt.mpr hlimit)]

/-- If a path in a directory leads to a node, the path of the directory leads to one of the tree. -/
theorem exists_resolveNode_of_append (hne : path ≠ []) (hslash : Path.hasTrailingSlash path = false)
    (hname : Path.Ordinary name)
    (h : files.resolveNode view (path ++ Path.slash :: name) = .ok id) :
    ∃ directory, files.resolveNode view path = .ok directory ∧
      (files.node? directory).isSome = true := by
  have hlong : (path ++ Path.slash :: name).length ≤ Path.limit := by
    by_contra hlt
    rw [resolveNode, resolve, if_neg (by simp), if_pos (Nat.not_le.mp hlt)] at h
    cases h
  have hlimit : path.length ≤ Path.limit := by
    rw [List.length_append] at hlong
    omega
  have habsolute : Path.isAbsolute (path ++ Path.slash :: name) = Path.isAbsolute path := by
    rw [Path.isAbsolute, Path.isAbsolute, List.head?_append_of_ne_nil _ hne]
  rw [resolveNode, resolve_eq_walk (by simp) hlong, habsolute,
    Path.names_append_slash hslash hname.ne_nil hname.not_mem] at h
  split at h
  · rename_i hwalk
    cases h
    obtain ⟨directory, hdirectory, links, hlast⟩ := exists_walk_of_walk_append hwalk
    refine ⟨directory, ?_, isSome_node?_of_walk hname hlast⟩
    rw [resolveNode, resolve_eq_walk hne hlimit, hdirectory]
  · cases h
  · cases h

end Files

namespace ProcessTable

variable {users : Nat → Option Text} {files : Files} {view : View} {root path name bytes : Bytes}
  {id : NodeId}

/-- The path of the status line in a directory. -/
def statPath (directory : Bytes) : Bytes := join directory (Utf8.ofString "stat")

/-- The user to whom a path belongs, where it leads to a node. -/
def owner (files : Files) (view : View) (path : Bytes) : Nat := (owner? files view path).getD 0

/-- The process of a user of which a status line says `s`. -/
def entry (users : Nat → Option Text) (uid : Nat) (s : Stat) : ProcessEntry :=
  ⟨s.pid, uid, userName users uid, s.name, s.state⟩

/-- The names in a directory that are numbers. -/
def numbers (files : Files) (directory : NodeId) : List Bytes :=
  ((files.entries directory).map Prod.fst).filter isNumber

/-- A number has no slash. -/
theorem not_mem_of_isNumber (h : isNumber name = true) : name ≠ [] ∧ Path.slash ∉ name := by
  obtain ⟨i, hbind⟩ := Option.isSome_iff_exists.mp h
  obtain ⟨t, ht, hi⟩ := Option.bind_eq_some_iff.mp hbind
  obtain rfl := Utf8.decode?_eq_some_iff.mp ht
  refine ⟨?_, ?_⟩
  · intro hnil
    have hdecode : Utf8.decode? [] = some [] := by simp [Utf8.decode?]
    rw [hnil, hdecode] at ht
    cases ht
    cases hi
  · rw [Path.slash, Utf8.mem_encode_iff (by decide)]
    intro hmem
    rcases (Decimal.integer?_eq_some_iff.mp hi).mem _ hmem with h | h | h <;> revert h <;> decide

/-- The path of a numbered directory does not end with a slash. -/
theorem join_number (h : isNumber name = true) (root : Bytes) :
    join root name ≠ [] ∧ Path.hasTrailingSlash (join root name) = false := by
  obtain ⟨hne, hslash⟩ := not_mem_of_isNumber h
  unfold join
  split
  · exact ⟨by simp [hne], Path.hasTrailingSlash_append hne hslash root⟩
  · refine ⟨by simp, ?_⟩
    rw [← List.singleton_append, ← List.append_assoc]
    exact Path.hasTrailingSlash_append hne hslash _

/-- A directory in which the status line can be read has an owner. -/
theorem owner?_eq_some (hne : path ≠ []) (hslash : Path.hasTrailingSlash path = false)
    (h : files.content view (statPath path) = .ok bytes) :
    owner? files view path = some (owner files view path) := by
  have hstat : Path.Ordinary (Utf8.ofString "stat") := ⟨by decide, by decide, by decide, by decide⟩
  have hpath : statPath path = path ++ Path.slash :: Utf8.ofString "stat" := by
    rw [statPath, join, hslash]
    rfl
  rw [hpath, Files.content] at h
  split at h
  · cases h
  · split at h
    · cases h
    · rename_i hnode
      obtain ⟨directory, hdirectory, hsome⟩ :=
        Files.exists_resolveNode_of_append hne hslash hstat hnode
      obtain ⟨inode, hinode⟩ := Option.isSome_iff_exists.mp hsome
      obtain ⟨i, hi, -⟩ := Option.map_eq_some_iff.mp hinode
      simp [owner, owner?, hdirectory, hi]

/-- Where its status line can be read, a process is found with what the line says and with the
owner of the directory. -/
theorem process?_eq_map (hne : path ≠ []) (hslash : Path.hasTrailingSlash path = false) :
    process? users files view path =
      (stat? files view (statPath path)).map (entry users (owner files view path)) := by
  cases hs : stat? files view (statPath path) with
  | none =>
    rw [process?, ← statPath, hs]
    cases owner? files view path <;> rfl
  | some s =>
    obtain ⟨bytes, hbytes⟩ : ∃ bytes, files.content view (statPath path) = .ok bytes := by
      unfold stat? at hs
      split at hs
      · exact ⟨_, ‹_›⟩
      · cases hs
    rw [process?, ← statPath, hs, owner?_eq_some hne hslash hbytes]
    rfl

end ProcessTable

/-! ## Status lines with any name -/

/-- A status line as a system writes it. The name is any bytes, the state is no blank, and behind
the name is no closing parenthesis. -/
structure StatusLine where
  pid : Int
  name : Bytes
  state : Char
  rest : Bytes
  isShort : Decimal.IsShort pid
  visible : Text.isBlank state = false
  ne_close : state ≠ ')'
  not_mem : 0x29 ∉ rest

namespace StatusLine

variable {l : StatusLine}

/-- The bytes of the line. -/
def bytes (l : StatusLine) : Bytes :=
  Utf8.encode (Decimal.ofInt l.pid) ++ Utf8.ofString " (" ++ l.name ++ Utf8.ofString ") "
    ++ Utf8.encode [l.state] ++ l.rest

/-- The name is text, and so is what stands behind the state. -/
def IsText (l : StatusLine) : Prop := Utf8.Valid l.name ∧ Utf8.Valid l.rest

instance (l : StatusLine) : Decidable l.IsText := inferInstanceAs (Decidable (_ ∧ _))

/-- What the line says. -/
def stat (l : StatusLine) : Stat :=
  ⟨l.pid, (Utf8.decodeLossy l.name).take Stat.nameWidth, l.state⟩

theorem bytes_eq (l : StatusLine) : l.bytes = Utf8.encode (Decimal.ofInt l.pid ++ [' ']) ++
    0x28 :: (l.name ++ 0x29 :: (Utf8.encode [' ', l.state] ++ l.rest)) := by
  simp only [bytes, Utf8.encode_append, List.append_assoc]
  rfl

theorem valid_bytes_iff : Utf8.Valid l.bytes ↔ l.IsText := by
  rw [bytes_eq, Utf8.valid_append_ascii_iff (by decide), Utf8.valid_append_ascii_iff (by decide),
    (Utf8.valid_encode _).append_iff, IsText]
  exact and_iff_right (Utf8.valid_encode _)

/-- The line is read if it is text, and gives what it says. -/
theorem read (l : StatusLine) :
    (Utf8.decode? l.bytes).bind Stat.parse? = if l.IsText then some l.stat else none := by
  split
  · rename_i h
    obtain ⟨n, hn⟩ := h.1
    obtain ⟨r, hr⟩ := h.2
    have hbytes : l.bytes = Utf8.encode ([] ++ Decimal.ofInt l.pid ++ [' '] ++
        '(' :: (n ++ ')' :: ([' '] ++ l.state :: r))) := by
      rw [bytes_eq, hn, hr, ← Utf8.encode_append, ← Stat.encode_append_close,
        ← Stat.encode_append_open]
      rfl
    have hrest : ')' ∉ l.state :: r := by
      have hnot := l.not_mem
      rw [hr, Stat.close_mem_encode_iff] at hnot
      simp [hnot, l.ne_close.symm]
    have hblank : Text.IsBlank [' '] := fun c hc => (List.mem_singleton.mp hc) ▸ rfl
    have hpid := Decimal.integers_ofInt l.isShort
    rw [hbytes, Utf8.decode?_encode, Option.bind_some, Stat.parse?_eq_some_iff]
    refine ⟨n, .intro hpid Text.isBlank_nil hblank hblank l.visible hrest, ?_⟩
    rw [stat, hn, Utf8.decodeLossy_encode]
  · rename_i h
    rw [← valid_bytes_iff, ← Utf8.isSome_decode?_iff, Option.not_isSome_iff_eq_none] at h
    rw [h, Option.bind_none]

end StatusLine

/-! ## Listing -/

namespace ProcessTable

variable {users : Nat → Option Text} {files : Files} {view : View} {root name : Bytes} {id : NodeId}
  {line : Bytes → StatusLine}

theorem mem_numbers_iff : name ∈ numbers files id ↔
    (∃ child, (name, child) ∈ files.entries id) ∧ isNumber name = true := by
  simp [numbers]

/-- The processes in a directory, in the order of its entries. -/
def processes (users : Nat → Option Text) (files : Files) (view : View) (root : Bytes)
    (directory : NodeId) : List ProcessEntry :=
  (numbers files directory).filterMap fun name => process? users files view (join root name)

/-- Processes in the order of their numbers. -/
def sorted (entries : List ProcessEntry) : List ProcessEntry :=
  entries.mergeSort fun a b => a.pid ≤ b.pid

theorem sorted_perm (entries : List ProcessEntry) : (sorted entries).Perm entries :=
  List.mergeSort_perm _ _

theorem scan_eq_ok (hzero : 0 ∉ root) (hroot : files.resolveDirectory view root = .ok id) :
    scan users files view root = .ok (sorted (processes users files view root id)) := by
  rw [scan, if_neg (by simpa using hzero), hroot]
  rfl

/-- What is listed was found in a directory. -/
theorem exists_of_scan_eq_ok {entries : List ProcessEntry}
    (h : scan users files view root = .ok entries) :
    ∃ id, files.resolveDirectory view root = .ok id ∧
      entries = sorted (processes users files view root id) := by
  have hzero : 0 ∉ root := by
    intro hzero
    rw [scan, if_pos (by simpa using hzero)] at h
    cases h
  cases hid : files.resolveDirectory view root with
  | error e =>
    rw [scan, if_neg (by simpa using hzero), hid] at h
    cases h
  | ok id =>
    rw [scan_eq_ok hzero hid] at h
    cases h
    exact ⟨id, rfl, rfl⟩

/-- A process is found exactly if its status line is text. -/
theorem process?_of_line {l : StatusLine} (hname : isNumber name = true)
    (hline : files.content view (statPath (join root name)) = .ok l.bytes) :
    process? users files view (join root name) =
      if l.IsText then some (entry users (owner files view (join root name)) l.stat) else none := by
  obtain ⟨hne, hslash⟩ := join_number hname root
  rw [process?_eq_map hne hslash, stat?, hline]
  simp only [StatusLine.read]
  split <;> rfl

/-- Let all the numbered directories of a directory have status lines as a system writes them. Then
a list of processes is found, in which each one whose line is text stands once, with what the line
says and with the owner of its directory, and nothing else. So no process is missing exactly if all
the lines are text. -/
theorem scan_statusLines (hzero : 0 ∉ root) (hroot : files.resolveDirectory view root = .ok id)
    (hline : ∀ name ∈ numbers files id,
      files.content view (statPath (join root name)) = .ok (line name).bytes) :
    ∃ entries, scan users files view root = .ok entries ∧
      (∀ name ∈ numbers files id,
        owner? files view (join root name) = some (owner files view (join root name))) ∧
      entries.Perm (((numbers files id).filter fun name => (line name).IsText).map fun name =>
        entry users (owner files view (join root name)) (line name).stat) ∧
      (entries.length = (numbers files id).length ↔
        ∀ name ∈ numbers files id, (line name).IsText) := by
  have hlisted : processes users files view root id =
      ((numbers files id).filter fun name => (line name).IsText).map fun name =>
        entry users (owner files view (join root name)) (line name).stat := by
    rw [processes, ← List.filterMap_eq_map, List.filterMap_filter]
    refine List.filterMap_congr fun name hname => ?_
    rw [process?_of_line (mem_numbers_iff.mp hname).2 (hline name hname)]
    simp
  refine ⟨_, scan_eq_ok hzero hroot, fun name hname => ?_, ?_, ?_⟩
  · obtain ⟨hne, hslash⟩ := join_number (mem_numbers_iff.mp hname).2 root
    exact owner?_eq_some hne hslash (hline name hname)
  · rw [← hlisted]
    exact sorted_perm _
  · rw [(sorted_perm _).length_eq, hlisted, List.length_map, List.length_filter_eq_length_iff]
    simp

/-- Two processes. The name of the second ends inside a character. -/
def dividedTree : Files := ⟨#[
  ⟨.directory 0 [(Utf8.ofString "1", 1), (Utf8.ofString "7", 2)], 0⟩,
  ⟨.directory 0 [(Utf8.ofString "stat", 3)], 0⟩,
  ⟨.directory 0 [(Utf8.ofString "stat", 4)], 0⟩,
  ⟨.file (Utf8.ofString "1 (init) S 0") false, 0⟩,
  ⟨.file (Utf8.ofString "7 (ééééééé" ++ 0xC3 :: Utf8.ofString ") S 1") false, 0⟩]⟩

/-- The status lines of the two processes. -/
def dividedLine (name : Bytes) : StatusLine :=
  if name = Utf8.ofString "1" then
    ⟨1, Utf8.ofString "init", 'S', Utf8.ofString " 0", ⟨by decide, by decide⟩, rfl, by decide,
      by decide⟩
  else
    ⟨7, Utf8.ofString "ééééééé" ++ [0xC3], 'S', Utf8.ofString " 1", ⟨by decide, by decide⟩, rfl,
      by decide, by decide⟩

theorem resolveDirectory_dividedTree :
    dividedTree.resolveDirectory { directory := 0 } [Path.slash] = .ok 0 := by cbv

theorem numbers_dividedTree :
    numbers dividedTree 0 = [Utf8.ofString "1", Utf8.ofString "7"] := by decide +kernel

theorem content_dividedTree : ∀ name ∈ numbers dividedTree 0,
    dividedTree.content { directory := 0 } (statPath (join [Path.slash] name)) =
      .ok (dividedLine name).bytes := by
  rw [numbers_dividedTree]
  simp only [List.forall_mem_cons, List.not_mem_nil, false_imp_iff, implies_true, and_true]
  exact ⟨by cbv, by cbv⟩

theorem scan_statusLines_divided : ∃ entries,
    scan (fun _ => none) dividedTree { directory := 0 } [Path.slash] = .ok entries ∧
      entries.length ≠ (numbers dividedTree 0).length := by
  obtain ⟨entries, hscan, -, -, hall⟩ :=
    scan_statusLines (by decide) resolveDirectory_dividedTree content_dividedTree
  refine ⟨entries, hscan, fun hlength => absurd (hall.mp hlength) ?_⟩
  rw [numbers_dividedTree]
  decide +kernel

/-- Both processes have a status line as a system writes it, and one of them is not listed. -/
theorem not_all_listed_divided :
    (∀ name ∈ numbers dividedTree 0,
      dividedTree.content { directory := 0 } (statPath (join [Path.slash] name)) =
        .ok (dividedLine name).bytes) ∧
    (numbers dividedTree 0).length = 2 ∧
    scan (fun _ => none) dividedTree { directory := 0 } [Path.slash] =
      .ok [⟨1, 0, ['0'], "init".toList, 'S'⟩] := by
  have hline := content_dividedTree
  rw [numbers_dividedTree] at hline
  have howner : owner dividedTree { directory := 0 }
      (join [Path.slash] (Utf8.ofString "1")) = 0 := by cbv
  have hfirst : process? (fun _ => none) dividedTree { directory := 0 }
      (join [Path.slash] (Utf8.ofString "1")) = some ⟨1, 0, ['0'], "init".toList, 'S'⟩ := by
    rw [process?_of_line (by decide +kernel) (hline _ (by simp)), if_pos (by decide +kernel),
      howner]
    decide +kernel
  have hsecond : process? (fun _ => none) dividedTree { directory := 0 }
      (join [Path.slash] (Utf8.ofString "7")) = none := by
    rw [process?_of_line (by decide +kernel) (hline _ (by simp)), if_neg (by decide +kernel)]
  refine ⟨content_dividedTree, by rw [numbers_dividedTree]; rfl, ?_⟩
  rw [scan_eq_ok (by decide) resolveDirectory_dividedTree, processes, numbers_dividedTree]
  simp only [sorted, List.filterMap_cons, hfirst, hsecond, List.filterMap_nil,
    List.mergeSort_singleton]

end ProcessTable

end LineShell
