import LineShell.Proofs.Processes
import LineShell.Proofs.Columns

/-!
# The order of entries

A directory gives its entries in any order. In trees that are `Files.Reordered` every path leads to
the same place (`Files.Reordered.walk_eq`), and its file holds the same
(`Files.Reordered.content_eq`). So they have the same processes, and only the order in which these
are found differs (`ProcessTable.processes_perm`). Sorted by distinct numbers, they are one list
(`ProcessTable.sorted_eq_of_perm`).

`ProcessTable.scan_table` puts this together with the columns of the table.
-/

namespace LineShell

namespace Files

/-- The trees differ in nothing but the order of the entries of directories, in each of which a name
stands once. -/
structure Reordered (files files' : Files) : Prop where
  node : ∀ id : NodeId, files'.node? id = files.node? id ∨ ∃ parent entries entries',
    files.node? id = some (.directory parent entries) ∧
      files'.node? id = some (.directory parent entries') ∧
      entries.Perm entries' ∧ (entries.map Prod.fst).Nodup
  owner : ∀ id : NodeId, files'.inodes[id]?.map Inode.owner = files.inodes[id]?.map Inode.owner

variable {files files' : Files} {view : View} {name path : Bytes}

/-- Where each name stands once, it is found in any order. -/
theorem lookup_eq_of_perm {entries entries' : List (Bytes × NodeId)} (hperm : entries.Perm entries')
    (hnodup : (entries.map Prod.fst).Nodup) : entries'.lookup name = entries.lookup name := by
  induction hperm with
  | nil => rfl
  | cons e _ ih =>
    rw [List.map_cons, List.nodup_cons] at hnodup
    rw [List.lookup_cons, List.lookup_cons, ih hnodup.2]
  | swap e f l =>
    have hne : f.1 ≠ e.1 := fun heq => by simp [heq] at hnodup
    rw [List.lookup_cons, List.lookup_cons, List.lookup_cons, List.lookup_cons]
    by_cases he : name = e.1
    · have hf : (name == f.1) = false := by simpa [he] using hne.symm
      rw [hf]
    · have he : (name == e.1) = false := by simpa using he
      rw [he]
  | trans h _ ih ih' =>
    exact (ih' ((h.map Prod.fst).nodup_iff.mp hnodup)).trans (ih hnodup)

namespace Reordered

variable (h : files.Reordered files')
include h

/-! ## One name -/

theorem exists_directory {id parent : NodeId} {entries : List (Bytes × NodeId)}
    (hnode : files.node? id = some (.directory parent entries)) :
    ∃ entries', files'.node? id = some (.directory parent entries') := by
  rcases h.node id with heq | ⟨p, es, es', hes, hes', -⟩
  · exact ⟨entries, heq.trans hnode⟩
  · obtain ⟨rfl, rfl⟩ : p = parent ∧ es = entries := by simpa [hnode] using hes.symm
    exact ⟨es', hes'⟩

theorem node?_eq {id : NodeId}
    (hnode : ∀ parent entries, files.node? id = some (.directory parent entries) → False) :
    files'.node? id = files.node? id := by
  rcases h.node id with heq | ⟨p, es, es', hes, -⟩
  · exact heq
  · exact absurd hes (hnode p es)

theorem entries_perm (directory : NodeId) :
    (files.entries directory).Perm (files'.entries directory) := by
  rcases h.node directory with heq | ⟨p, es, es', hnode, hnode', hperm, -⟩
  · rw [entries, entries, heq]
  · rw [entries, entries, hnode, hnode']
    exact hperm

theorem child?_eq (directory : NodeId) (name : Bytes) :
    files'.child? directory name = files.child? directory name := by
  rcases h.node directory with heq | ⟨p, es, es', hnode, hnode', hperm, hnodup⟩
  · rw [child?, child?, heq]
  · rw [child?, child?, hnode, hnode']
    exact lookup_eq_of_perm hperm hnodup

theorem childOf_eq (directory : NodeId) (name : Bytes) :
    files'.childOf view directory name = files.childOf view directory name := by
  rw [childOf, childOf, h.child?_eq]
  rcases h.node directory with heq | ⟨p, es, es', hnode, hnode', -⟩
  · rw [heq]
  · rw [hnode, hnode']

theorem parent_eq (directory : NodeId) : files'.parent directory = files.parent directory := by
  rcases h.node directory with heq | ⟨p, es, es', hnode, hnode', -⟩
  · rw [parent, parent, heq]
  · rw [parent, parent, hnode, hnode']

theorem isDirectory_eq (id : NodeId) : files'.isDirectory id = files.isDirectory id := by
  rcases h.node id with heq | ⟨p, es, es', hnode, hnode', -⟩
  · rw [isDirectory, isDirectory, heq]
  · rw [isDirectory, isDirectory, hnode, hnode']
    rfl

theorem isLinked_eq (directory : NodeId) :
    files'.isLinked directory = files.isLinked directory := by
  rw [isLinked, isLinked, h.parent_eq]
  congr 1
  rw [Bool.eq_iff_iff, List.any_eq_true, List.any_eq_true]
  simp only [(h.entries_perm _).mem_iff]

/-! ## A path -/

theorem walk_eq (last : Last) (links : Nat) (directory : NodeId) (names : List Bytes) :
    files'.walk view last links directory names = files.walk view last links directory names := by
  fun_induction files.walk view last links directory names with
  | case1 => rw [walk]
  -- a directory leads on, whatever the order of its entries
  | case15 links directory x rest _ _ _ _ id _ parent entries hnode ih =>
    obtain ⟨entries', hnode'⟩ := h.exists_directory hnode
    rw [walk]
    simp [h.childOf_eq, *]
  -- every other node is the same in both trees
  | case16 links directory x rest _ _ _ _ id _ parent hnode
  | case17 links directory x rest _ _ _ _ id _ target hnode
  | case18 directory x rest _ _ _ _ id _ target hnode
  | case19 directory x rest _ _ _ _ id _ target hnode =>
    have hnode' : files'.node? id = files.node? id := h.node?_eq (by simp [hnode])
    rw [walk]
    simp [h.childOf_eq, *]
  | case20 directory x rest _ _ _ _ id _ target hnode _ _ _ ih =>
    have hnode' : files'.node? id = files.node? id := h.node?_eq (by simp [hnode])
    rw [walk]
    simp only [dite_eq_ite] at ih
    simp [h.childOf_eq, *]
  | case21 links directory x rest _ _ _ _ id _ _ hnode
  | case22 links directory x rest _ _ _ _ id _ _ hnode =>
    have hnode' := h.node?_eq hnode
    rw [walk]
    simp [h.childOf_eq, *]
  | case13 =>
    rw [walk]
    simp_all [h.childOf_eq, h.isDirectory_eq]
  | _ =>
    rw [walk]
    simp [h.childOf_eq, h.parent_eq, h.isLinked_eq, h.isDirectory_eq, *]

theorem resolve_eq (path : Bytes) (last : Last) :
    files'.resolve view path last = files.resolve view path last := by
  rw [resolve, resolve, h.walk_eq]

theorem resolveNode_eq (path : Bytes) (last : Last) :
    files'.resolveNode view path last = files.resolveNode view path last := by
  rw [resolveNode, resolveNode, h.resolve_eq]

theorem resolveDirectory_eq (path : Bytes) :
    files'.resolveDirectory view path = files.resolveDirectory view path := by
  rw [resolveDirectory, resolveDirectory, h.resolve_eq]
  simp only [h.isDirectory_eq]

/-- A file holds the same, and a directory can be read in neither tree. -/
theorem content_eq (path : Bytes) : files'.content view path = files.content view path := by
  have hread : ∀ id, files'.readAt id 0 (files'.size id) = files.readAt id 0 (files.size id) := by
    intro id
    rcases h.node id with heq | ⟨p, es, es', hnode, hnode', -⟩
    · rw [readAt, readAt, size, size, heq]
    · rw [readAt, readAt, hnode, hnode']
  rw [content, content, h.resolveNode_eq]
  simp only [hread]

end Reordered

end Files

namespace ProcessTable

variable {users : Nat → Option Text} {files files' : Files} {view : View} {root path : Bytes}
  {id : NodeId}

/-! ## Processes -/

section

variable (h : files.Reordered files')
include h

theorem process?_eq_of_reordered (path : Bytes) :
    process? users files' view path = process? users files view path := by
  have howner : owner? files' view path = owner? files view path := by
    rw [owner?, owner?, h.resolveNode_eq]
    simp only [h.owner]
  have hstat : stat? files' view (join path (Utf8.ofString "stat")) =
      stat? files view (join path (Utf8.ofString "stat")) := by
    rw [stat?, stat?, h.content_eq]
  rw [process?, process?, howner, hstat]

theorem processes_perm (root : Bytes) (directory : NodeId) :
    (processes users files view root directory).Perm
      (processes users files' view root directory) := by
  have hnumbers : (numbers files directory).Perm (numbers files' directory) :=
    ((h.entries_perm directory).map Prod.fst).filter isNumber
  simp only [processes, process?_eq_of_reordered h]
  exact hnumbers.filterMap _

end

/-- The status lines in a directory that can be read, in the order of its entries. -/
def stats (files : Files) (view : View) (root : Bytes) (directory : NodeId) : List Stat :=
  (numbers files directory).filterMap fun name => stat? files view (statPath (join root name))

/-- What was read from the status line of a process. -/
def statOf (e : ProcessEntry) : Stat := ⟨e.pid, e.name, e.state⟩

/-- A process is found for each status line that can be read, and for nothing else. -/
theorem map_statOf_processes (users : Nat → Option Text) (files : Files) (view : View)
    (root : Bytes) (directory : NodeId) :
    (processes users files view root directory).map statOf = stats files view root directory := by
  rw [processes, List.map_filterMap, stats]
  refine List.filterMap_congr fun name hname => ?_
  obtain ⟨hne, hslash⟩ := join_number (mem_numbers_iff.mp hname).2 root
  rw [process?_eq_map hne hslash, Option.map_map]
  exact congrFun Option.map_id_fun' _

/-! ## Sorting -/

theorem pairwise_sorted (entries : List ProcessEntry) :
    (sorted entries).Pairwise fun a b => a.pid ≤ b.pid := by
  have h : (sorted entries).Pairwise fun a b => decide (a.pid ≤ b.pid) = true := by
    refine List.pairwise_mergeSort (fun a b c hab hbc => ?_) (fun a b => ?_) entries
    · simp only [decide_eq_true_eq] at hab hbc ⊢
      omega
    · simp only [Bool.or_eq_true, decide_eq_true_eq]
      omega
  simpa only [decide_eq_true_eq] using h

variable {entries entries' : List ProcessEntry}

/-- Processes with distinct numbers have one order. -/
theorem sorted_eq_of_perm (hperm : entries.Perm entries')
    (hdistinct : (entries.map ProcessEntry.pid).Nodup) : sorted entries' = sorted entries := by
  have hsorted : (sorted entries').Perm (sorted entries) :=
    (sorted_perm entries').trans (hperm.symm.trans (sorted_perm entries).symm)
  refine List.Perm.eq_of_pairwise (fun a b ha hb hab hba => ?_) (pairwise_sorted entries')
    (pairwise_sorted entries) hsorted
  have ha' : a ∈ entries := hperm.mem_iff.mpr ((sorted_perm entries').mem_iff.mp ha)
  have hb' : b ∈ entries := (sorted_perm entries).mem_iff.mp hb
  exact List.inj_on_of_nodup_map hdistinct ha' hb' (Int.le_antisymm hab hba)

/-- Processes in order stay as they are. -/
theorem sorted_eq_self (h : entries.Pairwise fun a b => a.pid ≤ b.pid) :
    sorted entries = entries :=
  List.mergeSort_of_pairwise (by simpa only [decide_eq_true_eq] using h)

theorem strictly_sorted (hdistinct : (entries.map ProcessEntry.pid).Nodup) :
    (sorted entries).Pairwise fun a b => a.pid < b.pid := by
  have hne := ((sorted_perm entries).map ProcessEntry.pid).nodup_iff.mpr hdistinct
  rw [List.nodup_iff_pairwise_ne, List.pairwise_map] at hne
  exact ((pairwise_sorted entries).and hne).imp Int.lt_iff_le_and_ne.mpr

/-! ## Listing -/

/-- The numbers in the status lines of the directory to which `root` leads are distinct. -/
def Distinct (files : Files) (view : View) (root : Bytes) : Prop :=
  ∀ id, files.resolveDirectory view root = .ok id → ((stats files view root id).map Stat.pid).Nodup

section

variable (hdistinct : Distinct files view root)
include hdistinct

theorem Distinct.nodup (users : Nat → Option Text)
    (hid : files.resolveDirectory view root = .ok id) :
    ((processes users files view root id).map ProcessEntry.pid).Nodup := by
  have h := hdistinct id hid
  rw [← map_statOf_processes users, List.map_map] at h
  exact h

theorem Distinct.scan_eq (h : files.Reordered files') :
    scan users files' view root = scan users files view root := by
  by_cases hzero : 0 ∈ root
  · rw [scan, scan, if_pos (by simpa using hzero), if_pos (by simpa using hzero)]
  · cases hid : files.resolveDirectory view root with
    | error e => rw [scan, scan, h.resolveDirectory_eq, hid]
    | ok id =>
      have hid' := (h.resolveDirectory_eq root).trans hid
      rw [scan_eq_ok hzero hid, scan_eq_ok hzero hid',
        sorted_eq_of_perm (processes_perm h root id) (hdistinct.nodup users hid)]

end

/-- If the numbers in the status lines of a directory are distinct, the processes listed do not
depend on the order in which directories give their entries. There is a list wherever the root can be
named and leads to a directory. The processes are in strictly ascending order of their numbers, one for
each status line that can be read.

The table of any processes whose numbers have at most seven characters, and whose users, names and
states have no line end, has three lines more than there are processes, all as wide as the header.
Two lines below the place of a process is a row with its columns, from which its number can be read
again. -/
theorem scan_table (users : Nat → Option Text) (files : Files) (view : View) (root : Bytes) :
    (Distinct files view root →
      (∀ files', files.Reordered files' →
        scan users files' view root = scan users files view root) ∧
      (∀ id, 0 ∉ root → files.resolveDirectory view root = .ok id →
        ∃ entries, scan users files view root = .ok entries ∧
          ∀ files', files.Reordered files' → scan users files' view root = .ok entries) ∧
      ∀ entries, scan users files view root = .ok entries →
        entries.Pairwise (fun a b => a.pid < b.pid) ∧
        ∃ id, files.resolveDirectory view root = .ok id ∧
          (entries.map statOf).Perm (stats files view root id)) ∧
    ∀ entries : List ProcessEntry, (∀ e ∈ entries, Tabular e) →
      let table := Text.records '\n' (render entries)
      render entries = table.flatMap (· ++ ['\n']) ∧ table.length = entries.length + 3 ∧
      (∀ line ∈ table, line.length = header.length) ∧
      ∀ (i : Nat) e, entries[i]? = some e → ∃ line, table[i + 2]? = some line ∧ Columns line e ∧
        Decimal.integer? (Text.trim (line.take 7)) = some e.pid := by
  refine ⟨fun hdistinct => ⟨fun files' => hdistinct.scan_eq, fun id hzero hid => ?_,
    fun entries hscan => ?_⟩, fun entries hentries => ?_⟩
  · have hscan : scan users files view root = .ok (sorted (processes users files view root id)) :=
      scan_eq_ok hzero hid
    exact ⟨_, hscan, fun files' h => (hdistinct.scan_eq h).trans hscan⟩
  · obtain ⟨id, hid, rfl⟩ := exists_of_scan_eq_ok hscan
    refine ⟨strictly_sorted (hdistinct.nodup users hid), id, hid, ?_⟩
    rw [← map_statOf_processes users]
    exact (sorted_perm _).map statOf
  · intro table
    have htable : table = lines entries := records_render hentries
    rw [htable]
    refine ⟨rfl, by simp [lines], fun line hline => length_of_mem_lines hentries hline,
      fun i e hi => ⟨row e, getElem?_lines hi, ?_⟩⟩
    have hpid := (hentries e (List.mem_of_getElem? hi)).pid
    have hcolumns := (columns_row hpid).1
    exact ⟨hcolumns, hcolumns.integer? hpid⟩

/-- Two processes, in a directory that gives its entries in the order `entries`. -/
def pairTree (entries : List (Bytes × NodeId)) : Files := ⟨#[
  ⟨.directory 0 entries, 0⟩,
  ⟨.directory 0 [(Utf8.ofString "stat", 3)], 0⟩,
  ⟨.directory 0 [(Utf8.ofString "stat", 4)], 0⟩,
  ⟨.file (Utf8.ofString "12 (make) R 3") false, 0⟩,
  ⟨.file (Utf8.ofString "3 (kworker/0:1) I 2") false, 0⟩]⟩

/-- The entries of the two processes. -/
def pairEntries : List (Bytes × NodeId) := [(Utf8.ofString "12", 1), (Utf8.ofString "3", 2)]

theorem reordered_pairTree : (pairTree pairEntries).Reordered (pairTree pairEntries.reverse) where
  node id := by
    cases id with
    | zero => exact .inr ⟨0, _, _, rfl, rfl, (List.reverse_perm _).symm, by decide⟩
    | succ n => exact .inl (by simp [Files.node?, pairTree])
  owner id := by
    cases id <;> simp [pairTree]

theorem resolveDirectory_pairTree :
    (pairTree pairEntries).resolveDirectory { directory := 0 } [Path.slash] = .ok 0 := by cbv

theorem numbers_pairTree :
    numbers (pairTree pairEntries) 0 = [Utf8.ofString "12", Utf8.ofString "3"] := by decide +kernel

/-- The status line of the first. -/
def makeLine : StatusLine :=
  ⟨12, Utf8.ofString "make", 'R', Utf8.ofString " 3", ⟨by decide, by decide⟩, rfl, by decide,
    by decide⟩

/-- The status line of the second. -/
def workerLine : StatusLine :=
  ⟨3, Utf8.ofString "kworker/0:1", 'I', Utf8.ofString " 2", ⟨by decide, by decide⟩, rfl, by decide,
    by decide⟩

/-- What is read of the two processes, in the order of the entries. -/
theorem processes_pairTree :
    processes (fun _ => none) (pairTree pairEntries) { directory := 0 } [Path.slash] 0 =
      [⟨12, 0, ['0'], "make".toList, 'R'⟩, ⟨3, 0, ['0'], "kworker/0:1".toList, 'I'⟩] := by
  have hread : ∀ (name : Bytes) (l : StatusLine), isNumber name = true → l.IsText →
      (pairTree pairEntries).content { directory := 0 } (statPath (join [Path.slash] name)) =
        .ok l.bytes →
      owner (pairTree pairEntries) { directory := 0 } (join [Path.slash] name) = 0 →
      process? (fun _ => none) (pairTree pairEntries) { directory := 0 } (join [Path.slash] name) =
        some (entry (fun _ => none) 0 l.stat) := by
    intro name l hname htext hline howner
    rw [process?_of_line hname hline, if_pos htext, howner]
  have hmake := hread (Utf8.ofString "12") makeLine (by decide +kernel) (by decide +kernel)
    (by cbv) (by cbv)
  have hworker := hread (Utf8.ofString "3") workerLine (by decide +kernel) (by decide +kernel)
    (by cbv) (by cbv)
  rw [processes, numbers_pairTree]
  simp only [List.filterMap_cons, List.filterMap_nil, hmake, hworker]
  decide +kernel

theorem distinct_pairTree : Distinct (pairTree pairEntries) { directory := 0 } [Path.slash] := by
  intro id hid
  obtain rfl : 0 = id := by simpa [resolveDirectory_pairTree] using hid
  rw [← map_statOf_processes fun _ => none, processes_pairTree]
  decide

/-- In both orders the two processes are listed, the one with the smaller number first, and the table
of them has five lines. -/
theorem scan_table_pair :
    let listed : List ProcessEntry :=
      [⟨3, 0, ['0'], "kworker/0:1".toList, 'I'⟩, ⟨12, 0, ['0'], "make".toList, 'R'⟩]
    Distinct (pairTree pairEntries) { directory := 0 } [Path.slash] ∧
    scan (fun _ => none) (pairTree pairEntries) { directory := 0 } [Path.slash] = .ok listed ∧
    scan (fun _ => none) (pairTree pairEntries.reverse) { directory := 0 } [Path.slash] =
      .ok listed ∧
    (Text.records '\n' (render listed)).length = 5 := by
  intro listed
  have h := scan_table (fun _ => none) (pairTree pairEntries) { directory := 0 } [Path.slash]
  obtain ⟨entries, hscan, hreversed⟩ :=
    (h.1 distinct_pairTree).2.1 0 (by decide) resolveDirectory_pairTree
  have hsorted : sorted [⟨12, 0, ['0'], "make".toList, 'R'⟩,
      ⟨3, 0, ['0'], "kworker/0:1".toList, 'I'⟩] = listed :=
    (sorted_eq_of_perm (.swap _ _ []) (by decide)).trans (sorted_eq_self (by decide))
  obtain rfl : entries = listed := by
    rw [scan_eq_ok (by decide) resolveDirectory_pairTree, processes_pairTree, hsorted] at hscan
    exact (Except.ok.inj hscan).symm
  have htabular : ∀ e ∈ listed, Tabular e := by
    simp only [listed, List.forall_mem_cons, List.not_mem_nil, false_imp_iff, implies_true, and_true]
    exact ⟨⟨by decide, by decide, by decide, by decide⟩, ⟨by decide, by decide, by decide, by decide⟩⟩
  exact ⟨distinct_pairTree, hscan, hreversed _ reordered_pairTree, (h.2 listed htabular).2.1⟩

end ProcessTable

end LineShell
