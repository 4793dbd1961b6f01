/-
What the texts that a search returns lead to. A text that is found is the path of an entry, written
with forward slashes. It gives the path back, and so opens the very file that was found, exactly if
there is no backslash in the path; for a file system a backslash is a character of a name like any
other.

Below one root no path is found twice, since the paths found in a directory begin with different
names.
-/
import BuildOrder.Proofs.Discovery.Listing
import BuildOrder.Proofs.Loading.Fates
import Mathlib.Data.List.Nodup

namespace BuildOrder

open Relation

/-! ## Backslashes -/

theorem Text.backslash_not_mem_forwardSlashes (text : String) :
    '\\' ∉ (Text.forwardSlashes text).toList := by
  unfold forwardSlashes
  rw [String.toList_ofList, List.mem_map]
  rintro ⟨c, -, hc⟩
  split at hc
  · exact absurd hc (by decide)
  · contradiction

theorem Text.forwardSlashes_eq_self_iff {text : String} :
    Text.forwardSlashes text = text ↔ '\\' ∉ text.toList := by
  constructor
  · intro h
    rw [← h]
    exact backslash_not_mem_forwardSlashes text
  · intro h
    have hmap : text.toList.map (fun c => if c = '\\' then '/' else c) = text.toList.map id :=
      List.map_congr_left fun c hc => if_neg (ne_of_mem_of_not_mem hc h)
    unfold forwardSlashes
    rw [hmap, List.map_id, String.ofList_toList]

/-- A path without a backslash, and only such a path, is given back by its text with forward
slashes. -/
theorem Path.IsPlain.ofString_normalized_iff {p : Path} (h : p.IsPlain) :
    Path.ofString p.normalized = p ↔ '\\' ∉ p.toString.toList := by
  unfold normalized
  constructor
  · intro hp hm
    rw [← hp] at hm
    rcases mem_toString_ofString hm with hc | hc | hc
    · exact absurd hc (by decide)
    · exact absurd hc (by decide)
    · exact Text.backslash_not_mem_forwardSlashes _ hc
  · intro hm
    rw [Text.forwardSlashes_eq_self_iff.2 hm, h.ofString_toString]

/-! ## Names of modules -/

theorem Text.afterLastSlash_append {front name : List Char} (hname : '/' ∉ name)
    (hfront : front = [] ∨ front.getLast? = some '/') : afterLastSlash (front ++ name) = name := by
  have hstop : front.reverse.takeWhile (· ≠ '/') = [] := by
    rcases hfront with rfl | hlast
    · rfl
    · rw [← List.head?_reverse] at hlast
      obtain ⟨rest, hrest⟩ := List.head?_eq_some_iff.1 hlast
      rw [hrest]
      rfl
  unfold afterLastSlash
  rw [List.reverse_append, List.takeWhile_append_of_pos, hstop, List.append_nil,
    List.reverse_reverse]
  intro c hc
  exact decide_eq_true fun he => hname (he ▸ List.mem_reverse.1 hc)

/-- The path of an entry gives a module the same name as the name of the entry alone. -/
theorem BuildFile.moduleName_child {p : Path} {name : String} (hslash : '/' ∉ name.toList)
    (hb : '\\' ∉ (p.child name).toString.toList) :
    moduleName (p.child name).normalized = moduleName name := by
  have hbname : '\\' ∉ name.toList := fun hm =>
    hb ((Path.mem_toString_child_iff (by decide) (by decide)).2 (.inr hm))
  have hbase : Text.afterLastSlash (p.child name).toString.toList = name.toList := by
    obtain ⟨front, htext, hfront⟩ := p.exists_toString_child name
    rw [htext, Text.afterLastSlash_append hslash hfront]
  have hbase' : Text.afterLastSlash ([] ++ name.toList) = name.toList :=
    Text.afterLastSlash_append hslash (.inl rfl)
  rw [List.nil_append] at hbase'
  unfold moduleName Path.normalized
  rw [Text.forwardSlashes_eq_self_iff.2 hb, Text.forwardSlashes_eq_self_iff.2 hb,
    Text.forwardSlashes_eq_self_iff.2 hbname, hbase, hbase']

namespace FileTree

/-! ## Entries that are found -/

/-- A build file that a search below a root comes to: a file, or a link to one, with the path by
which the search has come to it and the place where it lies. -/
inductive BuildEntry (t : FileTree) (root : Path) : Path → List String → Prop
  | intro {path : Path} {d : Directory} {row : String × Entry}
      (below : ReflTransGen t.Subdirectory path root)
      (directory : t.directory? path = .ok (some d)) (entry : row ∈ d.entries)
      (named : BuildFile.isName row.1 = true) (file : t.isFile (path.child row.1) = true) :
      BuildEntry t root (path.child row.1) (d.reached.place ++ [row.1])

theorem BuildEntry.sub {t : FileTree} {root path p : Path} {place : List String}
    (h : t.BuildEntry path p place) (hs : t.Subdirectory path root) : t.BuildEntry root p place := by
  obtain ⟨below, directory, entry, named, file⟩ := h
  exact .intro (below.tail hs) directory entry named file

/-- A listing holds the build files that are in or below its directory. -/
theorem Listing.mem_iff {t : FileTree} {root p : Path} {paths : List Path}
    (h : t.Listing root paths) : p ∈ paths ↔ ∃ place, t.BuildEntry root p place := by
  induction h with
  | @intro path d names below hd hperm hord hsub ih =>
    rw [List.mem_append, List.mem_flatMap]
    constructor
    · rintro (hp | ⟨q, hq, hp⟩)
      · obtain ⟨name, hn, rfl, hb, hf⟩ := mem_filesAt.1 hp
        obtain ⟨row, hm, rfl⟩ := List.mem_map.1 (hperm.mem_iff.1 hn)
        exact ⟨_, .intro .refl hd hm hb hf⟩
      · obtain ⟨place, he⟩ := (ih q hq).1 hp
        exact ⟨place, he.sub (subdirectory_of_mem hd hperm hq)⟩
    · rintro ⟨place, @⟨q, d', row, hq, hd', hm, hb, hf⟩⟩
      rcases ReflTransGen.cases_tail hq with rfl | ⟨b, hqb, hb'⟩
      · obtain rfl := eq_of_directory? hd hd'
        exact .inl (mem_filesAt.2 ⟨row.1, hperm.mem_iff.2 (List.mem_map_of_mem hm), rfl, hb, hf⟩)
      · have hdir := mem_of_subdirectory hd hperm hb'
        exact .inr ⟨b, hdir, (ih b hdir).2 ⟨_, .intro hqb hd' hm hb hf⟩⟩

theorem isPlain_of_subdirectory {t : FileTree} (ht : t.Proper) {root path : Path}
    (hp : root.IsPlain) (h : ReflTransGen t.Subdirectory path root) : path.IsPlain := by
  induction h using ReflTransGen.head_induction_on with
  | refl => exact hp
  | head hstep _ ih =>
    obtain ⟨hd, hm, -⟩ := hstep
    have hn := isName_of_mem ht hd hm
    exact Path.isPlain_child ih hn.ne_empty hn.ne_dot hn.slash_not_mem

/-- The path of an entry leads to the place of the entry. -/
theorem locate_child {t : FileTree} (ht : t.Proper) {path : Path} {d : Directory}
    (hd : t.directory? path = .ok (some d)) {row : String × Entry} (hm : row ∈ d.entries) :
    t.locate (path.child row.1) = .ok (d.reached.place ++ [row.1]) := by
  have hn := isName_of_mem ht hd hm
  obtain ⟨-, hr, hg⟩ := directory?_eq_some_iff.1 hd
  have hwalk : t.walk maxLinks (t.startOf path) path.parts = .ok d.reached := by
    unfold resolve at hr
    split at hr
    · exact hr
    · cases hr
  exact (locate_child_iff hn).2
    ⟨d.reached, d.entries, row.2, hwalk, hg, lookup_of_directory? ht hd hm, rfl⟩

/-! ## No path is found twice -/

theorem exists_parts_of_subdirectory {t : FileTree} {root path : Path}
    (h : ReflTransGen t.Subdirectory path root) : ∃ names, path.parts = root.parts ++ names := by
  induction h using ReflTransGen.head_induction_on with
  | refl => exact ⟨[], (List.append_nil _).symm⟩
  | head hstep _ ih =>
    obtain ⟨names, hparts⟩ := ih
    obtain @⟨path, -, -, row, -, -, -⟩ := hstep
    refine ⟨names ++ [row.1], ?_⟩
    rw [← List.append_assoc, ← hparts]
    rfl

/-- The paths that are found in and below a directory go on from its path. -/
theorem BuildEntry.exists_parts {t : FileTree} {root p : Path} {place : List String}
    (h : t.BuildEntry root p place) : ∃ name names, p.parts = root.parts ++ name :: names := by
  obtain @⟨path, -, row, below, -, -, -, -⟩ := h
  obtain ⟨names, hparts⟩ := exists_parts_of_subdirectory below
  have hchild : (path.child row.1).parts = root.parts ++ (names ++ [row.1]) := by
    rw [← List.append_assoc, ← hparts]
    rfl
  cases names with
  | nil => exact ⟨_, _, hchild⟩
  | cons name names => exact ⟨name, names ++ [row.1], hchild⟩

theorem child_injective (path : Path) : Function.Injective path.child := by
  intro a b h
  have hparts : path.parts ++ [a] = path.parts ++ [b] := congrArg Path.parts h
  exact List.singleton_inj.1 (List.append_cancel_left hparts)

/-- A listing holds no path twice. -/
theorem Listing.nodup {t : FileTree} {root : Path} {paths : List Path} (h : t.Listing root paths) :
    paths.Nodup := by
  induction h with
  | @intro path d names below hd hperm hord hsub ih =>
    have hnames : names.Nodup := hord.imp ne_of_lt
    have hdirs : (t.directoriesAt path names).Nodup :=
      (hnames.map (child_injective path)).filter _
    have hlength : ∀ q ∈ t.directoriesAt path names, q.parts.length = path.parts.length + 1 := by
      intro q hq
      obtain ⟨name, -, rfl, -⟩ := mem_directoriesAt.1 hq
      exact List.length_append
    -- what lies below a directory begins with its path, so it tells the directory
    have hbegin : ∀ q ∈ t.directoriesAt path names, ∀ p ∈ below q,
        ∃ name more, p.parts = q.parts ++ name :: more := by
      intro q hq p hp
      obtain ⟨place, he⟩ := (hsub q hq).mem_iff.1 hp
      exact he.exists_parts
    rw [List.nodup_append', List.nodup_flatMap]
    refine ⟨(hnames.filter _).map (child_injective path), ⟨ih, ?_⟩, ?_⟩
    · refine hdirs.imp_of_mem fun {q q'} hq hq' hne p hp hp' => hne ?_
      obtain ⟨name, more, hparts⟩ := hbegin q hq p hp
      obtain ⟨name', more', hparts'⟩ := hbegin q' hq' p hp'
      have heq := (List.append_inj (hparts.symm.trans hparts')
        ((hlength q hq).trans (hlength q' hq').symm)).1
      obtain ⟨n, -, rfl, -⟩ := mem_directoriesAt.1 hq
      obtain ⟨n', -, rfl, -⟩ := mem_directoriesAt.1 hq'
      exact congrArg (Path.mk path.slashes) heq
    · intro p hp hp'
      obtain ⟨n, -, rfl, -⟩ := mem_filesAt.1 hp
      obtain ⟨q, hq, hp'⟩ := List.mem_flatMap.1 hp'
      obtain ⟨name, more, hparts⟩ := hbegin q hq _ hp'
      have hlen := congrArg List.length hparts
      have hchild : (path.child n).parts.length = path.parts.length + 1 := List.length_append
      rw [hchild, List.length_append, hlength q hq, List.length_cons] at hlen
      omega

/-! ## Opening what is found -/

/-- A text opens what was found by a path at a place: it names the entry at this place, the bytes
that are read are those that the path leads to, and if no module comes of them, it is their fault. -/
structure Opens (t : FileTree) (text : String) (p : Path) (place : List String) : Prop where
  locates : t.locate (.ofString text) = .ok place
  reads : ∃ bytes, t.read (.ofString text) = .ok (.ok bytes) ∧ t.read p = .ok (.ok bytes) ∧
    ∀ d, t.loadModule text = .ok (.error d) → ∀ source, Text.decodeFile bytes = .ok source →
      ∃ f, Module.ofSource (BuildFile.moduleName text) (BuildFile.moduleDirectory text) source =
        .error f

theorem fault_of_loadModule {t : FileTree} {text : String} {bytes : List UInt8}
    (hr : t.read (.ofString text) = .ok (.ok bytes)) {d : Diagnostic}
    (h : t.loadModule text = .ok (.error d)) {source : String}
    (hd : Text.decodeFile bytes = .ok source) :
    ∃ f, Module.ofSource (BuildFile.moduleName text) (BuildFile.moduleDirectory text) source =
      .error f := by
  unfold loadModule at h
  simp only [hr, hd, bind, Except.bind, pure, Except.pure] at h
  split at h
  · rename_i f hf
    exact ⟨f, hf⟩
  · cases h

theorem BuildEntry.isPlain {t : FileTree} (ht : t.Proper) {root p : Path} {place : List String}
    (hr : root.IsPlain) (h : t.BuildEntry root p place) : p.IsPlain := by
  obtain ⟨below, directory, entry, -, -⟩ := h
  have hn := isName_of_mem ht directory entry
  exact Path.isPlain_child (isPlain_of_subdirectory ht hr below) hn.ne_empty hn.ne_dot
    hn.slash_not_mem

theorem BuildEntry.locate {t : FileTree} (ht : t.Proper) {root p : Path} {place : List String}
    (h : t.BuildEntry root p place) : t.locate p = .ok place := by
  obtain ⟨-, directory, entry, -, -⟩ := h
  exact locate_child ht directory entry

theorem BuildEntry.null_not_mem {t : FileTree} (ht : t.Proper) {root p : Path}
    {place : List String} (h : t.BuildEntry root p place) : '\x00' ∉ p.toString.toList := by
  obtain ⟨-, directory, entry, -, -⟩ := h
  exact null_not_mem_child ht directory entry

theorem BuildEntry.moduleName {t : FileTree} (ht : t.Proper) {root p : Path} {place : List String}
    (h : t.BuildEntry root p place) (hb : '\\' ∉ p.toString.toList) :
    ∃ front name, place = front ++ [name] ∧
      BuildFile.moduleName p.normalized = BuildFile.moduleName name := by
  obtain ⟨-, directory, entry, -, -⟩ := h
  exact ⟨_, _, rfl, BuildFile.moduleName_child (isName_of_mem ht directory entry).slash_not_mem hb⟩

theorem BuildEntry.opens {t : FileTree} (ht : t.Proper) {root p : Path} {place : List String}
    (hr : root.IsPlain) (h : t.BuildEntry root p place) (hb : '\\' ∉ p.toString.toList) :
    t.Opens p.normalized p place := by
  have hp := (h.isPlain ht hr).ofString_normalized_iff.2 hb
  have hfile : t.isFile p = true := by
    obtain ⟨-, -, -, -, file⟩ := h
    exact file
  obtain ⟨bytes, hread⟩ := isFile_eq_true_iff.1 hfile
  have hread' : t.read (.ofString p.normalized) = .ok (.ok bytes) := by rw [hp, hread]
  refine ⟨by rw [hp, h.locate ht], bytes, hread', hread, fun d hd source hs => ?_⟩
  exact fault_of_loadModule hread' hd hs

theorem BuildEntry.isDirectory {t : FileTree} {root p : Path} {place : List String}
    (h : t.BuildEntry root p place) : t.isDirectory root = true := by
  obtain ⟨below, directory, -, -, -⟩ := h
  rw [isDirectory_eq_true_iff]
  rcases ReflTransGen.cases_tail below with rfl | ⟨-, -, ⟨hroot, -, -⟩⟩
  · exact ⟨_, directory⟩
  · exact ⟨_, hroot⟩

theorem mem_listings_iff {t : FileTree} {roots : List Path} {listings : List (List Path)}
    (h : List.Forall₂ t.Listing roots listings) {p : Path} :
    p ∈ listings.flatten ↔ ∃ root ∈ roots, ∃ place, t.BuildEntry root p place := by
  induction h with
  | nil => simp
  | cons hl _ ih =>
    rw [List.flatten_cons, List.mem_append, hl.mem_iff, ih]
    simp only [List.mem_cons, exists_eq_or_imp]

theorem nodup_flatten_of_length_le_one {t : FileTree} {roots : List Path}
    {listings : List (List Path)} (h : List.Forall₂ t.Listing roots listings)
    (hlength : roots.length ≤ 1) : listings.flatten.Nodup := by
  cases h with
  | nil => exact List.nodup_nil
  | cons hl hrest =>
    rw [List.length_cons, Nat.succ_le_succ_iff, Nat.le_zero, List.length_eq_zero_iff] at hlength
    subst hlength
    cases hrest
    rw [List.flatten_singleton]
    exact hl.nodup

/-- The paths that a search finds, listing by listing. -/
theorem exists_found {t : FileTree} (ht : t.Proper) {roots files : List String} {log log' : Log}
    (h : t.discover roots log = .ok files log') :
    ∃ listings, List.Forall₂ t.Listing ((roots.map Path.ofString).filter t.isDirectory) listings ∧
      files = listings.flatten.map Path.normalized ∧
      ∀ p, p ∈ listings.flatten ↔
        ∃ root ∈ roots, ∃ place, t.BuildEntry (.ofString root) p place := by
  obtain ⟨listings, hl, hfiles⟩ := (listed_of_discover ht h).files
  refine ⟨listings, hl, hfiles, fun p => ?_⟩
  rw [mem_listings_iff hl]
  constructor
  · rintro ⟨_, hroot, place, he⟩
    obtain ⟨root, hm, rfl⟩ := List.mem_map.1 (List.mem_filter.1 hroot).1
    exact ⟨root, hm, place, he⟩
  · rintro ⟨root, hm, place, he⟩
    exact ⟨_, List.mem_filter.2 ⟨List.mem_map_of_mem hm, he.isDirectory⟩, place, he⟩

/-- What a search returns is the paths of the build files below the roots, with forward slashes. Such
a text gives its path back, and opens what was found, if the path has no backslash; otherwise it is
the text of another path. So different entries without backslashes have different texts, and below
one root no path is found twice. -/
theorem found_opens {t : FileTree} (ht : t.Proper) {roots files : List String} {log log' : Log}
    (h : t.discover roots log = .ok files log') :
    ∃ paths : List Path, files = paths.map Path.normalized ∧
      (∀ p, p ∈ paths ↔ ∃ root ∈ roots, ∃ place, t.BuildEntry (.ofString root) p place) ∧
      (∀ p ∈ paths, Path.ofString p.normalized = p ↔ '\\' ∉ p.toString.toList) ∧
      (∀ root p place, t.BuildEntry (.ofString root) p place → '\\' ∉ p.toString.toList →
        t.Opens p.normalized p place) ∧
      (∀ root p place root' p' place', t.BuildEntry (.ofString root) p place →
        t.BuildEntry (.ofString root') p' place' → '\\' ∉ p.toString.toList →
        '\\' ∉ p'.toString.toList → place ≠ place' → p.normalized ≠ p'.normalized) ∧
      (roots.length ≤ 1 → paths.Nodup) := by
  obtain ⟨listings, hl, hfiles, hmem⟩ := exists_found ht h
  refine ⟨listings.flatten, hfiles, hmem, ?_, ?_, ?_, ?_⟩
  · intro p hp
    obtain ⟨root, -, place, he⟩ := (hmem p).1 hp
    exact (he.isPlain ht (Path.isPlain_ofString root)).ofString_normalized_iff
  · intro root p place he hb
    exact he.opens ht (Path.isPlain_ofString root) hb
  · intro root p place root' p' place' he he' hb hb' hne heq
    have hplace := (he.opens ht (Path.isPlain_ofString root) hb).locates
    rw [heq, (he'.opens ht (Path.isPlain_ofString root') hb').locates] at hplace
    exact hne (Except.ok.inj hplace).symm
  · intro hlength
    refine nodup_flatten_of_length_le_one hl ((List.length_filter_le ..).trans ?_)
    rwa [List.length_map]

/-! ## Directories of one entry -/

section Singletons

variable {t : FileTree} {links : Nat} {place : List String} {shown : Path} {name : String}

theorem sorted_singleton (row : String × Entry) : sorted [row] = [row] :=
  List.mergeSort_singleton _

/-- The search of a directory with a build file. -/
theorem buildFiles_file {content : List UInt8} (ha : t.admits (shown.child name) = true)
    (hb : BuildFile.isName name = true) :
    t.buildFiles links place shown [(name, .file content)] =
      .ok [(shown.child name).normalized] := by
  rw [buildFiles_eq, sorted_singleton, List.filterMapM_cons]
  dsimp only
  rw [buildFileAt_file ha hb]
  rfl

/-- The search of a directory with a directory in it. -/
theorem buildFiles_directory {sub : Entries} (ha : t.admits (shown.child name) = true)
    {files : List String}
    (hsub : t.buildFiles links (place ++ [name]) (shown.child name) sub = .ok files) :
    t.buildFiles links place shown [(name, .directory sub)] = .ok files := by
  have hbelow : t.buildFilesIn links place shown name (.directory sub) = .ok files := hsub
  rw [buildFiles_eq, sorted_singleton, List.filterMapM_cons, List.mapM_cons]
  dsimp only
  rw [buildFileAt_directory ha, hbelow]
  show Except.ok ([] ++ (files ++ [])) = _
  rw [List.nil_append, List.append_nil]

end Singletons

/-- A directory with a single file. -/
def single (name : String) (content : List UInt8) : FileTree where
  top := .directory [(name, .file content)]
  here := []
  pathLimit := none

theorem searchRoot_single {name : String} (hb : BuildFile.isName name = true)
    (content : List UInt8) :
    (single name content).searchRoot "." = .ok (some [Text.forwardSlashes name]) := by
  have hpath : (Path.ofString ".").child name = ⟨0, [name]⟩ := by
    rw [show Path.ofString "." = ⟨0, []⟩ by decide]
    rfl
  unfold searchRoot
  rw [directory?_here (t := single name content) rfl rfl]
  dsimp only
  rw [buildFiles_file (admits_of_pathLimit_eq_none rfl _) hb, hpath, Path.normalized,
    Path.toString_name]
  rfl

theorem read_single {name : String} (hn : IsName name) (content : List UInt8) :
    (single name content).read ((Path.ofString ".").child name) = .ok (.ok content) := by
  have hpath : (Path.ofString ".").child name = ⟨0, [name]⟩ := by
    rw [show Path.ofString "." = ⟨0, []⟩ by decide]
    rfl
  have htop : (single name content).get? [] = some (.directory [(name, .file content)]) := rfl
  have hnull : '\x00' ∉ (Path.mk 0 [name]).toString.toList := by
    rw [Path.toString_name]
    exact hn.null_not_mem
  rw [hpath]
  exact read_of_get? hnull (admits_of_pathLimit_eq_none rfl _) (List.forall_mem_singleton.2 hn)
    (get?_concat htop List.lookup_cons_self)

/-- The text that is found for a file with a backslash in its name leads nowhere. -/
theorem found_backslash :
    (single "a\\b.build" []).discover ["."] .empty = .ok ["a/b.build"] .empty ∧
      (single "a\\b.build" []).loadModule "a/b.build" = .ok (.error ⟨.error,
        "Failed to read a/b.build: [Errno 2] No such file or directory: 'a/b.build'", none,
        .unknown⟩) := by
  have hb : BuildFile.isName "a\\b.build" = true := by decide +kernel
  have hpath : Path.ofString "a/b.build" = ⟨0, ["a", "b.build"]⟩ := by decide
  have hresolve : (single "a\\b.build" []).resolve (.ofString "a/b.build") = .error .noEntry := by
    unfold resolve
    rw [if_pos (admits_of_pathLimit_eq_none rfl _), hpath]
    exact walk_of_missing rfl (by decide) rfl _ _
  have hread := read_of_error (by decide) hresolve
  rw [show (Path.ofString "a/b.build").toString = "a/b.build" by decide] at hread
  exact ⟨discover_singleton (searchRoot_single hb []) .empty, Fails.loadModule (.unread hread)⟩

/-! ## A directory with three build files -/

/-- A build file with needs. -/
def appBytes : List UInt8 := "module App \x7b deps = [Net, Zip, Net] \x7d".toUTF8.toList

/-- A build file without any. -/
def netBytes : List UInt8 := "module Net \x7b\x7d".toUTF8.toList

/-- A directory with three build files, two of them of one name. -/
def workshop : FileTree where
  top := .directory [
    ("app", .directory [("App.build", .file appBytes)]),
    ("lib", .directory [("net", .directory [("Net.build", .file netBytes)])]),
    ("old", .directory [("Net.build", .file netBytes)])]
  here := []
  pathLimit := none

theorem proper_workshop : workshop.Proper := by
  have hnet : Entry.Proper (.directory [("Net.build", .file netBytes)]) :=
    .directory (by decide) (by decide) (List.forall_mem_singleton.2 (.file _))
  refine .directory (by decide) (by decide) ?_
  simp only [List.forall_mem_cons, List.not_mem_nil, false_implies, implies_true, and_true]
  refine ⟨?_, ?_, hnet⟩
  · exact .directory (by decide) (by decide) (List.forall_mem_singleton.2 (.file _))
  · exact .directory (by decide) (by decide) (List.forall_mem_singleton.2 hnet)

theorem directory?_workshop :
    workshop.directory? ⟨0, ["app"]⟩ =
        .ok (some ⟨⟨["app"], maxLinks⟩, [("App.build", .file appBytes)]⟩) ∧
      workshop.directory? ⟨0, ["lib"]⟩ =
        .ok (some ⟨⟨["lib"], maxLinks⟩, [("net", .directory [("Net.build", .file netBytes)])]⟩) ∧
      workshop.directory? ⟨0, ["lib", "net"]⟩ =
        .ok (some ⟨⟨["lib", "net"], maxLinks⟩, [("Net.build", .file netBytes)]⟩) ∧
      workshop.directory? ⟨0, ["old"]⟩ =
        .ok (some ⟨⟨["old"], maxLinks⟩, [("Net.build", .file netBytes)]⟩) := by
  refine ⟨?_, ?_, ?_, ?_⟩ <;> exact directory?_of_get? (by decide) rfl (by decide) rfl

theorem read_workshop :
    workshop.read ⟨0, ["app", "App.build"]⟩ = .ok (.ok appBytes) ∧
      workshop.read ⟨0, ["lib", "net", "Net.build"]⟩ = .ok (.ok netBytes) ∧
      workshop.read ⟨0, ["old", "Net.build"]⟩ = .ok (.ok netBytes) := by
  refine ⟨?_, ?_, ?_⟩ <;> exact read_of_get? (by decide) rfl (by decide) rfl

theorem isName_workshop :
    BuildFile.isName "App.build" = true ∧ BuildFile.isName "Net.build" = true := by
  decide +kernel

theorem roots_workshop : Path.ofString "app" = ⟨0, ["app"]⟩ ∧ Path.ofString "lib" = ⟨0, ["lib"]⟩ ∧
    Path.ofString "old" = ⟨0, ["old"]⟩ := by
  decide

theorem texts_workshop :
    (Path.mk 0 ["app", "App.build"]).normalized = "app/App.build" ∧
      (Path.mk 0 ["lib", "net", "Net.build"]).normalized = "lib/net/Net.build" ∧
      (Path.mk 0 ["old", "Net.build"]).normalized = "old/Net.build" := by
  decide

theorem buildFiles_workshop (links : Nat) (place : List String) :
    workshop.buildFiles links place ⟨0, ["app"]⟩ [("App.build", .file appBytes)] =
        .ok ["app/App.build"] ∧
      workshop.buildFiles links place ⟨0, ["lib"]⟩
          [("net", .directory [("Net.build", .file netBytes)])] = .ok ["lib/net/Net.build"] ∧
      workshop.buildFiles links place ⟨0, ["old"]⟩ [("Net.build", .file netBytes)] =
        .ok ["old/Net.build"] := by
  have hadmits (path : Path) := admits_of_pathLimit_eq_none (t := workshop) rfl path
  refine ⟨?_, ?_, ?_⟩
  · rw [buildFiles_file (hadmits _) isName_workshop.1]
    exact congrArg (Except.ok [·]) texts_workshop.1
  · rw [buildFiles_directory (hadmits _) (buildFiles_file (hadmits _) isName_workshop.2)]
    exact congrArg (Except.ok [·]) texts_workshop.2.1
  · rw [buildFiles_file (hadmits _) isName_workshop.2]
    exact congrArg (Except.ok [·]) texts_workshop.2.2

theorem searchRoot_workshop :
    workshop.searchRoot "app" = .ok (some ["app/App.build"]) ∧
      workshop.searchRoot "lib" = .ok (some ["lib/net/Net.build"]) ∧
      workshop.searchRoot "old" = .ok (some ["old/Net.build"]) := by
  obtain ⟨happ, hlib, -, hold⟩ := directory?_workshop
  obtain ⟨happ', -, -⟩ := buildFiles_workshop maxLinks ["app"]
  obtain ⟨-, hlib', -⟩ := buildFiles_workshop maxLinks ["lib"]
  obtain ⟨-, -, hold'⟩ := buildFiles_workshop maxLinks ["old"]
  unfold searchRoot
  rw [roots_workshop.1, roots_workshop.2.1, roots_workshop.2.2, happ, hlib, hold]
  dsimp only
  rw [happ', hlib', hold']
  exact ⟨rfl, rfl, rfl⟩

theorem searchRoot_gone_workshop : workshop.searchRoot "gone" = .ok none := by
  have hresolve : workshop.resolve ⟨0, ["gone"]⟩ = .error .noEntry := by
    unfold resolve
    rw [if_pos (admits_of_pathLimit_eq_none rfl _)]
    exact walk_of_missing rfl (by decide) rfl _ _
  unfold searchRoot
  rw [show Path.ofString "gone" = ⟨0, ["gone"]⟩ by decide, directory?_of_noEntry hresolve]

theorem searchRoot_here_workshop : workshop.searchRoot "." =
    .ok (some ["app/App.build", "lib/net/Net.build", "old/Net.build"]) := by
  have hadmits (path : Path) := admits_of_pathLimit_eq_none (t := workshop) rfl path
  have happ : workshop.buildFilesIn maxLinks [] ⟨0, []⟩ "app"
      (.directory [("App.build", .file appBytes)]) = .ok ["app/App.build"] :=
    (buildFiles_workshop maxLinks ["app"]).1
  have hlib : workshop.buildFilesIn maxLinks [] ⟨0, []⟩ "lib"
      (.directory [("net", .directory [("Net.build", .file netBytes)])]) =
        .ok ["lib/net/Net.build"] := (buildFiles_workshop maxLinks ["lib"]).2.1
  have hold : workshop.buildFilesIn maxLinks [] ⟨0, []⟩ "old"
      (.directory [("Net.build", .file netBytes)]) = .ok ["old/Net.build"] :=
    (buildFiles_workshop maxLinks ["old"]).2.2
  unfold searchRoot
  rw [directory?_here (t := workshop) rfl rfl, show Path.ofString "." = ⟨0, []⟩ by decide]
  dsimp only
  rw [buildFiles_eq, sorted, List.mergeSort_of_pairwise (by decide)]
  simp only [List.filterMapM_cons, List.mapM_cons, buildFileAt_directory (hadmits _)]
  rw [show workshop.here = [] from rfl, happ, hlib, hold]
  rfl

theorem discover_workshop (log : Log) :
    workshop.discover ["app", "lib"] log = .ok ["app/App.build", "lib/net/Net.build"] log ∧
      workshop.discover ["lib", "old"] log = .ok ["lib/net/Net.build", "old/Net.build"] log := by
  obtain ⟨happ, hlib, hold⟩ := searchRoot_workshop
  exact ⟨discover_cons_of_ok happ (discover_singleton hlib log),
    discover_cons_of_ok hlib (discover_singleton hold log)⟩

theorem gives_workshop :
    workshop.Gives "app/App.build"
        { name := "App", directory := "app", dependencies := ["Net", "Zip", "Net"] } ∧
      workshop.Gives "lib/net/Net.build" { name := "Net", directory := "lib/net" } ∧
      workshop.Gives "old/Net.build" { name := "Net", directory := "old" } := by
  have hpaths : Path.ofString "app/App.build" = ⟨0, ["app", "App.build"]⟩ ∧
      Path.ofString "lib/net/Net.build" = ⟨0, ["lib", "net", "Net.build"]⟩ ∧
      Path.ofString "old/Net.build" = ⟨0, ["old", "Net.build"]⟩ := by
    decide
  have happ : Text.decodeFile appBytes = .ok "module App \x7b deps = [Net, Zip, Net] \x7d" := by
    decide +kernel
  have hnet : Text.decodeFile netBytes = .ok "module Net \x7b\x7d" := by decide +kernel
  obtain ⟨hreadApp, hreadNet, hreadOld⟩ := read_workshop
  rw [← hpaths.1] at hreadApp
  rw [← hpaths.2.1] at hreadNet
  rw [← hpaths.2.2] at hreadOld
  exact ⟨.parsed hreadApp happ (by decide +kernel), .parsed hreadNet hnet (by decide +kernel),
    .parsed hreadOld hnet (by decide +kernel)⟩

/-- The modules below two directories of the workshop. -/
def workshopModules : Catalog where
  rows := [
    ("App", { name := "App", directory := "app", dependencies := ["Net", "Zip", "Net"] }),
    ("Net", { name := "Net", directory := "lib/net" })]
  nodup := by decide

theorem loadAll_workshop (log : Log) :
    workshop.loadAll ["app/App.build", "lib/net/Net.build"] none log = .ok workshopModules log := by
  obtain ⟨happ, hnet, -⟩ := gives_workshop
  have heach : workshop.loadEach ["app/App.build", "lib/net/Net.build"] =
      { loaded := [
        ("app/App.build",
          { name := "App", directory := "app", dependencies := ["Net", "Zip", "Net"] }),
        ("lib/net/Net.build", { name := "Net", directory := "lib/net" })] } := by
    unfold loadEach loadEach loadEach
    rw [happ.loadModule, hnet.loadModule]
  rw [workshop.loadAll_of_pos _ (by simp), heach]
  dsimp only
  rw [Log.addAll_nil]
  exact congrArg (EStateM.Result.ok workshopModules) (Log.addAll_nil log)

theorem buildEntry_workshop :
    workshop.BuildEntry (.ofString "app") ⟨0, ["app", "App.build"]⟩ ["app", "App.build"] ∧
      workshop.BuildEntry (.ofString "lib") ⟨0, ["lib", "net", "Net.build"]⟩
        ["lib", "net", "Net.build"] := by
  obtain ⟨happ, hlib, hnet, -⟩ := directory?_workshop
  obtain ⟨hreadApp, hreadNet, -⟩ := read_workshop
  rw [roots_workshop.1, roots_workshop.2.1]
  exact ⟨.intro .refl happ (List.mem_singleton_self _) isName_workshop.1
      (isFile_eq_true_iff.2 ⟨_, hreadApp⟩),
    .intro (.single (.intro hlib (List.mem_singleton_self _) hnet)) hnet
      (List.mem_singleton_self _) isName_workshop.2 (isFile_eq_true_iff.2 ⟨_, hreadNet⟩)⟩

/-- Two texts that open two files, and three different paths below the working directory. -/
theorem found_opens_workshop :
    workshop.Proper ∧
      workshop.discover ["app", "lib"] .empty =
        .ok ["app/App.build", "lib/net/Net.build"] .empty ∧
      workshop.Opens "app/App.build" ⟨0, ["app", "App.build"]⟩ ["app", "App.build"] ∧
      workshop.Opens "lib/net/Net.build" ⟨0, ["lib", "net", "Net.build"]⟩
        ["lib", "net", "Net.build"] ∧
      "app/App.build" ≠ "lib/net/Net.build" ∧
      workshop.discover ["."] .empty =
        .ok ["app/App.build", "lib/net/Net.build", "old/Net.build"] .empty ∧
      ∃ paths : List Path, ["app/App.build", "lib/net/Net.build", "old/Net.build"] =
        paths.map Path.normalized ∧ paths.Nodup := by
  obtain ⟨happ, hnet⟩ := buildEntry_workshop
  have hslash : '\\' ∉ (Path.mk 0 ["app", "App.build"]).toString.toList ∧
      '\\' ∉ (Path.mk 0 ["lib", "net", "Net.build"]).toString.toList := by decide
  obtain ⟨-, -, -, -, hopens, hdiffer, -⟩ :=
    found_opens proper_workshop (discover_workshop .empty).1
  have hwhole := discover_singleton searchRoot_here_workshop .empty
  obtain ⟨paths, hfound, -, -, -, -, hnodup⟩ := found_opens proper_workshop hwhole
  have hoapp := hopens _ _ _ happ hslash.1
  have honet := hopens _ _ _ hnet hslash.2
  have hne := hdiffer _ _ _ _ _ _ happ hnet hslash.1 hslash.2 (by decide)
  rw [texts_workshop.1] at hoapp hne
  rw [texts_workshop.2.1] at honet hne
  exact ⟨proper_workshop, (discover_workshop .empty).1, hoapp, honet, hne, hwhole, paths, hfound,
    hnodup (by decide)⟩

end FileTree

end BuildOrder
