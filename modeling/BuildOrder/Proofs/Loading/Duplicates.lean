/-
Duplicates in the log. A run logs an error of a duplicate module for each file that gives a module
whose name an earlier file has given already, and no other diagnostic can be taken for such an error.

Two files are told apart by where they lie. Where no file is found twice a duplicate is always about
two different files; a file that is found twice is reported as a duplicate of itself.
-/
import BuildOrder.Proofs.Discovery.Overlap
import BuildOrder.Proofs.Loading.Contained
import BuildOrder.Proofs.Resolution
import BuildOrder.Proofs.BuildFile

namespace BuildOrder

open Relation Steps

/-! ## Errors of duplicates -/

/-- The beginning of what is said of a duplicate. -/
def duplicateFront : String := "Duplicate module: "

/-- Whether a diagnostic is the error of a duplicate module. -/
def Diagnostic.isDuplicate (d : Diagnostic) : Bool :=
  d.isError && duplicateFront.toList.isPrefixOf d.message.toList

/-- The errors of duplicate modules. -/
def Log.duplicates (log : Log) : List Diagnostic := log.entries.filter (·.isDuplicate)

theorem Diagnostic.isDuplicate_duplicate (name first path : String) :
    (Diagnostic.ofFault (.duplicate name first path)).isDuplicate = true := by
  have hmessage : (Diagnostic.ofFault (.duplicate name first path)).message =
      duplicateFront ++ (name ++ (" (first defined in " ++ (first ++ ")"))) := by
    show duplicateFront ++ name ++ " (first defined in " ++ first ++ ")" = _
    simp only [String.append_assoc]
  unfold isDuplicate
  rw [hmessage, String.toList_append, Bool.and_eq_true, List.isPrefixOf_iff_prefix]
  exact ⟨rfl, List.prefix_append ..⟩

/-- A message with another beginning is not that of a duplicate. -/
theorem Diagnostic.not_isDuplicate {d : Diagnostic} {front rest : String}
    (h : d.message = front ++ rest) (hfront : ¬ duplicateFront.toList <+: front.toList)
    (hfront' : ¬ front.toList <+: duplicateFront.toList) : d.isDuplicate = false := by
  unfold isDuplicate
  rw [Bool.and_eq_false_iff, ← Bool.not_eq_true, ← Bool.not_eq_true, List.isPrefixOf_iff_prefix, h,
    String.toList_append]
  refine .inr fun hpre => ?_
  rcases List.prefix_or_prefix_of_prefix hpre (List.prefix_append ..) with hle | hle
  · exact hfront hle
  · exact hfront' hle

namespace Log

theorem duplicates_addAll (log : Log) (ds : List Diagnostic) :
    (log.addAll ds).duplicates = log.duplicates ++ ds.filter (·.isDuplicate) :=
  filter_addAll ..

theorem duplicates_add_of_not {d : Diagnostic} (h : d.isDuplicate = false) (log : Log) :
    (log.add d).duplicates = log.duplicates :=
  filter_add_of_not h log

theorem duplicates_info (log : Log) (message : String) :
    (log.info message).duplicates = log.duplicates :=
  duplicates_add_of_not rfl log

end Log

/-! ## What else is logged -/

/-- How the messages of a text begin that is refused. -/
theorem Module.message_of_ofSource {name directory source : String} {f : Fault}
    (h : ofSource name directory source = .error f) :
    ∃ front rest, f.message = front ++ rest ∧
      front ∈ ["Unterminated string", "Unterminated block comment", "Expected "] := by
  rw [ofSource_eq_map] at h
  unfold ModuleBlock.ofSource at h
  cases ht : tokenize source with
  | error e =>
    rw [ht] at h
    cases h
    cases e with
    | unterminatedString opening =>
      exact ⟨"Unterminated string", "", String.append_empty.symm, by decide⟩
    | unterminatedComment stop =>
      exact ⟨"Unterminated block comment", "", String.append_empty.symm, by decide⟩
  | ok tokens =>
    rw [ht] at h
    dsimp only at h
    cases hb : Parse.block tokens with
    | ok b s =>
      rw [hb] at h
      cases h
    | error e s =>
      rw [hb] at h
      cases h
      refine ⟨"Expected ", e.expected.name ++ (", got " ++ e.found.kind.name), ?_, by decide⟩
      show "Expected " ++ e.expected.name ++ ", got " ++ e.found.kind.name = _
      simp only [String.append_assoc]

theorem Diagnostic.not_isDuplicate_unread (path reason : String) :
    (⟨.error, s!"Failed to read {path}: {reason}", none, .unknown⟩ : Diagnostic).isDuplicate =
      false := by
  have hmessage : s!"Failed to read {path}: {reason}" =
      "Failed to read " ++ (path ++ (": " ++ reason)) := by
    show "Failed to read " ++ path ++ ": " ++ reason = _
    simp only [String.append_assoc]
  exact not_isDuplicate hmessage (by decide) (by decide)

namespace FileTree

theorem Fails.not_isDuplicate {t : FileTree} {path : String} {d : Diagnostic}
    (h : t.Fails path d) : d.isDuplicate = false := by
  cases h with
  | unread hr => exact Diagnostic.not_isDuplicate_unread ..
  | undecoded hr hd => exact Diagnostic.not_isDuplicate_unread ..
  | faulty hr hd hs =>
    obtain ⟨front, rest, hmessage, hfront⟩ := Module.message_of_ofSource hs
    simp only [List.mem_cons, List.not_mem_nil, or_false] at hfront
    rcases hfront with rfl | rfl | rfl <;>
      exact Diagnostic.not_isDuplicate hmessage (by decide) (by decide)

theorem duplicates_discover {t : FileTree} {roots files : List String} {log log' : Log}
    (h : t.discover roots log = .ok files log') : log'.duplicates = log.duplicates := by
  rw [discover_of_searchable (searchable_of_discover h)] at h
  cases h
  have hnone : (roots.flatMap t.warningsOf).filter (·.isDuplicate) = [] := by
    refine List.filter_eq_nil_iff.2 fun d hd => ?_
    obtain ⟨root, -, hd⟩ := List.mem_flatMap.1 hd
    unfold warningsOf at hd
    split at hd
    · obtain rfl := List.mem_singleton.1 hd
      exact Bool.false_ne_true
    · cases hd
  rw [Log.duplicates_addAll, hnone, List.append_nil]

end FileTree

theorem Catalog.duplicates_resolve (c : Catalog) (log : Log) :
    (c.resolve log).2.duplicates = log.duplicates := by
  have hunknown : c.unknownWarnings.filter (·.isDuplicate) = [] := by
    refine List.filter_eq_nil_iff.2 fun d hd => ?_
    have hd := Catalog.not_isError_unknownWarnings hd
    unfold Diagnostic.isDuplicate
    rw [hd]
    exact Bool.false_ne_true
  have hloaded : ((log.info s!"Loaded {c.size} modules").addAll c.unknownWarnings).duplicates =
      log.duplicates := by
    rw [Log.duplicates_addAll, hunknown, List.append_nil, Log.duplicates_info]
  unfold resolve
  dsimp only
  split
  · refine (Log.duplicates_add_of_not ?_ _).trans hloaded
    rename_i cycle _
    have hmessage : (Diagnostic.ofFault (.ofCycle cycle)).message =
        "Dependency cycle detected: " ++ " -> ".intercalate cycle := rfl
    exact Diagnostic.not_isDuplicate hmessage (by decide) (by decide)
  · exact (Log.duplicates_info ..).trans hloaded

/-! ## Duplicates among files -/

namespace FileTree

/-- The faults of the files whose names earlier files have given already. -/
def duplicatesOf (t : FileTree) (files : List String) : List Fault :=
  (Merge.ofList (t.loadEach files).loaded).duplicates

theorem HasFate.dropped?_eq_some_iff {t : FileTree} {before : List String} {path : String}
    {fate : Fate} (h : t.HasFate before path fate) {f : Fault} :
    fate.dropped? = some f ↔ ∃ first, (t.moduleOf? path).isSome ∧
      t.firstOf? before (BuildFile.moduleName path) = some first ∧
      f = .duplicate (BuildFile.moduleName path) first path := by
  constructor
  · intro hf
    cases h with
    | kept => cases hf
    | failed => cases hf
    | dropped hm hfirst =>
      cases hf
      exact ⟨_, by rw [moduleOf?_eq_some_iff.2 hm]; rfl, hfirst, rfl⟩
  · rintro ⟨first, hm, hfirst, rfl⟩
    obtain ⟨m, hm⟩ := Option.isSome_iff_exists.1 hm
    rw [h.unique (.dropped (moduleOf?_eq_some_iff.1 hm) hfirst)]
    rfl

/-- The files that are dropped, by the files in front of them. -/
theorem Fates.mem_dropped_iff {t : FileTree} {before files : List String} {fates : List Fate}
    (h : t.Fates before files fates) {f : Fault} :
    f ∈ fates.filterMap Fate.dropped? ↔ ∃ front path back first, files = front ++ path :: back ∧
      (t.moduleOf? path).isSome ∧
      t.firstOf? (before ++ front) (BuildFile.moduleName path) = some first ∧
      f = .duplicate (BuildFile.moduleName path) first path := by
  rw [List.mem_filterMap]
  induction h with
  | nil => simp
  | @cons before files path fate fates hfate hs ih =>
    simp only [List.mem_cons, exists_eq_or_imp]
    rw [hfate.dropped?_eq_some_iff, ih]
    constructor
    · rintro (⟨first, hm, hfirst, hf⟩ | ⟨front, p, back, first, hfiles, hm, hfirst, hf⟩)
      · exact ⟨[], path, files, first, rfl, hm, by rwa [List.append_nil], hf⟩
      · rw [List.append_assoc] at hfirst
        exact ⟨path :: front, p, back, first, by rw [hfiles]; rfl, hm, hfirst, hf⟩
    · rintro ⟨front, p, back, first, hfiles, hm, hfirst, hf⟩
      cases front with
      | nil =>
        cases hfiles
        rw [List.append_nil] at hfirst
        exact .inl ⟨first, hm, hfirst, hf⟩
      | cons q front =>
        cases hfiles
        refine .inr ⟨front, p, back, first, rfl, hm, ?_, hf⟩
        rwa [List.append_assoc]

theorem Fates.fails_of_mem {t : FileTree} {before files : List String} {fates : List Fate}
    (h : t.Fates before files fates) {d : Diagnostic} (hd : d ∈ fates.filterMap Fate.failed?) :
    ∃ path, t.Fails path d := by
  induction h with
  | nil => cases hd
  | cons hfate _ ih =>
    cases hfate with
    | kept => exact ih hd
    | failed hf =>
      rcases List.mem_cons.1 hd with rfl | hd
      · exact ⟨_, hf⟩
      · exact ih hd
    | dropped => exact ih hd

theorem mem_duplicatesOf_iff {t : FileTree} {files : List String}
    (hfiles : ∀ path ∈ files, '\x00' ∉ path.toList) {f : Fault} :
    f ∈ t.duplicatesOf files ↔ ∃ front path back first, files = front ++ path :: back ∧
      (t.moduleOf? path).isSome ∧
      t.firstOf? front (BuildFile.moduleName path) = some first ∧
      f = .duplicate (BuildFile.moduleName path) first path := by
  obtain ⟨fates, hs, -, -, -, hd⟩ := exists_fates hfiles (Merge.follows_empty t)
  rw [show t.duplicatesOf files = fates.filterMap Fate.dropped? from hd, hs.mem_dropped_iff]
  rfl

theorem duplicates_loadAll {t : FileTree} {files : List String} {workers : Option Int}
    {log log' : Log} {c : Catalog} (h : t.loadAll files workers log = .ok c log') :
    log'.duplicates = log.duplicates ++ (t.duplicatesOf files).map .ofFault := by
  obtain ⟨hworkers, hfiles⟩ := exists_loadAll_iff.1 ⟨c, log', h⟩
  have herrors : (t.loadEach files).errors.filter (·.isDuplicate) = [] := by
    obtain ⟨fates, hs, -, he, -, -⟩ := exists_fates hfiles (Merge.follows_empty t)
    rw [he, List.filter_eq_nil_iff]
    intro d hd
    obtain ⟨path, hf⟩ := hs.fails_of_mem hd
    exact Bool.not_eq_true _ ▸ hf.not_isDuplicate
  have hall : ((t.duplicatesOf files).map Diagnostic.ofFault).filter (·.isDuplicate) =
      (t.duplicatesOf files).map .ofFault := by
    refine List.filter_eq_self.2 fun d hd => ?_
    obtain ⟨f, hf, rfl⟩ := List.mem_map.1 hd
    obtain ⟨-, path, -, first, -, -, -, rfl⟩ := (mem_duplicatesOf_iff hfiles).1 hf
    exact Diagnostic.isDuplicate_duplicate ..
  rw [t.loadAll_of_pos files hworkers] at h
  split at h
  · cases h
  · cases h
    rw [Log.duplicates_addAll, Log.duplicates_addAll, herrors, List.append_nil]
    exact congrArg (_ ++ ·) hall

/-- A run that comes to its end has logged the duplicates among the files that it has found. -/
theorem duplicates_resolveAll {t : FileTree} {roots : List String} {workers : Option Int}
    {log log' : Log} {r : Resolution} (h : t.resolveAll roots workers log = .ok r log') :
    ∃ files found, t.discover roots log = .ok files found ∧
      log'.duplicates = log.duplicates ++ (t.duplicatesOf files).map .ofFault := by
  obtain ⟨files, found, hd, h⟩ := bind_ok h
  refine ⟨files, found, hd, ?_⟩
  rw [← duplicates_discover hd]
  split at h
  · rename_i hf
    rw [List.isEmpty_iff] at hf
    cases h
    subst hf
    have hmessage : "No .build files found" = "No .build files found" ++ "" :=
      String.append_empty.symm
    refine (Log.duplicates_add_of_not ?_ found).trans (List.append_nil _).symm
    exact Diagnostic.not_isDuplicate hmessage (by decide) (by decide)
  · obtain ⟨_, log₀, hlog₀, h⟩ := bind_ok h
    cases hlog₀
    obtain ⟨c, log₁, hl, h⟩ := bind_ok h
    have hloaded := duplicates_loadAll hl
    rw [Log.duplicates_info] at hloaded
    rw [← hloaded]
    change (if log₁.hasErrors then _ else _ : Logged Resolution) log₁ = _ at h
    split at h
    · cases h
      rfl
    · cases h
      exact c.duplicates_resolve log₁

/-! ## Files that are found twice -/

/-- No two of the texts name the same entry. -/
def FoundOnce (t : FileTree) (files : List String) : Prop :=
  files.Pairwise fun a b => t.locate (.ofString a) ≠ t.locate (.ofString b)

/-- No build file below the roots has a backslash in its path. -/
def SlashesOnly (t : FileTree) (roots : List String) : Prop :=
  ∀ root ∈ roots, ∀ p place, t.BuildEntry (.ofString root) p place → '\\' ∉ p.toString.toList

theorem pairwise_of_forall_split {α : Type} {R : α → α → Prop} {l : List α}
    (h : ∀ front x back, l = front ++ x :: back → ∀ a ∈ front, R a x) : l.Pairwise R := by
  rw [List.pairwise_iff_getElem]
  intro i j hi hj hij
  have hsplit : l = l.take j ++ l[j] :: l.drop (j + 1) := by
    rw [List.getElem_cons_drop, List.take_append_drop]
  refine h _ _ _ hsplit _ (List.mem_take_iff_getElem.2 ⟨i, ?_, rfl⟩)
  omega

theorem mem_of_firstOf? {t : FileTree} {before : List String} {name first : String}
    (h : t.firstOf? before name = some first) :
    first ∈ before ∧ BuildFile.moduleName first = name := by
  have hfound := List.find?_some h
  rw [Bool.and_eq_true, decide_eq_true_eq] at hfound
  exact ⟨List.mem_of_find?_eq_some h, hfound.2⟩

theorem exists_firstOf? {t : FileTree} {before : List String} {a : String} (ha : a ∈ before)
    (hm : (t.moduleOf? a).isSome) :
    ∃ first, t.firstOf? before (BuildFile.moduleName a) = some first := by
  rw [← Option.isSome_iff_exists]
  unfold firstOf?
  rw [List.find?_isSome]
  exact ⟨a, ha, by simp [hm]⟩

/-- In files that are found once, a file and one in front of it are different entries. -/
theorem FoundOnce.ne {t : FileTree} {front back : List String} {first path : String}
    (h : t.FoundOnce (front ++ path :: back)) (hm : first ∈ front) :
    t.locate (.ofString first) ≠ t.locate (.ofString path) :=
  (List.pairwise_append.1 h).2.2 first hm path (List.mem_cons_self ..)

section Found

variable {t : FileTree} {roots files : List String} {log log' : Log}

theorem exists_paths (ht : t.Proper) (hb : t.SlashesOnly roots)
    (h : t.discover roots log = .ok files log') :
    ∃ listings, List.Forall₂ t.Listing ((roots.map Path.ofString).filter t.isDirectory) listings ∧
      files = listings.flatten.map Path.normalized ∧
      ∀ p ∈ listings.flatten, '\\' ∉ p.toString.toList ∧ Path.ofString p.normalized = p ∧
        ∃ root place, t.BuildEntry root p place := by
  obtain ⟨listings, hl, hfiles, hmem⟩ := exists_found ht h
  refine ⟨listings, hl, hfiles, fun p hp => ?_⟩
  obtain ⟨root, hroot, place, he⟩ := (hmem p).1 hp
  have hslash := hb root hroot p place he
  have hplain := he.isPlain ht (Path.isPlain_ofString root)
  exact ⟨hslash, hplain.ofString_normalized_iff.2 hslash, _, place, he⟩

theorem null_not_mem_of_discover (ht : t.Proper) (hb : t.SlashesOnly roots)
    (h : t.discover roots log = .ok files log') : ∀ path ∈ files, '\x00' ∉ path.toList := by
  obtain ⟨listings, -, rfl, hpaths⟩ := exists_paths ht hb h
  intro path hm
  obtain ⟨p, hp, rfl⟩ := List.mem_map.1 hm
  obtain ⟨hslash, -, root, place, he⟩ := hpaths p hp
  unfold Path.normalized
  rw [Text.forwardSlashes_eq_self_iff.2 hslash]
  exact he.null_not_mem ht

theorem exists_locate_of_discover (ht : t.Proper) (hb : t.SlashesOnly roots)
    (h : t.discover roots log = .ok files log') :
    ∀ path ∈ files, ∃ place, t.locate (.ofString path) = .ok place := by
  obtain ⟨listings, -, rfl, hpaths⟩ := exists_paths ht hb h
  intro path hm
  obtain ⟨p, hp, rfl⟩ := List.mem_map.1 hm
  obtain ⟨-, hback, root, place, he⟩ := hpaths p hp
  exact ⟨place, by rw [hback, he.locate ht]⟩

/-- A file that is found twice gives the same name both times. -/
theorem moduleName_eq_of_locate (ht : t.Proper) (hb : t.SlashesOnly roots)
    (h : t.discover roots log = .ok files log') {a b : String} (ha : a ∈ files) (hb' : b ∈ files)
    (heq : t.locate (.ofString a) = t.locate (.ofString b)) :
    BuildFile.moduleName a = BuildFile.moduleName b := by
  obtain ⟨listings, -, rfl, hpaths⟩ := exists_paths ht hb h
  obtain ⟨p, hp, rfl⟩ := List.mem_map.1 ha
  obtain ⟨q, hq, rfl⟩ := List.mem_map.1 hb'
  obtain ⟨hslash, hback, root, place, he⟩ := hpaths p hp
  obtain ⟨hslash', hback', root', place', he'⟩ := hpaths q hq
  rw [hback, hback', he.locate ht, he'.locate ht, Except.ok.injEq] at heq
  obtain ⟨front, name, hplace, hname⟩ := he.moduleName ht hslash
  obtain ⟨front', name', hplace', hname'⟩ := he'.moduleName ht hslash'
  have hlast : name = name' := by
    rw [hplace, hplace'] at heq
    exact List.singleton_inj.1 (List.append_inj' heq rfl).2
  rw [hname, hname', hlast]

/-- In a tree without links each file is found once exactly if the roots are separate. -/
theorem foundOnce_iff (ht : t.Proper) (hl : t.LinkFree) (hb : t.SlashesOnly roots)
    (h : t.discover roots log = .ok files log') :
    t.FoundOnce files ↔ (roots.map .ofString).Pairwise t.Separate := by
  obtain ⟨listings, hlist, rfl, hpaths⟩ := exists_paths ht hb h
  unfold FoundOnce
  rw [← pairwise_separate_filter, ← pairwise_locate_iff ht hl hlist, List.pairwise_map]
  refine List.Pairwise.iff_of_mem fun {p q} hp hq => ?_
  rw [(hpaths p hp).2.1, (hpaths q hq).2.1]

/-- Where each file gives a module and different files give different names, there are duplicates
exactly if a file is found twice. -/
theorem duplicatesOf_eq_nil_iff (ht : t.Proper) (hb : t.SlashesOnly roots)
    (h : t.discover roots log = .ok files log')
    (hmodules : ∀ path ∈ files, (t.moduleOf? path).isSome)
    (hnames : ∀ a ∈ files, ∀ b ∈ files, BuildFile.moduleName a = BuildFile.moduleName b →
      t.locate (.ofString a) = t.locate (.ofString b)) :
    t.duplicatesOf files = [] ↔ t.FoundOnce files := by
  have hnull := null_not_mem_of_discover ht hb h
  rw [List.eq_nil_iff_forall_not_mem]
  constructor
  · intro hnone
    refine pairwise_of_forall_split fun front path back hsplit a ha heq => ?_
    have hfront : ∀ b ∈ front, b ∈ files := fun b hb => hsplit ▸ List.mem_append_left _ hb
    have hpath : path ∈ files := hsplit ▸ List.mem_append_right _ (List.mem_cons_self ..)
    obtain ⟨first, hfirst⟩ := exists_firstOf? ha (hmodules a (hfront a ha))
    rw [moduleName_eq_of_locate ht hb h (hfront a ha) hpath heq] at hfirst
    exact hnone _ ((mem_duplicatesOf_iff hnull).2
      ⟨front, path, back, first, hsplit, hmodules path hpath, hfirst, rfl⟩)
  · intro honce f hf
    obtain ⟨front, path, back, first, hsplit, -, hfirst, -⟩ := (mem_duplicatesOf_iff hnull).1 hf
    obtain ⟨hmem, hname⟩ := mem_of_firstOf? hfirst
    rw [hsplit] at honce
    refine honce.ne hmem (hnames _ ?_ _ ?_ hname)
    · exact hsplit ▸ List.mem_append_left _ hmem
    · exact hsplit ▸ List.mem_append_right _ (List.mem_cons_self ..)

end Found

/-- Where no name of the tree and no root has a backslash, no path that is found has one. -/
theorem slashesOnly_of_forall {t : FileTree} (ht : t.Proper) {roots : List String}
    (hroots : ∀ root ∈ roots, '\\' ∉ root.toList)
    (hnames : ∀ place name e, t.get? (place ++ [name]) = some e → '\\' ∉ name.toList) :
    t.SlashesOnly roots := by
  have hchild : ∀ {path : Path} {d : Directory} {row : String × Entry},
      t.directory? path = .ok (some d) → row ∈ d.entries → '\\' ∉ path.toString.toList →
        '\\' ∉ (path.child row.1).toString.toList := by
    intro path d row hd hm hpath
    rw [Path.mem_toString_child_iff (by decide) (by decide), not_or]
    exact ⟨hpath, hnames _ _ _ (get?_entry ht hd hm)⟩
  rintro root hroot _ _ @⟨path, d, row, below, directory, entry, -, -⟩
  refine hchild directory entry ?_
  clear directory entry
  induction below using ReflTransGen.head_induction_on with
  | refl =>
    intro hm
    rcases Path.mem_toString_ofString hm with hc | hc | hc
    · exact absurd hc (by decide)
    · exact absurd hc (by decide)
    · exact hroots root hroot hc
  | head hstep _ ih =>
    obtain ⟨hd, hm, -⟩ := hstep
    exact hchild hd hm ih

/-- An entry without links and without backslashes in names, it and all below it. -/
inductive Entry.Plain : Entry → Prop
  | file (content : List UInt8) : Plain (.file content)
  | directory {entries : Entries} (names : ∀ row ∈ entries, '\\' ∉ row.1.toList)
      (below : ∀ row ∈ entries, Plain row.2) : Plain (.directory entries)

theorem Entry.Plain.get? {e e' : Entry} {place : List String} (h : e.Plain)
    (hg : e.get? place = some e') : e'.Plain ∧ ∀ name ∈ place, '\\' ∉ name.toList := by
  induction place generalizing e with
  | nil =>
    cases hg
    exact ⟨h, List.forall_mem_nil _⟩
  | cons name place ih =>
    cases h with
    | file content => cases hg
    | directory names below =>
      obtain ⟨sub, hl, hs⟩ := Option.bind_eq_some_iff.1 hg
      have hm := Entry.mem_of_lookup hl
      obtain ⟨hplain, hplace⟩ := ih (below _ hm) hs
      exact ⟨hplain, List.forall_mem_cons.2 ⟨names _ hm, hplace⟩⟩

theorem linkFree_of_plain {t : FileTree} (h : t.top.Plain) : t.LinkFree :=
  fun _ _ hg => nomatch (h.get? hg).1

theorem slashesOnly_of_plain {t : FileTree} (ht : t.Proper) (h : t.top.Plain)
    {roots : List String} (hroots : ∀ root ∈ roots, '\\' ∉ root.toList) : t.SlashesOnly roots :=
  slashesOnly_of_forall ht hroots fun place name _ hg =>
    (h.get? hg).2 name (List.mem_append_right place (List.mem_singleton_self name))

theorem exists_resolveAll_ok {t : FileTree} {roots files : List String} {workers : Option Int}
    {log found : Log} (hd : t.discover roots log = .ok files found)
    (hworkers : ∀ n ∈ workers, 1 ≤ n) (hnull : ∀ path ∈ files, '\x00' ∉ path.toList) :
    ∃ r log', t.resolveAll roots workers log = .ok r log' := by
  rw [resolveAll_eq]
  by_cases hne : files = []
  · subst hne
    unfold resolveWith
    rw [bind_of_ok hd]
    exact ⟨_, _, rfl⟩
  · have hload : ∃ c loaded, t.loadAll files workers
        (found.info s!"Found {files.length} build files") = .ok c loaded :=
      exists_loadAll_iff.2 ⟨hworkers, hnull⟩
    obtain ⟨c, loaded, hl⟩ := hload
    rw [resolveWith_of_ok hd hne, hl]
    unfold resolveLoaded
    dsimp only
    split <;> exact ⟨_, _, rfl⟩

/-- A run logs as duplicates exactly the files that give a module of a name which an earlier file
gives. If each file is found once, these are two different files. Where each file gives a module and
different files give different names, there are duplicates exactly if a file is found twice, which in
a tree without links is one that lies below two of the roots. -/
theorem duplicates_exact {t : FileTree} (ht : t.Proper) {roots : List String}
    (hb : t.SlashesOnly roots) {workers : Option Int} {log log' : Log} {r : Resolution}
    (h : t.resolveAll roots workers log = .ok r log') :
    ∃ files found, t.discover roots log = .ok files found ∧
      log'.duplicates = log.duplicates ++ (t.duplicatesOf files).map .ofFault ∧
      (∀ path ∈ files, ∃ place, t.locate (.ofString path) = .ok place) ∧
      (∀ f ∈ t.duplicatesOf files, ∃ front path back first, files = front ++ path :: back ∧
        first ∈ front ∧ BuildFile.moduleName first = BuildFile.moduleName path ∧
        f = .duplicate (BuildFile.moduleName path) first path ∧
        (t.FoundOnce files → t.locate (.ofString first) ≠ t.locate (.ofString path))) ∧
      ((∀ path ∈ files, (t.moduleOf? path).isSome) →
        (∀ a ∈ files, ∀ b ∈ files, BuildFile.moduleName a = BuildFile.moduleName b →
          t.locate (.ofString a) = t.locate (.ofString b)) →
        (t.duplicatesOf files = [] ↔ t.FoundOnce files)) ∧
      (t.LinkFree → (t.FoundOnce files ↔ (roots.map .ofString).Pairwise t.Separate) ∧
        ∀ root root', t.Apart root root' → t.Separate root root') := by
  obtain ⟨files, found, hd, hlog⟩ := duplicates_resolveAll h
  have hnull := null_not_mem_of_discover ht hb hd
  refine ⟨files, found, hd, hlog, exists_locate_of_discover ht hb hd, ?_, ?_, ?_⟩
  · intro f hf
    obtain ⟨front, path, back, first, hsplit, -, hfirst, rfl⟩ := (mem_duplicatesOf_iff hnull).1 hf
    obtain ⟨hmem, hname⟩ := mem_of_firstOf? hfirst
    exact ⟨front, path, back, first, hsplit, hmem, hname, rfl, fun honce =>
      FoundOnce.ne (hsplit ▸ honce) hmem⟩
  · intro hmodules hnames
    exact duplicatesOf_eq_nil_iff ht hb hd hmodules hnames
  · intro hl
    exact ⟨foundOnce_iff ht hl hb hd, fun root root' ha => ha.separate ht hl⟩

theorem plain_workshop : workshop.top.Plain := by
  have hnet : Entry.Plain (.directory [("Net.build", .file netBytes)]) :=
    .directory (by decide) (List.forall_mem_singleton.2 (.file _))
  refine .directory (by decide) ?_
  simp only [List.forall_mem_cons, List.not_mem_nil, false_implies, implies_true, and_true]
  refine ⟨?_, ?_, hnet⟩
  · exact .directory (by decide) (List.forall_mem_singleton.2 (.file _))
  · exact .directory (by decide) (List.forall_mem_singleton.2 hnet)

theorem apart_workshop : workshop.Apart (.ofString "lib") (.ofString "old") ∧
    workshop.Apart (.ofString "app") (.ofString "lib") := by
  obtain ⟨happ, hlib, -, hold⟩ := directory?_workshop
  rw [roots_workshop.1, roots_workshop.2.1, roots_workshop.2.2]
  constructor
  · intro d d' hd hd'
    rw [eq_of_directory? hd hlib, eq_of_directory? hd' hold]
    decide
  · intro d d' hd hd'
    rw [eq_of_directory? hd happ, eq_of_directory? hd' hlib]
    decide

theorem duplicatesOf_workshop : workshop.duplicatesOf ["lib/net/Net.build", "old/Net.build"] =
    [.duplicate "Net" "lib/net/Net.build" "old/Net.build"] := by
  obtain ⟨-, hnet, hold⟩ := gives_workshop
  unfold duplicatesOf loadEach loadEach loadEach
  rw [hnet.loadModule, hold.loadModule]
  rfl

/-- The two modules of one name are logged if both are found, as two different files. -/
theorem duplicates_exact_workshop :
    workshop.Proper ∧ workshop.LinkFree ∧ workshop.SlashesOnly ["lib", "old"] ∧
      workshop.SlashesOnly ["app", "lib"] ∧
      (∃ r log', workshop.resolveAll ["lib", "old"] none .empty = .ok r log' ∧
        log'.duplicates = [.ofFault (.duplicate "Net" "lib/net/Net.build" "old/Net.build")] ∧
        workshop.FoundOnce ["lib/net/Net.build", "old/Net.build"] ∧
        workshop.locate (.ofString "lib/net/Net.build") ≠
          workshop.locate (.ofString "old/Net.build")) ∧
      ∃ r log', workshop.resolveAll ["app", "lib"] none .empty = .ok r log' ∧
        log'.duplicates = [] := by
  obtain ⟨happ, hnet, -⟩ := gives_workshop
  have hlinks := linkFree_of_plain plain_workshop
  have hslash : workshop.SlashesOnly ["lib", "old"] ∧ workshop.SlashesOnly ["app", "lib"] :=
    ⟨slashesOnly_of_plain proper_workshop plain_workshop (by decide),
      slashesOnly_of_plain proper_workshop plain_workshop (by decide)⟩
  refine ⟨proper_workshop, hlinks, hslash.1, hslash.2, ?_, ?_⟩
  · have hfound := (discover_workshop .empty).2
    have hrun : ∃ r log', workshop.resolveAll ["lib", "old"] none .empty = .ok r log' :=
      exists_resolveAll_ok hfound (by simp) (by decide)
    obtain ⟨r, log', h⟩ := hrun
    obtain ⟨files, found, hd, hlog, -, hdiffer, -, honce⟩ :=
      duplicates_exact proper_workshop hslash.1 h
    obtain ⟨rfl, rfl⟩ : ["lib/net/Net.build", "old/Net.build"] = files ∧ Log.empty = found :=
      EStateM.Result.ok.inj (hfound.symm.trans hd)
    obtain ⟨honce, hseparate⟩ := honce hlinks
    have honce := honce.2 (List.pairwise_pair.2 (hseparate _ _ apart_workshop.1))
    rw [duplicatesOf_workshop] at hlog hdiffer
    obtain ⟨-, path, -, first, -, -, -, heq, hne⟩ := hdiffer _ (List.mem_singleton_self _)
    obtain ⟨hkind, -, hpath, -⟩ := Fault.mk.inj heq
    rw [← Option.some.inj (Fault.Kind.duplicateModule.inj hkind).2, ← Option.some.inj hpath] at hne
    exact ⟨r, log', h, hlog, honce, hne honce⟩
  · have hfound := (discover_workshop .empty).1
    have hrun : ∃ r log', workshop.resolveAll ["app", "lib"] none .empty = .ok r log' :=
      exists_resolveAll_ok hfound (by simp) (by decide)
    obtain ⟨r, log', h⟩ := hrun
    obtain ⟨files, found, hd, hlog, -, -, hnone, honce⟩ :=
      duplicates_exact proper_workshop hslash.2 h
    obtain ⟨rfl, rfl⟩ : ["app/App.build", "lib/net/Net.build"] = files ∧ Log.empty = found :=
      EStateM.Result.ok.inj (hfound.symm.trans hd)
    obtain ⟨honce, hseparate⟩ := honce hlinks
    have honce := honce.2 (List.pairwise_pair.2 (hseparate _ _ apart_workshop.2))
    have hmodules : ∀ path ∈ ["app/App.build", "lib/net/Net.build"],
        (workshop.moduleOf? path).isSome := by
      simp [moduleOf?_eq_some_iff.2 happ, moduleOf?_eq_some_iff.2 hnet]
    have hnames : ∀ a ∈ ["app/App.build", "lib/net/Net.build"],
        ∀ b ∈ ["app/App.build", "lib/net/Net.build"],
          BuildFile.moduleName a = BuildFile.moduleName b →
            workshop.locate (.ofString a) = workshop.locate (.ofString b) := by
      have hne : BuildFile.moduleName "app/App.build" ≠
          BuildFile.moduleName "lib/net/Net.build" := by decide +kernel
      intro a ha b hb heq
      rw [List.mem_pair] at ha hb
      rcases ha with rfl | rfl <;> rcases hb with rfl | rfl
      · rfl
      · exact absurd heq hne
      · exact absurd heq.symm hne
      · rfl
    rw [(hnone hmodules hnames).2 honce] at hlog
    exact ⟨r, log', h, hlog⟩

/-- A directory with one module. -/
def project : FileTree := single "A.build" "module A \x7b\x7d".toUTF8.toList

theorem isName_project : IsName "A.build" ∧ BuildFile.isName "A.build" = true := by decide +kernel

theorem moduleOf?_project : (project.moduleOf? "A.build").isSome := by
  have hpath : Path.ofString "A.build" = (Path.ofString ".").child "A.build" := by decide
  have hread : project.read (.ofString "A.build") =
      .ok (.ok "module A \x7b\x7d".toUTF8.toList) := by
    rw [hpath]
    exact read_single isName_project.1 _
  have hdecode : Text.decodeFile "module A \x7b\x7d".toUTF8.toList = .ok "module A \x7b\x7d" := by
    decide +kernel
  have hsource : Module.ofSource (BuildFile.moduleName "A.build")
      (BuildFile.moduleDirectory "A.build") "module A \x7b\x7d" =
        .ok { name := "A", directory := "." } := by decide +kernel
  rw [moduleOf?_eq_some_iff.2 (.parsed hread hdecode hsource)]
  rfl

theorem searchRoot_project : project.searchRoot "." = .ok (some ["A.build"]) :=
  searchRoot_single isName_project.2 _

/-- With a root that is given twice, a file is reported as a duplicate of itself. -/
theorem duplicate_of_itself :
    ∃ r log', project.resolveAll [".", "."] none .empty = .ok r log' ∧ r.ok = false ∧
      .ofFault (.duplicate "A" "A.build" "A.build") ∈ log'.entries := by
  have hd : project.discover [".", "."] .empty = .ok ["A.build", "A.build"] .empty :=
    discover_cons_of_ok searchRoot_project (discover_singleton searchRoot_project .empty)
  have hnull : ∀ path ∈ ["A.build", "A.build"], '\x00' ∉ path.toList := by decide
  have hrun : ∃ r log', project.resolveAll [".", "."] none .empty = .ok r log' :=
    exists_resolveAll_ok hd (by simp) hnull
  obtain ⟨r, log', h⟩ := hrun
  have hdup : .duplicate "A" "A.build" "A.build" ∈ project.duplicatesOf ["A.build", "A.build"] := by
    have hname : BuildFile.moduleName "A.build" = "A" := by decide +kernel
    obtain ⟨first, hfirst⟩ := exists_firstOf? (List.mem_singleton_self "A.build") moduleOf?_project
    obtain rfl := List.mem_singleton.1 (mem_of_firstOf? hfirst).1
    refine (mem_duplicatesOf_iff hnull).2
      ⟨["A.build"], "A.build", [], "A.build", rfl, moduleOf?_project, hfirst, ?_⟩
    rw [hname]
  have hlogged : .ofFault (.duplicate "A" "A.build" "A.build") ∈ log'.entries := by
    obtain ⟨files, found, hd', hlog⟩ := duplicates_resolveAll h
    rw [hd] at hd'
    cases hd'
    refine List.mem_of_mem_filter (p := Diagnostic.isDuplicate) ?_
    rw [← Log.duplicates, hlog]
    exact List.mem_append_right _ (List.mem_map_of_mem hdup)
  refine ⟨r, log', h, ?_, hlogged⟩
  obtain ⟨_, _, -, hsound⟩ := sound_of_resolveAll h
  rw [← Bool.not_eq_true, hsound.ok_iff]
  exact fun hall => hall _ hlogged rfl

end FileTree

end BuildOrder
