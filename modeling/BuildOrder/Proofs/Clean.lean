/-
What deleting build outputs deletes. Only directories at the places of the outputs are changed, with
what lies in them; everything else is left as it was, also what links there stand for. If nothing
fails, no output is a directory any more, and there is nothing to clean when it is done again.

The root is read with a slash for each backslash, while every other command takes a backslash for a
character of a name. So the outputs are those of the root that is given exactly if it has no
backslash.

As in all trees here, the working directory is taken to lie outside of what is deleted.
-/
import BuildOrder.CommandLine.Run
import BuildOrder.Proofs.CommandLine.Agreement
import BuildOrder.Proofs.Discovery.Opening
import BuildOrder.Proofs.FileTree.Pruned

namespace BuildOrder

/-! ## Roots -/

/-- The path of a root that cleaning works below. -/
def Cleaning.rootOf (root : String) : Path := .ofString (Text.forwardSlashes root)

theorem Text.forwardSlashes_append (a b : String) :
    forwardSlashes (a ++ b) = forwardSlashes a ++ forwardSlashes b := by
  unfold forwardSlashes
  rw [String.toList_append, List.map_append, String.ofList_append]

theorem Text.getLast?_forwardSlashes {text : String} :
    (forwardSlashes text).toList.getLast? = some '/' ↔
      text.toList.getLast? = some '/' ∨ text.toList.getLast? = some '\\' := by
  unfold forwardSlashes
  rw [String.toList_ofList, List.getLast?_map]
  cases text.toList.getLast? with
  | none => simp
  | some c =>
    by_cases hc : c = '\\' <;> simp [hc]

theorem isName_output {name : String} (h : name ∈ outputDirectories) :
    FileTree.IsName name ∧ '\\' ∉ name.toList := by
  revert name
  decide

/-- An output is joined to its root as an entry of it. -/
theorem Cleaning.ofString_joinPaths {name : String} (h : name ∈ outputDirectories) (root : String) :
    Path.ofString (Text.joinPaths root name) = (rootOf root).child name := by
  obtain ⟨hn, hback⟩ := isName_output h
  unfold Text.joinPaths rootOf
  rw [if_neg hn.ne_empty]
  split
  · rename_i hroot
    subst hroot
    rw [Path.ofString_name hn.slash_not_mem hn.ne_empty hn.ne_dot]
    rfl
  · rename_i hroot
    have hfront : (Text.forwardSlashes root).toList ≠ [] := by
      unfold Text.forwardSlashes
      rw [String.toList_ofList]
      exact mt List.map_eq_nil_iff.1 (mt String.toList_eq_nil_iff.1 hroot)
    have hchild := Path.ofString_append hn.slash_not_mem hn.ne_empty hn.ne_dot hfront rfl
    rw [String.ofList_append, String.ofList_append, String.ofList_toList, String.ofList_toList]
      at hchild
    dsimp only
    rw [Text.forwardSlashes_append, Text.forwardSlashes_append,
      Text.forwardSlashes_eq_self_iff.2 hback, ← hchild]
    split
    · rename_i hlast
      rw [if_pos (Text.getLast?_forwardSlashes.2 hlast)]
      rfl
    · rename_i hlast
      rw [if_neg (mt Text.getLast?_forwardSlashes.1 hlast)]
      rfl

/-- The root is the one that is given exactly if that has no backslash. -/
theorem Cleaning.rootOf_eq_iff {root : String} :
    rootOf root = Path.ofString root ↔ '\\' ∉ root.toList := by
  unfold rootOf
  constructor
  · intro h hm
    have hpath := Path.mem_toString_of_mem hm (by decide) (by decide)
    rw [← h] at hpath
    rcases Path.mem_toString_ofString hpath with hc | hc | hc
    · exact absurd hc (by decide)
    · exact absurd hc (by decide)
    · exact Text.backslash_not_mem_forwardSlashes root hc
  · intro h
    rw [Text.forwardSlashes_eq_self_iff.2 h]

/-! ## What is deleted -/

namespace FileTree

/-- A place below a root where a directory of one of some names lies; a link to one does not count. -/
def OutputAt (t : FileTree) (root : Path) (names : List String) (place : List String) : Prop :=
  ∃ name ∈ names, t.locate (root.child name) = .ok place ∧
    ∃ entries, t.get? place = some (.directory entries)

theorem OutputAt.mono {t t' : FileTree} (h : t'.Pruned t) {root : Path} {names names' : List String}
    {place : List String} (hnames : ∀ name ∈ names, IsName name) (hsub : names ⊆ names')
    (ho : t'.OutputAt root names place) : t.OutputAt root names' place := by
  obtain ⟨name, hm, hl, entries, hg⟩ := ho
  exact ⟨name, hsub hm, h.locate_child (hnames name hm) hl, h.directory hg⟩

/-- A tree that something was taken out of at the places of some outputs and nowhere else. -/
structure Cleared (t t' : FileTree) (root : Path) (names : List String) : Prop where
  pruned : t'.Pruned t
  spared : ∀ place, (∀ output, t.OutputAt root names output → ¬ output <+: place) →
    (t'.get? place).map Entry.face = (t.get? place).map Entry.face

theorem Cleared.refl (t : FileTree) (root : Path) (names : List String) : t.Cleared t root names :=
  ⟨.refl t, fun _ _ => rfl⟩

/-- Outputs are found after a deletion only where they were before. -/
theorem Cleared.trans {t t' t'' : FileTree} {root : Path} {name : String} {names : List String}
    (h : t.Cleared t' root [name]) (h' : t'.Cleared t'' root names)
    (hnames : ∀ name ∈ names, IsName name) : t.Cleared t'' root (name :: names) where
  pruned := h'.pruned.trans h.pruned
  spared place hplace := by
    have hfirst (output : List String) (ho : t.OutputAt root [name] output) : ¬ output <+: place := by
      obtain ⟨name', hm, hl, hg⟩ := ho
      exact hplace output ⟨name', List.mem_cons.2 (.inl (List.mem_singleton.1 hm)), hl, hg⟩
    have hlater (output : List String) (ho : t'.OutputAt root names output) :
        ¬ output <+: place :=
      hplace output (ho.mono h.pruned hnames (List.subset_cons_self ..))
    exact (h'.spared place hlater).trans (h.spared place hfirst)

theorem removeDirectory_of_locate {t : FileTree} {path : Path} {place : List String}
    {entries : Entries} (hl : t.locate path = .ok place)
    (hg : t.get? place = some (.directory entries))
    (hl' : (t.clear place).locate path = .ok place) :
    t.removeDirectory path = ((t.clear place).erase place, none) := by
  unfold removeDirectory
  rw [hl]
  dsimp only
  rw [hg]
  dsimp only
  rw [hl']

/-- Deleting a directory takes nothing out elsewhere, and if it does not fail, there is no directory
any more where it was. -/
theorem removeDirectory_cleared {t : FileTree} {root : Path} {name : String} (hn : IsName name)
    {d : Directory} (hd : t.directory? (root.child name) = .ok (some d)) :
    t.Cleared (t.removeDirectory (root.child name)).1 root [name] ∧
      ((t.removeDirectory (root.child name)).2 = none →
        (t.removeDirectory (root.child name)).1.directory? (root.child name) = .ok none) := by
  unfold removeDirectory
  dsimp only
  split
  · exact ⟨.refl .., fun h => by cases h⟩
  rename_i place hl
  split
  · rename_i entries hg
    have hout : t.OutputAt root [name] place := ⟨name, List.mem_singleton_self _, hl, entries, hg⟩
    have hclear := pruned_clear hg
    split
    · exact ⟨⟨hclear, fun other hother => face_get?_clear (hother place hout) t⟩,
        fun h => by cases h⟩
    · rename_i place' hl'
      obtain rfl : place = place' := Except.ok.inj (hl.symm.trans (hclear.locate_child hn hl'))
      obtain ⟨parent, -, -, -, -, -, rfl⟩ := (locate_child_iff hn).1 hl
      have hpruned := (pruned_erase (t.clear (parent.place ++ [name])) parent.place name).trans hclear
      refine ⟨⟨hpruned, fun other hother => ?_⟩, fun _ => ?_⟩
      · exact (face_get?_erase (hother _ hout) _).trans (face_get?_clear (hother _ hout) t)
      · refine hpruned.directory?_eq_none ⟨some d, hd⟩ fun d hd entries => ?_
        have hgone := get?_erase_append (t.clear (parent.place ++ [name])) parent.place name []
        rw [List.append_nil] at hgone
        rw [place_of_locate_child hn hl hg hd]
        intro hsome
        cases hgone.symm.trans hsome
  · exact ⟨.refl .., fun h => by cases h⟩

end FileTree

/-! ## Runs -/

namespace Cleaning

/-- Without an error there is no directory of the name any more, whether there was one or not. -/
theorem target_spec {c c' : Cleaning} {root name : String} (hm : name ∈ outputDirectories)
    (h : c.target root name = .ok c') :
    c.tree.Cleared c'.tree (rootOf root) [name] ∧ (c'.log.hasErrors = false →
      c.log.hasErrors = false ∧ c'.tree.directory? ((rootOf root).child name) = .ok none) := by
  unfold target at h
  rw [ofString_joinPaths hm] at h
  dsimp only [bind, Except.bind] at h
  cases hd : c.tree.directory? ((rootOf root).child name) with
  | error fault => rw [hd] at h; cases h
  | ok d? =>
    rw [hd] at h
    cases d? with
    | none =>
      cases h
      exact ⟨.refl .., fun he => ⟨he, hd⟩⟩
    | some d =>
      obtain ⟨hcleared, hgone⟩ := FileTree.removeDirectory_cleared (isName_output hm).1 hd
      dsimp only at h
      split at h
      · rename_i tree hr
        cases h
        rw [hr] at hcleared hgone
        exact ⟨hcleared, fun he => ⟨by simpa using he, hgone rfl⟩⟩
      · rename_i tree reason hr
        cases h
        rw [hr] at hcleared
        exact ⟨hcleared, fun he => by simp at he⟩

/-- What the first deletions take away the later ones do not bring back. -/
theorem targets_spec {names : List String} (hnames : ∀ name ∈ names, name ∈ outputDirectories)
    (c : Cleaning) (root : String) :
    c.tree.Cleared (c.targets root names).1.tree (rootOf root) names ∧
      ((c.targets root names).2 = none → (c.targets root names).1.log.hasErrors = false →
        c.log.hasErrors = false ∧ ∀ name ∈ names,
          (c.targets root names).1.tree.directory? ((rootOf root).child name) = .ok none) := by
  induction names generalizing c with
  | nil => exact ⟨.refl .., fun _ he => ⟨he, nofun⟩⟩
  | cons name names ih =>
    rw [List.forall_mem_cons] at hnames
    unfold targets
    split
    · exact ⟨.refl .., nofun⟩
    · rename_i c' ht
      obtain ⟨hfirst, hdone⟩ := target_spec hnames.1 ht
      obtain ⟨hlater, hrest⟩ := ih hnames.2 c'
      refine ⟨hfirst.trans hlater fun name hm => (isName_output (hnames.2 name hm)).1, ?_⟩
      intro hnone he
      obtain ⟨he', hgone⟩ := hrest hnone he
      obtain ⟨he, hfirst⟩ := hdone he'
      exact ⟨he, List.forall_mem_cons.2 ⟨hlater.pruned.directory?_of_none hfirst, hgone⟩⟩

theorem target_of_none {c : Cleaning} {root name : String} (hm : name ∈ outputDirectories)
    (h : c.tree.directory? ((rootOf root).child name) = .ok none) : c.target root name = .ok c := by
  unfold target
  dsimp only
  rw [ofString_joinPaths hm, h]
  rfl

theorem target_of_removed {c : Cleaning} {root name : String} (hm : name ∈ outputDirectories)
    {d : FileTree.Directory} (h : c.tree.directory? ((rootOf root).child name) = .ok (some d))
    {tree : FileTree}
    (hr : c.tree.removeDirectory ((rootOf root).child name) = (tree, none)) :
    c.target root name =
      .ok ⟨tree, c.log.info ("Deleted " ++ ((rootOf root).child name).toString)⟩ := by
  unfold target
  dsimp only
  rw [ofString_joinPaths hm, h]
  dsimp only [bind, Except.bind]
  rw [hr]
  rfl

/-- Where no output is a directory there is nothing to do. -/
theorem targets_of_none {names : List String} (hnames : ∀ name ∈ names, name ∈ outputDirectories)
    {c : Cleaning} {root : String}
    (h : ∀ name ∈ names, c.tree.directory? ((rootOf root).child name) = .ok none) :
    c.targets root names = (c, none) := by
  induction names with
  | nil => rfl
  | cons name names ih =>
    rw [List.forall_mem_cons] at hnames h
    unfold targets
    rw [target_of_none hnames.1 h.1]
    exact ih hnames.2 h.2

theorem hasErrors_conclude (c : Cleaning) : c.conclude.log.hasErrors = c.log.hasErrors := by
  unfold conclude
  split
  · exact Log.hasErrors_info ..
  · rfl

theorem tree_conclude (c : Cleaning) : c.conclude.tree = c.tree := by
  unfold conclude
  split <;> rfl

end Cleaning

namespace FileTree

theorem clean_cleared (t : FileTree) (root : String) :
    t.Cleared (t.clean root).1.tree (Cleaning.rootOf root) outputDirectories ∧
      ((t.clean root).2 = none → (t.clean root).1.log.hasErrors = false →
        ∀ name ∈ outputDirectories,
          (t.clean root).1.tree.directory? ((Cleaning.rootOf root).child name) = .ok none) := by
  obtain ⟨hcleared, hdone⟩ := Cleaning.targets_spec (fun _ hm => hm) ⟨t, .empty⟩ root
  unfold clean
  split
  · rename_i c hc
    rw [hc] at hcleared hdone
    rw [Cleaning.hasErrors_conclude, Cleaning.tree_conclude]
    exact ⟨hcleared, fun _ he => (hdone rfl he).2⟩
  · rename_i c fault hc
    rw [hc] at hcleared
    exact ⟨hcleared, nofun⟩

theorem clean_of_none {t : FileTree} {root : String} (h : ∀ name ∈ outputDirectories,
      t.directory? ((Cleaning.rootOf root).child name) = .ok none) :
    t.clean root = (⟨t, Log.empty.info "Nothing to clean"⟩, none) := by
  have htargets : (Cleaning.mk t .empty).targets root outputDirectories = (⟨t, .empty⟩, none) :=
    Cleaning.targets_of_none (fun _ hm => hm) h
  unfold clean
  rw [htargets]
  exact congrArg (·, none) (if_pos rfl)

theorem run_clean (t : FileTree) (root : String) (debug : Bool) :
    (Invocation.mk debug (.clean root)).run t = ((t.clean root).1.tree,
      match (t.clean root).2 with
      | none => .ok (.ofCleaning (t.clean root).1)
      | some fault => .error (.system fault)) := by
  unfold Invocation.run
  dsimp only
  split <;> rename_i h <;> rw [h]

theorem exitCode_ofCleaning_iff {c : Cleaning} :
    (Outcome.ofCleaning c).exitCode = 0 ↔ c.log.hasErrors = false := by
  unfold Outcome.ofCleaning
  rw [Outcome.codeOf_eq_zero_iff, Bool.not_eq_true']

theorem ofCleaning_nothing (t : FileTree) :
    Outcome.ofCleaning ⟨t, Log.empty.info "Nothing to clean"⟩ =
      ⟨[⟨.output, "[Info] Nothing to clean"⟩], 0⟩ := by
  unfold Outcome.ofCleaning
  dsimp only
  decide

/-- Cleaning leaves everything as it is that is not at or below an output directory of its root. If
it ends well, there is no output directory any more, and cleaning again changes nothing and says so.
The outputs are those of the root that is given exactly if it has no backslash. -/
theorem clean_outputs_only (t : FileTree) (root : String) (debug : Bool) :
    let run := (Invocation.mk debug (.clean root)).run
    let t' := (run t).1
    (∀ place, (∀ output, t.OutputAt (Cleaning.rootOf root) outputDirectories output →
        ¬ output <+: place) →
      (t'.get? place).map Entry.face = (t.get? place).map Entry.face) ∧
    (∀ outcome, (run t).2 = .ok outcome → outcome.exitCode = 0 →
      (∀ name ∈ outputDirectories,
        t'.directory? ((Cleaning.rootOf root).child name) = .ok none) ∧
      run t' = (t', .ok ⟨[⟨.output, "[Info] Nothing to clean"⟩], 0⟩)) ∧
    (Cleaning.rootOf root = Path.ofString root ↔ '\\' ∉ root.toList) := by
  obtain ⟨hcleared, hdone⟩ := t.clean_cleared root
  dsimp only
  rw [t.run_clean root debug]
  dsimp only
  refine ⟨hcleared.spared, fun outcome hok hcode => ?_, Cleaning.rootOf_eq_iff⟩
  cases hnone : (t.clean root).2 with
  | some fault =>
    rw [hnone] at hok
    cases hok
  | none =>
    rw [hnone] at hok
    obtain rfl := Except.ok.inj hok
    have hgone := hdone hnone (exitCode_ofCleaning_iff.1 hcode)
    refine ⟨hgone, ?_⟩
    rw [run_clean, clean_of_none hgone]
    dsimp only
    rw [ofCleaning_nothing]

/-- A tree with an output two directories below. -/
def nested : FileTree where
  top := .directory [
    ("a", .directory [("b", .directory [("Binaries", .directory [("x", .file [])])])])]
  here := []
  pathLimit := none

theorem locate_nested {t : FileTree} {entries : Entries} (hhere : t.here = [])
    (hd : t.get? ["a", "b"] = some (.directory [("Binaries", .directory entries)])) :
    t.locate ⟨0, ["a", "b", "Binaries"]⟩ = .ok ["a", "b", "Binaries"] := by
  have hchild : Path.mk 0 ["a", "b", "Binaries"] = (Path.mk 0 ["a", "b"]).child "Binaries" := rfl
  have hstart : t.startOf ⟨0, ["a", "b"]⟩ = [] := hhere
  have hwalk : t.walk maxLinks [] ["a", "b"] = .ok ⟨["a", "b"], maxLinks⟩ := by
    have hb : t.get? ([] ++ ["a", "b"]) = some (.directory [("Binaries", .directory entries)]) := hd
    exact walk_of_get? (by decide) hb nofun maxLinks
  rw [hchild, locate_child_iff (by decide), hstart]
  exact ⟨_, _, _, hwalk, hd, List.lookup_cons_self, rfl⟩

/-- A root that does not exist, as its name has a backslash, costs the output of another one. -/
theorem clean_backslash :
    (∀ name ∈ outputDirectories,
      nested.locate ((Path.ofString "a\\b").child name) = .error .noEntry) ∧
    (Invocation.mk false (.clean "a\\b")).run nested =
      (nested.erase ["a", "b", "Binaries"],
        .ok ⟨[⟨.output, "[Info] Deleted a/b/Binaries"⟩], 0⟩) ∧
    nested.get? ["a", "b", "Binaries", "x"] = some (.file []) ∧
    (nested.erase ["a", "b", "Binaries"]).get? ["a", "b", "Binaries", "x"] = none := by
  have hgiven : Path.ofString "a\\b" = ⟨0, ["a\\b"]⟩ := by decide
  have hroot : Cleaning.rootOf "a\\b" = ⟨0, ["a", "b"]⟩ := by decide
  have hnone : ∀ name ∈ outputDirectories,
      nested.locate ((Path.ofString "a\\b").child name) = .error .noEntry := by
    rw [hgiven]
    exact fun name hm => locate_child_of_error (isName_output hm).1
      (walk_of_missing rfl (by decide) rfl _ _)
  have hfirst : nested.directory? ((Cleaning.rootOf "a\\b").child "Intermediate") = .ok none := by
    have hb : nested.get? ([] ++ ["a", "b"]) =
        some (.directory [("Binaries", .directory [("x", .file [])])]) := rfl
    refine directory?_of_noEntry ?_
    rw [hroot]
    unfold resolve
    rw [if_pos (admits_of_pathLimit_eq_none rfl _)]
    change nested.walk maxLinks [] (["a", "b"] ++ ["Intermediate"]) = _
    rw [walk_append, walk_of_get? (by decide) hb nofun]
    exact walk_of_missing hb (by decide) rfl _ _
  have hsecond : nested.directory? ((Cleaning.rootOf "a\\b").child "Binaries") =
      .ok (some ⟨⟨["a", "b", "Binaries"], maxLinks⟩, [("x", .file [])]⟩) := by
    rw [hroot]
    exact directory?_of_get? (by decide) rfl (by decide) rfl
  have hremoved : nested.removeDirectory ((Cleaning.rootOf "a\\b").child "Binaries") =
      (nested.erase ["a", "b", "Binaries"], none) := by
    rw [hroot]
    exact removeDirectory_of_locate (locate_nested rfl rfl) rfl (locate_nested rfl rfl)
  have htext : "Deleted " ++ ((Cleaning.rootOf "a\\b").child "Binaries").toString =
      "Deleted a/b/Binaries" := by decide
  have hclean : nested.clean "a\\b" =
      (⟨nested.erase ["a", "b", "Binaries"], Log.empty.info "Deleted a/b/Binaries"⟩, none) := by
    have hskip := Cleaning.target_of_none (c := ⟨nested, .empty⟩) (by decide) hfirst
    have hdelete := Cleaning.target_of_removed (c := ⟨nested, .empty⟩) (by decide) hsecond hremoved
    rw [htext] at hdelete
    unfold clean outputDirectories Cleaning.targets
    rw [hskip]
    dsimp only
    unfold Cleaning.targets
    rw [hdelete]
    rfl
  refine ⟨hnone, ?_, rfl, rfl⟩
  rw [run_clean, hclean]
  dsimp only
  exact congrArg (Prod.mk _) (congrArg Except.ok (by decide))

end FileTree

end BuildOrder
