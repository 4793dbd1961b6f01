/-
Searches below several roots of a tree without links. There every path leads straight down, so the
place of an entry goes on from the place of its root in the same way as its path goes on from the path
of the root. Below one root no entry is found twice then, and below several roots an entry is found
twice exactly if it lies below two of them. That takes a root which lies in another one or is the
same.
-/
import BuildOrder.Proofs.Discovery.Opening

namespace BuildOrder

open Relation

namespace FileTree

/-! ## Trees without links -/

/-- No entry of the tree is a link. -/
def LinkFree (t : FileTree) : Prop := ∀ place target, t.get? place ≠ some (.link target)

theorem place_of_leads {t : FileTree} (ht : t.Proper) (hl : t.LinkFree) {path : Path}
    {d sub : Directory} {row : String × Entry} (hd : t.directory? path = .ok (some d))
    (hm : row ∈ d.entries) (hs : t.directory? (path.child row.1) = .ok (some sub)) :
    sub.reached.place = d.reached.place ++ [row.1] := by
  have hg := get?_entry ht hd hm
  have hat := ((directory?_child_iff ht hd hm).1 hs).2
  obtain ⟨name, e⟩ := row
  cases e with
  | file content => cases hat
  | directory entries =>
    cases hat
    rfl
  | link target => exact absurd hg (hl _ _)

/-- The place of a directory goes on from the place of the root as its path does. -/
theorem place_of_subdirectory {t : FileTree} (ht : t.Proper) (hl : t.LinkFree) {root path : Path}
    (h : ReflTransGen t.Subdirectory path root) {d₀ d : Directory}
    (hroot : t.directory? root = .ok (some d₀)) (hd : t.directory? path = .ok (some d)) :
    ∃ names, path = ⟨root.slashes, root.parts ++ names⟩ ∧
      d.reached.place = d₀.reached.place ++ names := by
  induction h using ReflTransGen.head_induction_on generalizing d with
  | refl =>
    obtain rfl := eq_of_directory? hroot hd
    exact ⟨[], by rw [List.append_nil], (List.append_nil _).symm⟩
  | head hstep _ ih =>
    obtain @⟨path, d', -, row, hd', hm, hs⟩ := hstep
    obtain ⟨names, hpath, hplace⟩ := ih hd'
    refine ⟨names ++ [row.1], ?_, ?_⟩
    · rw [hpath, Path.child, List.append_assoc]
    · rw [place_of_leads ht hl hd' hm hd, hplace, List.append_assoc]

theorem BuildEntry.place_eq {t : FileTree} (ht : t.Proper) (hl : t.LinkFree) {root p : Path}
    {place : List String} (h : t.BuildEntry root p place) {d₀ : Directory}
    (hroot : t.directory? root = .ok (some d₀)) :
    ∃ names, p = ⟨root.slashes, root.parts ++ names⟩ ∧ place = d₀.reached.place ++ names := by
  obtain @⟨path, d, row, below, directory, -, -, -⟩ := h
  obtain ⟨names, hpath, hplace⟩ := place_of_subdirectory ht hl below hroot directory
  refine ⟨names ++ [row.1], ?_, ?_⟩
  · rw [hpath, Path.child, List.append_assoc]
  · rw [hplace, List.append_assoc]

/-! ## Entries that are found twice -/

/-- No build file lies below both roots. -/
def Separate (t : FileTree) (root root' : Path) : Prop :=
  ∀ p place p' place', t.BuildEntry root p place → t.BuildEntry root' p' place' → place ≠ place'

/-- Neither root lies in the other one or is the same. -/
def Apart (t : FileTree) (root root' : Path) : Prop :=
  ∀ d d', t.directory? root = .ok (some d) → t.directory? root' = .ok (some d') →
    ¬ d.reached.place <+: d'.reached.place ∧ ¬ d'.reached.place <+: d.reached.place

theorem Apart.separate {t : FileTree} (ht : t.Proper) (hl : t.LinkFree) {root root' : Path}
    (h : t.Apart root root') : t.Separate root root' := by
  rintro p place p' place' he he' rfl
  obtain ⟨d, hd⟩ := isDirectory_eq_true_iff.1 he.isDirectory
  obtain ⟨d', hd'⟩ := isDirectory_eq_true_iff.1 he'.isDirectory
  obtain ⟨names, -, hplace⟩ := he.place_eq ht hl hd
  obtain ⟨names', -, hplace'⟩ := he'.place_eq ht hl hd'
  -- both places are beginnings of the place of the entry
  have hpre : d.reached.place <+: place := ⟨names, hplace.symm⟩
  have hpre' : d'.reached.place <+: place := ⟨names', hplace'.symm⟩
  rcases List.prefix_or_prefix_of_prefix hpre hpre' with hin | hin
  · exact (h d d' hd hd').1 hin
  · exact (h d d' hd hd').2 hin

/-- Below one root each path is that of another entry. -/
theorem Listing.pairwise_locate {t : FileTree} (ht : t.Proper) (hl : t.LinkFree) {root : Path}
    {paths : List Path} (h : t.Listing root paths) :
    paths.Pairwise fun p p' => t.locate p ≠ t.locate p' := by
  obtain ⟨d, hd⟩ := h.directory
  refine h.nodup.imp_of_mem fun {p p'} hp hp' hne heq => hne ?_
  obtain ⟨place, he⟩ := h.mem_iff.1 hp
  obtain ⟨place', he'⟩ := h.mem_iff.1 hp'
  rw [he.locate ht, he'.locate ht, Except.ok.injEq] at heq
  obtain ⟨names, rfl, hplace⟩ := he.place_eq ht hl hd
  obtain ⟨names', rfl, hplace'⟩ := he'.place_eq ht hl hd
  rw [hplace, hplace', List.append_cancel_left_eq] at heq
  rw [heq]

/-- Below several roots each path is that of another entry exactly if they are separate. -/
theorem pairwise_locate_iff {t : FileTree} (ht : t.Proper) (hl : t.LinkFree) {roots : List Path}
    {listings : List (List Path)} (h : List.Forall₂ t.Listing roots listings) :
    (listings.flatten.Pairwise fun p p' => t.locate p ≠ t.locate p') ↔
      roots.Pairwise t.Separate := by
  induction h with
  | nil => exact ⟨fun _ => .nil, fun _ => .nil⟩
  | @cons root paths roots listings hlist hrest ih =>
    have hfirst : (∀ p ∈ paths, ∀ p' ∈ listings.flatten, t.locate p ≠ t.locate p') ↔
        ∀ root' ∈ roots, t.Separate root root' := by
      constructor
      · intro hne root' hroot' p place p' place' he he' heq
        refine hne p (hlist.mem_iff.2 ⟨place, he⟩) p'
          ((mem_listings_iff hrest).2 ⟨root', hroot', place', he'⟩) ?_
        rw [he.locate ht, he'.locate ht, heq]
      · intro hsep p hp p' hp' heq
        obtain ⟨place, he⟩ := hlist.mem_iff.1 hp
        obtain ⟨root', hroot', place', he'⟩ := (mem_listings_iff hrest).1 hp'
        rw [he.locate ht, he'.locate ht, Except.ok.injEq] at heq
        exact hsep root' hroot' p place p' place' he he' heq
    rw [List.flatten_cons, List.pairwise_append, List.pairwise_cons, ih, hfirst]
    exact ⟨fun ⟨_, hrest, hroot⟩ => ⟨hroot, hrest⟩,
      fun ⟨hroot, hrest⟩ => ⟨hlist.pairwise_locate ht hl, hrest, hroot⟩⟩

/-- Roots that are no directories are separate from all others. -/
theorem pairwise_separate_filter {t : FileTree} {roots : List Path} :
    (roots.filter t.isDirectory).Pairwise t.Separate ↔ roots.Pairwise t.Separate := by
  rw [List.pairwise_filter]
  constructor
  · intro h
    refine h.imp fun {root root'} hsep p place p' place' he he' => ?_
    exact hsep he.isDirectory he'.isDirectory p place p' place' he he'
  · intro h
    exact h.imp fun {root root'} hsep _ _ => hsep

end FileTree

end BuildOrder
