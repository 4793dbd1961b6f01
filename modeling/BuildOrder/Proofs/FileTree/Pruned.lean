/-
Trees that something was taken out of. Emptying a directory and deleting an entry change nothing but
what lies at or below one place; what is left is what was there before.

In a tree that something was taken out of a path leads where it led before, or nowhere any more: each
step of a walk finds the entry that it found before or finds it missing. So what was no directory does
not become one.
-/
import BuildOrder.Proofs.FileTree.Walk

namespace BuildOrder.FileTree

namespace Entry

/-- An entry by itself, without what lies below it. -/
def face : Entry → Entry
  | .directory _ => .directory []
  | e => e

theorem exists_directory_of_face {e : Entry} {entries : Entries}
    (h : e.face = (directory entries).face) : ∃ entries', e = .directory entries' := by
  cases e with
  | file content => cases h
  | directory entries' => exact ⟨entries', rfl⟩
  | link target => cases h

theorem eq_link_of_face {e : Entry} {target : String} (h : e.face = (link target).face) :
    e = .link target := by
  cases e with
  | file content => cases h
  | directory entries => cases h
  | link target' => exact h

/-! ## Places after a change -/

theorem lookup_map (f : Entry → Entry) (name other : String) (entries : Entries) :
    (entries.map fun row => if row.1 = name then (row.1, f row.2) else row).lookup other =
      if other = name then (entries.lookup other).map f else entries.lookup other := by
  induction entries with
  | nil => simp
  | cons row entries ih =>
    rw [List.map_cons, List.lookup_cons, List.lookup_cons, ih]
    grind

theorem lookup_filter_ne (name other : String) (entries : Entries) :
    (entries.filter (·.1 ≠ name)).lookup other =
      if other = name then none else entries.lookup other := by
  induction entries with
  | nil => simp
  | cons row entries ih =>
    rw [List.filter_cons]
    grind

/-- What lies below a changed entry lies below what it was changed into. -/
theorem get?_modify_append (f : Entry → Entry) (front back : List String) (e : Entry) :
    (e.modify f front).get? (front ++ back) = (e.get? front).bind fun sub => (f sub).get? back := by
  induction front generalizing e with
  | nil => rfl
  | cons name front ih =>
    cases e with
    | file content => rfl
    | link target => rfl
    | directory entries =>
      rw [modify, List.cons_append, get?, get?, lookup_map, if_pos rfl]
      cases entries.lookup name with
      | none => rfl
      | some sub => exact ih sub

/-- Elsewhere a change leaves every entry as it is by itself. -/
theorem face_get?_modify (f : Entry → Entry) {front place : List String} (h : ¬ front <+: place)
    (e : Entry) : ((e.modify f front).get? place).map face = (e.get? place).map face := by
  induction front generalizing e place with
  | nil => exact absurd List.nil_prefix h
  | cons name front ih =>
    cases e with
    | file content => rfl
    | link target => rfl
    | directory entries =>
      cases place with
      | nil => rfl
      | cons other place =>
        rw [modify, get?, get?, lookup_map]
        split
        · rename_i hname
          subst hname
          have hback : ¬ front <+: place := fun hp => h (List.cons_prefix_cons.2 ⟨rfl, hp⟩)
          cases entries.lookup other with
          | none => rfl
          | some sub => exact ih hback sub
        · rfl

theorem get?_without (e : Entry) (name other : String) (back : List String) :
    (e.without name).get? (other :: back) =
      if other = name then none else e.get? (other :: back) := by
  cases e with
  | file content => simp [without, get?]
  | link target => simp [without, get?]
  | directory entries =>
    rw [without, get?, get?, lookup_filter_ne]
    split <;> rfl

theorem face_without (e : Entry) (name : String) : (e.without name).face = e.face := by
  cases e <;> rfl

end Entry

variable {t t' t'' : FileTree} {place front : List String} {name : String}

theorem face_get?_clear (h : ¬ front <+: place) (t : FileTree) :
    ((t.clear front).get? place).map Entry.face = (t.get? place).map Entry.face :=
  Entry.face_get?_modify _ h t.top

theorem get?_clear_append (t : FileTree) (front back : List String) :
    (t.clear front).get? (front ++ back) =
      (t.get? front).bind fun _ => (Entry.directory []).get? back :=
  Entry.get?_modify_append _ front back t.top

theorem erase_concat (t : FileTree) (front : List String) (name : String) :
    t.erase (front ++ [name]) = { t with top := t.top.modify (Entry.without name) front } := by
  unfold erase Entry.erase
  rw [List.getLast?_concat, List.dropLast_concat]

/-- Deleting an entry changes only the directory that it is in. -/
theorem get?_erase_front (t : FileTree) (front : List String) (name : String)
    (back : List String) : (t.erase (front ++ [name])).get? (front ++ back) =
      (t.get? front).bind fun e => (e.without name).get? back := by
  rw [erase_concat]
  exact Entry.get?_modify_append _ front back t.top

theorem get?_erase_append (t : FileTree) (front : List String) (name : String)
    (back : List String) : (t.erase (front ++ [name])).get? (front ++ [name] ++ back) = none := by
  rw [List.append_assoc, get?_erase_front]
  cases t.get? front with
  | none => rfl
  | some e => exact (e.get?_without name name back).trans (if_pos rfl)

theorem face_get?_erase (h : ¬ front ++ [name] <+: place) (t : FileTree) :
    ((t.erase (front ++ [name])).get? place).map Entry.face = (t.get? place).map Entry.face := by
  by_cases hfront : front <+: place
  · obtain ⟨back, rfl⟩ := hfront
    rw [get?_erase_front, FileTree.get?, FileTree.get?, Entry.get?_append]
    cases t.top.get? front with
    | none => rfl
    | some e =>
      cases back with
      | nil => exact congrArg some (e.face_without name)
      | cons other back =>
        have hne : other ≠ name := by
          rintro rfl
          exact h ⟨back, List.append_assoc ..⟩
        exact congrArg (Option.map Entry.face) ((e.get?_without name other back).trans (if_neg hne))
  · rw [erase_concat]
    exact Entry.face_get?_modify _ hfront t.top

/-! ## Trees with less in them -/

/-- A tree in which all that is left was there in another one. -/
structure Pruned (t' t : FileTree) : Prop where
  here : t'.here = t.here
  pathLimit : t'.pathLimit = t.pathLimit
  get? : ∀ place e', t'.get? place = some e' → ∃ e, t.get? place = some e ∧ e'.face = e.face

namespace Pruned

theorem refl (t : FileTree) : t.Pruned t := ⟨rfl, rfl, fun _ e h => ⟨e, h, rfl⟩⟩

theorem trans (h : t''.Pruned t') (h' : t'.Pruned t) : t''.Pruned t where
  here := h.here.trans h'.here
  pathLimit := h.pathLimit.trans h'.pathLimit
  get? place e'' hg := by
    obtain ⟨e', hg', hface⟩ := h.get? place e'' hg
    obtain ⟨e, hg, hface'⟩ := h'.get? place e' hg'
    exact ⟨e, hg, hface.trans hface'⟩

/-- Nothing but what lies at or below a place has changed, and nothing is new there. -/
theorem of_below (hhere : t'.here = t.here) (hlimit : t'.pathLimit = t.pathLimit)
    (hsame : ∀ place, ¬ front <+: place →
      (t'.get? place).map Entry.face = (t.get? place).map Entry.face)
    (hless : ∀ back e', t'.get? (front ++ back) = some e' →
      ∃ e, t.get? (front ++ back) = some e ∧ e'.face = e.face) : t'.Pruned t where
  here := hhere
  pathLimit := hlimit
  get? place e' hg := by
    by_cases hfront : front <+: place
    · obtain ⟨back, rfl⟩ := hfront
      exact hless back e' hg
    · have hface := hsame place hfront
      rw [hg, Option.map_some, eq_comm, Option.map_eq_some_iff] at hface
      obtain ⟨e, he, hface⟩ := hface
      exact ⟨e, he, hface.symm⟩

theorem directory (h : t'.Pruned t) {entries : Entries}
    (hg : t'.get? place = some (.directory entries)) :
    ∃ entries', t.get? place = some (.directory entries') := by
  obtain ⟨e, he, hface⟩ := h.get? _ _ hg
  obtain ⟨entries', rfl⟩ := Entry.exists_directory_of_face hface.symm
  exact ⟨entries', he⟩

end Pruned

/-- A directory that is emptied. -/
theorem pruned_clear {entries : Entries} (hd : t.get? front = some (.directory entries)) :
    (t.clear front).Pruned t := by
  refine .of_below rfl rfl (fun place h => face_get?_clear h t) fun back e' hg => ?_
  rw [get?_clear_append, hd] at hg
  cases back with
  | nil =>
    rw [List.append_nil, hd]
    exact ⟨_, rfl, (congrArg Entry.face (Option.some.inj hg)).symm⟩
  | cons name back => cases hg

/-- An entry that is deleted. -/
theorem pruned_erase (t : FileTree) (front : List String) (name : String) :
    (t.erase (front ++ [name])).Pruned t := by
  have hhere : (t.erase (front ++ [name])).here = t.here := rfl
  refine .of_below hhere rfl (fun place h => face_get?_erase h t) fun back e' hg => ?_
  rw [get?_erase_append] at hg
  cases hg

/-! ## Paths through them -/

/-- An answer that is another one, or says that the way is lost. -/
def SameOrLost {α : Type} (answer' answer : Except SystemFault.Cause α) : Prop :=
  answer' = answer ∨ answer' = .error .noEntry ∨ answer' = .error .notDirectory

theorem SameOrLost.of_ok {α : Type} {answer' answer : Except SystemFault.Cause α} {a : α}
    (h : SameOrLost answer' answer) (ha : answer' = .ok a) : answer = .ok a := by
  rcases h with rfl | hlost | hlost
  · exact ha
  · cases hlost.symm.trans ha
  · cases hlost.symm.trans ha

namespace Pruned

/-- A step that is found in what is left was found before. -/
theorem lookup (h : t'.Pruned t) {entries : Entries} {e' : Entry}
    (hd : t'.get? place = some (.directory entries)) (hl : entries.lookup name = some e') :
    ∃ entries' e, t.get? place = some (.directory entries') ∧ entries'.lookup name = some e ∧
      e'.face = e.face := by
  obtain ⟨entries', hd'⟩ := h.directory hd
  obtain ⟨e, hg, hface⟩ := h.get? _ _ (get?_concat hd hl)
  refine ⟨entries', e, hd', ?_, hface⟩
  unfold FileTree.get? at hd' hg
  rw [Entry.get?_append, hd', Option.bind_some] at hg
  simpa [Entry.get?] using hg

/-- A walk leads to where it led before, or it breaks off. -/
theorem walk (h : t'.Pruned t) (links : Nat) (place steps : List String) :
    SameOrLost (t'.walk links place steps) (t.walk links place steps) := by
  unfold SameOrLost
  fun_induction t'.walk links place steps with
  | case1 => exact .inl (by rw [FileTree.walk])
  | case2 links place steps entries hd ih =>
    obtain ⟨entries', hd'⟩ := h.directory hd
    rwa [FileTree.walk, hd']
  | case3 links place steps entries hd hdot ih =>
    obtain ⟨entries', hd'⟩ := h.directory hd
    rw [FileTree.walk, hd']
    simpa only [if_neg hdot, if_true] using ih
  | case4 links place name steps entries hd hdot hdots hlong =>
    obtain ⟨entries', hd'⟩ := h.directory hd
    rw [FileTree.walk, hd']
    simp only [if_neg hdot, if_neg hdots, if_pos hlong, true_or]
  | case5 => exact .inr (.inl rfl)
  | case6 place name steps entries hd hdot hdots hlong target hl =>
    obtain ⟨entries', e, hd', hl', hface⟩ := h.lookup hd hl
    obtain rfl := Entry.eq_link_of_face hface.symm
    rw [FileTree.walk, hd']
    simp only [if_neg hdot, if_neg hdots, if_neg hlong, hl', true_or]
  | case7 place name steps entries hd hdot hdots hlong target hl links ih =>
    obtain ⟨entries', e, hd', hl', hface⟩ := h.lookup hd hl
    obtain rfl := Entry.eq_link_of_face hface.symm
    rw [FileTree.walk, hd']
    simpa only [if_neg hdot, if_neg hdots, if_neg hlong, hl'] using ih
  | case8 links place name steps entries hd hdot hdots hlong e' hlink hl ih =>
    obtain ⟨entries', e, hd', hl', hface⟩ := h.lookup hd hl
    have hlink' (target : String) (he : e = .link target) : False :=
      hlink target (Entry.eq_link_of_face (hface.trans (congrArg Entry.face he)))
    rw [FileTree.walk, hd']
    simpa only [if_neg hdot, if_neg hdots, if_neg hlong, hl'] using ih
  | case9 => exact .inr (.inr rfl)

theorem resolve (h : t'.Pruned t) (path : Path) :
    SameOrLost (t'.resolve path) (t.resolve path) := by
  have hstart : t'.startOf path = t.startOf path := by rw [startOf, startOf, h.here]
  have hadmits : t'.admits path = t.admits path := by rw [admits, admits, h.pathLimit]
  unfold FileTree.resolve
  rw [hstart, hadmits]
  split
  · exact h.walk _ _ _
  · exact .inl rfl

theorem askable (h : t'.Pruned t) {path : Path} (ha : t.Askable path) : t'.Askable path := by
  rw [askable_iff] at ha ⊢
  intro hnull hlong
  rcases h.resolve path with hsame | hlost | hlost
  · exact ha hnull (hsame.symm.trans hlong)
  · cases hlost.symm.trans hlong
  · cases hlost.symm.trans hlong

/-- A path leads to no directory any more if it led to none, or to one that is gone. -/
theorem directory?_eq_none (h : t'.Pruned t) {path : Path} (ha : t.Askable path)
    (hgone : ∀ d, t.directory? path = .ok (some d) →
      ∀ entries, t'.get? d.reached.place ≠ some (.directory entries)) :
    t'.directory? path = .ok none := by
  obtain ⟨d?, hd'⟩ := h.askable ha
  cases d? with
  | none => exact hd'
  | some d' =>
    obtain ⟨hnull, hr, hg⟩ := directory?_eq_some_iff.1 hd'
    obtain ⟨entries, hg'⟩ := h.directory hg
    have hd : t.directory? path = .ok (some ⟨d'.reached, entries⟩) :=
      directory?_eq_some_iff.2 ⟨hnull, (h.resolve path).of_ok hr, hg'⟩
    exact absurd hg (hgone _ hd _)

/-- What is no directory stays none. -/
theorem directory?_of_none (h : t'.Pruned t) {path : Path} (hd : t.directory? path = .ok none) :
    t'.directory? path = .ok none := by
  refine h.directory?_eq_none ⟨none, hd⟩ fun d hsome => ?_
  cases hd.symm.trans hsome

/-- What a path still locates is at the same place. -/
theorem locate_child (h : t'.Pruned t) {path : Path} (hn : IsName name)
    (hl : t'.locate (path.child name) = .ok place) : t.locate (path.child name) = .ok place := by
  obtain ⟨parent, entries', e', hwalk, hg, hlookup, hplace⟩ := (locate_child_iff hn).1 hl
  have hstart : t'.startOf path = t.startOf path := by rw [startOf, startOf, h.here]
  obtain ⟨entries, e, hg', hlookup', -⟩ := h.lookup hg hlookup
  rw [hstart] at hwalk
  exact (locate_child_iff hn).2
    ⟨parent, entries, e, (h.walk _ _ _).of_ok hwalk, hg', hlookup', hplace⟩

end Pruned

end BuildOrder.FileTree
