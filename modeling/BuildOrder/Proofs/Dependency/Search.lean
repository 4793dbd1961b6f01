/-
The search for cycles: what it answers is a cycle, and where it answers none every name is grounded,
so that no walk along dependencies ever comes back to where it was.

The invariant of the search is about its path. Each name of the path needs the next one; what a name
of the path needs is still to be followed, or is the next name, or is grounded; and a name of the
graph that is neither fresh nor on the path is grounded. So a name is grounded when the path leaves
it, and an edge to a name that was met before leads to nothing new.
-/
import BuildOrder.Dependency.Cycle
import BuildOrder.Proofs.Dependency.Adjacency
import Mathlib.Data.List.Chain
import Mathlib.Logic.Relation

namespace BuildOrder.Dependency

open Relation

/-! ## Cycles -/

/-- A cycle of a relation: a list that ends with the name it begins with, has every other name
once, and relates each name to the next. -/
def IsCycle (needs : String → String → Prop) (names : List String) : Prop :=
  ∃ v vs, names = v :: vs ++ [v] ∧ (v :: vs).Nodup ∧ names.IsChain needs

theorem transGen_of_isChain {r : String → String → Prop} :
    ∀ {a b : String} (l : List String), (a :: l ++ [b]).IsChain r → TransGen r a b
  | _, _, [], h => .single (List.isChain_pair.1 h)
  | _, _, x :: l, h => by
    obtain ⟨hax, h⟩ := List.isChain_cons_cons.1 h
    exact .head hax (transGen_of_isChain l h)

theorem IsCycle.transGen {r : String → String → Prop} {names : List String} (h : IsCycle r names) :
    ∃ v, TransGen r v v := by
  obtain ⟨v, vs, rfl, -, hc⟩ := h
  exact ⟨v, transGen_of_isChain vs hc⟩

/-- A chain that may go back from its end to `v` closes into a cycle at `v`. -/
theorem isCycle_close {r : String → String → Prop} {names : List String} {last v : String}
    (hn : (names ++ [last]).Nodup) (hc : (names ++ [last]).IsChain r) (hr : r last v)
    (hv : v ∈ names ++ [last]) :
    IsCycle r ((names ++ [last]).dropWhile (· ≠ v) ++ [v]) := by
  -- the cycle begins where `v` stands first
  obtain ⟨before, vs, he, hb⟩ := List.eq_append_cons_of_mem hv
  have hdrop : (names ++ [last]).dropWhile (· ≠ v) = v :: vs := by
    rw [he, List.dropWhile_append_of_pos]
    · simp
    · intro a ha
      simpa using fun h : a = v => hb (h ▸ ha)
  have hsuf : v :: vs <:+ names ++ [last] := ⟨before, he.symm⟩
  refine ⟨v, vs, by rw [hdrop], hn.sublist hsuf.sublist, ?_⟩
  rw [hdrop]
  refine (hc.suffix hsuf).append (.singleton v) fun x hx y hy => ?_
  have hlast : (v :: vs).getLast? = some last := by
    have := congrArg List.getLast? he
    rwa [List.getLast?_concat, List.getLast?_append_of_ne_nil _ (List.cons_ne_nil v vs), eq_comm]
      at this
  rw [hlast] at hx
  cases hx
  cases hy
  exact hr

/-! ## Grounded names -/

theorem pathNames_cons (f : Frame) (path : List Frame) :
    pathNames (f :: path) = pathNames path ++ [f.name] := by
  simp [pathNames]

namespace Graph

/-- A name from which every walk along dependencies comes to an end. -/
def Grounded (g : Graph) (n : String) : Prop := Acc (fun d n => g.Needs n d) n

theorem Grounded.intro {g : Graph} {n : String} (h : ∀ d, g.Needs n d → g.Grounded d) :
    g.Grounded n := Acc.intro n h

/-- No cycle goes through a grounded name. -/
theorem Grounded.not_transGen {g : Graph} {n : String} (h : g.Grounded n) :
    ¬ TransGen g.Needs n n := by
  induction h with
  | intro n _ ih =>
    intro hn
    obtain ⟨d, hd, hdn⟩ := TransGen.head'_iff.1 hn
    exact ih d hd (.tail' hdn hd)

/-! ## The invariant of the search -/

/-- What the names of a path need is still to be followed, or is the name the path goes on to, or
is grounded; `next` is the name that comes behind the first frame. -/
def Followed (g : Graph) : Option String → List Frame → Prop
  | _, [] => True
  | next, f :: path =>
    (∀ d, g.Needs f.name d → d ∈ f.pending ∨ next = some d ∨ g.Grounded d) ∧
      g.Followed (some f.name) path

theorem Followed.drop {g : Graph} {n : String} {path : List Frame}
    (h : g.Followed (some n) path) (hn : g.Grounded n) : g.Followed none path := by
  cases path with
  | nil => trivial
  | cons f path =>
    refine ⟨fun d hd => ?_, h.2⟩
    rcases h.1 d hd with hd | hd | hd
    · exact .inl hd
    · cases hd; exact .inr (.inr hn)
    · exact .inr (.inr hd)

/-- The state of a search, with the names not met yet and the present path. -/
structure Trail (g : Graph) (fresh : List String) (path : List Frame) : Prop where
  fresh_nodup : fresh.Nodup
  nodup : (pathNames path).Nodup
  apart : ∀ n ∈ pathNames path, n ∉ fresh
  chain : (pathNames path).IsChain g.Needs
  pending : ∀ f ∈ path, ∀ d ∈ f.pending, g.Needs f.name d
  followed : g.Followed none path
  left : ∀ n ∈ g.nodes, n ∈ fresh ∨ n ∈ pathNames path ∨ g.Grounded n

theorem Trail.start {g : Graph} (hg : g.WF) : g.Trail g.nodes [] where
  fresh_nodup := hg.nodup
  nodup := List.nodup_nil
  apart _ hn := by cases hn
  chain := .nil
  pending _ hf := by cases hf
  followed := trivial
  left _ hn := .inl hn

section

variable {g : Graph} {fresh pending : List String} {name dep : String} {path : List Frame}

/-- A new path begins where none is left. -/
theorem Trail.root (h : g.Trail (name :: fresh) []) :
    g.Trail fresh [⟨name, g.dependenciesOf name⟩] where
  fresh_nodup := (List.nodup_cons.1 h.fresh_nodup).2
  nodup := List.nodup_singleton name
  apart n hn := by
    obtain rfl : n = name := by simpa [pathNames] using hn
    exact (List.nodup_cons.1 h.fresh_nodup).1
  chain := .singleton name
  pending f hf d hd := by
    obtain rfl := List.mem_singleton.1 hf
    exact hd
  followed := ⟨fun d hd => .inl hd, trivial⟩
  left n hn := by
    rcases h.left n hn with hn | hn | hn
    · rcases List.mem_cons.1 hn with rfl | hn
      · exact .inr (.inl (by simp [pathNames]))
      · exact .inl hn
    · cases hn
    · exact .inr (.inr hn)

/-- What the name needs that the search stands at is still to be followed, or is grounded. -/
theorem Trail.followed_head (h : g.Trail fresh (⟨name, pending⟩ :: path)) {d : String}
    (hd : g.Needs name d) : d ∈ pending ∨ g.Grounded d := by
  rcases h.followed.1 d hd with hd | hd | hd
  · exact .inl hd
  · cases hd
  · exact .inr hd

/-- A name whose dependencies have all been followed is grounded, and the path leaves it. -/
theorem Trail.leave (h : g.Trail fresh (⟨name, []⟩ :: path)) : g.Trail fresh path := by
  have hname : g.Grounded name :=
    .intro fun d hd => (h.followed_head hd).resolve_left List.not_mem_nil
  obtain ⟨hf, hn, ha, hc, hp, hw, hl⟩ := h
  rw [pathNames_cons] at hn ha hc hl
  refine ⟨hf, (List.nodup_append.1 hn).1, fun n hm => ha n (List.mem_append_left _ hm),
    hc.left_of_append, fun f hm => hp f (List.mem_cons_of_mem _ hm), hw.2.drop hname,
    fun n hm => ?_⟩
  rcases hl n hm with hm | hm | hm
  · exact .inl hm
  · rcases List.mem_append.1 hm with hm | hm
    · exact .inr (.inl hm)
    · obtain rfl := List.mem_singleton.1 hm
      exact .inr (.inr hname)
  · exact .inr (.inr hm)

theorem Trail.needs (h : g.Trail fresh (⟨name, dep :: pending⟩ :: path)) : g.Needs name dep :=
  h.pending _ (List.mem_cons_self ..) dep (List.mem_cons_self ..)

theorem Trail.pending_tail (h : g.Trail fresh (⟨name, dep :: pending⟩ :: path)) :
    ∀ f ∈ (⟨name, pending⟩ : Frame) :: path, ∀ d ∈ f.pending, g.Needs f.name d := by
  intro f hf d hd
  rcases List.mem_cons.1 hf with rfl | hf
  · exact h.pending _ (List.mem_cons_self ..) d (List.mem_cons_of_mem _ hd)
  · exact h.pending f (List.mem_cons_of_mem _ hf) d hd

/-- A dependency that was met before and is not on the path is grounded, and is passed over. -/
theorem Trail.skip (hg : g.WF) (h : g.Trail fresh (⟨name, dep :: pending⟩ :: path))
    (hp : dep ∉ pathNames (⟨name, pending⟩ :: path)) (hf : dep ∉ fresh) :
    g.Trail fresh (⟨name, pending⟩ :: path) := by
  have hdep : g.Grounded dep := by
    rcases h.left dep (hg.right_mem _ _ h.needs) with hd | hd | hd
    · exact absurd hd hf
    · exact absurd hd hp
    · exact hd
  refine ⟨h.fresh_nodup, h.nodup, h.apart, h.chain, h.pending_tail, ⟨fun d hd => ?_, h.followed.2⟩,
    h.left⟩
  rcases h.followed_head hd with hd | hd
  · rcases List.mem_cons.1 hd with rfl | hd
    · exact .inr (.inr hdep)
    · exact .inl hd
  · exact .inr (.inr hd)

/-- The path goes on to a dependency that was not met yet. -/
theorem Trail.enter (h : g.Trail fresh (⟨name, dep :: pending⟩ :: path)) (hdep : dep ∈ fresh) :
    g.Trail (fresh.erase dep) (⟨dep, g.dependenciesOf dep⟩ :: ⟨name, pending⟩ :: path) := by
  have hnew : dep ∉ pathNames (⟨name, pending⟩ :: path) := fun hm => h.apart dep hm hdep
  refine ⟨h.fresh_nodup.erase dep, ?_, fun n hn hm => ?_, ?_, fun f hf d hd => ?_,
    ⟨fun d hd => .inl hd, fun d hd => ?_, h.followed.2⟩, fun n hn => ?_⟩
  · rw [pathNames_cons, ← List.concat_eq_append]
    exact List.Nodup.concat hnew h.nodup
  · rw [h.fresh_nodup.mem_erase_iff] at hm
    rw [pathNames_cons, List.mem_append, List.mem_singleton] at hn
    rcases hn with hn | hn
    · exact h.apart n hn hm.2
    · exact hm.1 hn
  · rw [pathNames_cons, pathNames_cons, List.append_assoc, List.singleton_append, List.isChain_split]
    exact ⟨pathNames_cons ⟨name, pending⟩ path ▸ h.chain, List.isChain_pair.2 h.needs⟩
  · rcases List.mem_cons.1 hf with rfl | hf
    · exact hd
    · exact h.pending_tail f hf d hd
  · rcases h.followed_head hd with hd | hd
    · rcases List.mem_cons.1 hd with rfl | hd
      · exact .inr (.inl rfl)
      · exact .inl hd
    · exact .inr (.inr hd)
  · rw [pathNames_cons, List.mem_append, List.mem_singleton, h.fresh_nodup.mem_erase_iff]
    rcases h.left n hn with hn | hn | hn
    · by_cases hd : n = dep
      · exact .inr (.inl (.inr hd))
      · exact .inl ⟨hd, hn⟩
    · exact .inr (.inl (.inl hn))
    · exact .inr (.inr hn)

/-- A dependency on the path closes a cycle. -/
theorem Trail.close (h : g.Trail fresh (⟨name, dep :: pending⟩ :: path))
    (hdep : dep ∈ pathNames (⟨name, pending⟩ :: path)) :
    IsCycle g.Needs ((pathNames (⟨name, pending⟩ :: path)).dropWhile (· ≠ dep) ++ [dep]) := by
  have hn := h.nodup
  have hc := h.chain
  rw [pathNames_cons] at hn hc hdep ⊢
  exact isCycle_close hn hc h.needs hdep

/-! ## The whole search -/

/-- Where the search answers a list it is a cycle, and else all names are grounded. -/
theorem Trail.search_spec (hg : g.WF) (h : g.Trail fresh path) :
    match g.search fresh path with
    | some names => IsCycle g.Needs names
    | none => ∀ n ∈ g.nodes, g.Grounded n := by
  fun_induction g.search fresh path with
  | case1 =>
    intro n hn
    rcases h.left n hn with hn | hn | hn
    · cases hn
    · cases hn
    · exact hn
  | case2 root fresh ih => exact ih h.root
  | case3 fresh name path ih => exact ih h.leave
  | case4 fresh path name dep pending names hdep => exact h.close hdep
  | case5 fresh path name dep pending names hdep hf ih => exact ih (h.enter hf)
  | case6 fresh path name dep pending names hdep hf ih => exact ih (h.skip hg hdep hf)

end

theorem isCycle_of_findCycle {g : Graph} (hg : g.WF) {names : List String}
    (h : g.findCycle = some names) : IsCycle g.Needs names := by
  have := (Trail.start hg).search_spec hg
  rwa [show g.search g.nodes [] = some names from h] at this

theorem grounded_of_findCycle_eq_none {g : Graph} (hg : g.WF) (h : g.findCycle = none) (n : String) :
    g.Grounded n := by
  have hall := (Trail.start hg).search_spec hg
  rw [show g.search g.nodes [] = none from h] at hall
  refine .intro fun d hd => hall d (hg.right_mem n d hd)

/-- The search answers a cycle exactly if there is one. -/
theorem findCycle_isSome_iff {g : Graph} (hg : g.WF) :
    g.findCycle.isSome ↔ ∃ n, TransGen g.Needs n n := by
  cases h : g.findCycle with
  | some names => simpa using (isCycle_of_findCycle hg h).transGen
  | none => simpa using fun n => (grounded_of_findCycle_eq_none hg h n).not_transGen

end Graph

end BuildOrder.Dependency
