/-
Loading files with several workers at a time. The files wait in their order. A worker that is free
takes the first file that waits; it writes what is wrong with the file, if anything, to the log that
all workers share, and then hands in the result. When all results are in they are put together in the
order of the files.

The workers' steps may come in any order, so the log gets its errors in any order; nothing else is
left to the schedule. The invariant of the steps is that what has been written is what the files so
far have to say, up to its order, and with a single worker in their order; with a single worker all
files in front of one that has been taken have ended. No schedule gets stuck, and the loading of one
file after the other is one of them for any number of workers.
-/
import BuildOrder.Proofs.Loading
import Mathlib.Algebra.GroupWithZero.Nat
import Mathlib.Logic.Relation

namespace BuildOrder

open Relation

/-! ## Tasks -/

/-- How far the loading of a file has come. -/
inductive Stage where
  | waiting
  | running
  | reported
  | ended (result : Except Refusal (Option Module))

/-- A file that is to be loaded. -/
structure Task where
  path : String
  stage : Stage

namespace Stage

/-- No worker has taken it. -/
def waits : Stage → Bool
  | waiting => true
  | _ => false

/-- A worker is at it. -/
def busy : Stage → Bool
  | running | reported => true
  | _ => false

/-- The steps that are left. -/
def left : Stage → Nat
  | waiting => 3
  | running => 2
  | reported => 1
  | ended _ => 0

theorem eq_waiting {s : Stage} (h : s.waits = true) : s = waiting := by
  cases s with
  | waiting => rfl
  | running => cases h
  | reported => cases h
  | ended result => cases h

theorem eq_ended {s : Stage} (hw : s ≠ waiting) (hb : s.busy = false) :
    ∃ result, s = ended result := by
  cases s with
  | waiting => exact absurd rfl hw
  | running => cases hb
  | reported => cases hb
  | ended result => exact ⟨result, rfl⟩

end Stage

namespace FileTree

/-- What a file by itself has to say: its error, if it has one. -/
def saidOf (t : FileTree) (path : String) : List Diagnostic :=
  match t.loadModule path with
  | .ok (.error d) => [d]
  | _ => []

/-- What is handed in for a file: its module, or nothing after an error. -/
def resultOf (t : FileTree) (path : String) : Except Refusal (Option Module) :=
  (t.loadModule path).map Except.toOption

/-- What a task has said so far. -/
def saidBy (t : FileTree) (task : Task) : List Diagnostic :=
  match task.stage with
  | .reported | .ended _ => t.saidOf task.path
  | _ => []

end FileTree

/-! ## Steps of workers -/

/-- Tasks in the order of their files, and the log that is shared. -/
structure Pool where
  tasks : List Task
  log : Log

namespace Pool

/-- All files wait. -/
def start (files : List String) (log : Log) : Pool := ⟨files.map (⟨·, .waiting⟩), log⟩

/-- All results are in. -/
def finished (results : List (String × Except Refusal (Option Module))) (log : Log) : Pool :=
  ⟨results.map fun r => ⟨r.1, .ended r.2⟩, log⟩

/-- One step of some worker, where there are so many of them. -/
inductive Step (t : FileTree) (workers : Nat) : Pool → Pool → Prop
  | take {before after : List Task} {path : String} {log : Log}
      (hfirst : ∀ task ∈ before, task.stage ≠ .waiting)
      (hfree : (before ++ after).countP (·.stage.busy) < workers) :
      Step t workers ⟨before ++ ⟨path, .waiting⟩ :: after, log⟩
        ⟨before ++ ⟨path, .running⟩ :: after, log⟩
  | report {before after : List Task} {path : String} {log : Log} :
      Step t workers ⟨before ++ ⟨path, .running⟩ :: after, log⟩
        ⟨before ++ ⟨path, .reported⟩ :: after, log.addAll (t.saidOf path)⟩
  | handIn {before after : List Task} {path : String} {log : Log} :
      Step t workers ⟨before ++ ⟨path, .reported⟩ :: after, log⟩
        ⟨before ++ ⟨path, .ended (t.resultOf path)⟩ :: after, log⟩

/-- Any number of steps, by any workers. -/
abbrev Steps (t : FileTree) (workers : Nat) : Pool → Pool → Prop := ReflTransGen (Step t workers)

/-! ## What the steps keep -/

/-- Two tasks, one in front of the other, of which at most one has been taken and has not ended. -/
def InTurn (a b : Task) : Prop := (∃ result, a.stage = .ended result) ∨ b.stage = .waiting

/-- The state of a pool that was started with some files and a log. -/
structure Loads (t : FileTree) (workers : Nat) (files : List String) (log : Log) (pool : Pool) :
    Prop where
  paths : pool.tasks.map (·.path) = files
  results : ∀ task ∈ pool.tasks, ∀ result, task.stage = .ended result →
    result = t.resultOf task.path
  said : ∃ said, pool.log = log.addAll said ∧ said.Perm (pool.tasks.flatMap t.saidBy) ∧
    (workers = 1 → said = pool.tasks.flatMap t.saidBy)
  inTurn : workers = 1 → pool.tasks.Pairwise InTurn

section

variable {t : FileTree} {workers : Nat} {files : List String} {log log₀ : Log}
  {before after : List Task} {path : String}

theorem loads_start : Loads t workers files log (start files log) where
  paths := by simp [start, Function.comp_def]
  results task hm result hr := by
    obtain ⟨path, -, rfl⟩ := List.mem_map.1 hm
    cases hr
  said := by
    have hnone : (start files log).tasks.flatMap t.saidBy = [] := by
      simp [start, List.flatMap_map, FileTree.saidBy]
    refine ⟨[], ?_, ?_, ?_⟩
    · simp [start, Log.addAll]
    · rw [hnone]
    · rw [hnone]
      exact fun _ => rfl
  inTurn _ := by
    rw [start, List.pairwise_map]
    exact List.pairwise_of_forall fun _ _ => .inr rfl

theorem forall_mem_replace {p : Task → Prop} {a b : Task} (h : ∀ task ∈ before ++ a :: after, p task)
    (hb : p b) : ∀ task ∈ before ++ b :: after, p task := by
  rw [List.forall_mem_append, List.forall_mem_cons] at h ⊢
  exact ⟨h.1, hb, h.2.2⟩

/-- Of a task in the middle, only its own stage changes. -/
theorem InTurn.replace {a b : Stage} (h : (before ++ ⟨path, a⟩ :: after).Pairwise InTurn)
    (hfront : ∀ task ∈ before, ∃ result, task.stage = .ended result)
    (hback : (∃ result, b = .ended result) ∨ ¬ ∃ result, a = .ended result) :
    (before ++ ⟨path, b⟩ :: after).Pairwise InTurn := by
  rw [List.pairwise_append, List.pairwise_cons] at h ⊢
  obtain ⟨hb, ⟨hx, ha⟩, hba⟩ := h
  refine ⟨hb, ⟨fun task hm => ?_, ha⟩, fun task hm task' hm' => .inl (hfront task hm)⟩
  rcases hback with hback | hback
  · exact .inl hback
  · exact .inr ((hx task hm).resolve_left hback)

/-- In front of a task that has been taken all have ended, where only one is taken at a time. -/
theorem ended_of_inTurn {a : Stage} (h : (before ++ ⟨path, a⟩ :: after).Pairwise InTurn)
    (ha : a ≠ .waiting) : ∀ task ∈ before, ∃ result, task.stage = .ended result := by
  intro task hm
  rw [List.pairwise_append] at h
  exact (h.2.2 task hm _ (List.mem_cons_self ..)).resolve_right ha

/-- A worker takes the first file that waits. If it is the only worker, no other file is taken. -/
theorem Loads.take (h : Loads t workers files log₀ ⟨before ++ ⟨path, .waiting⟩ :: after, log⟩)
    (hfirst : ∀ task ∈ before, task.stage ≠ .waiting)
    (hfree : (before ++ after).countP (·.stage.busy) < workers) :
    Loads t workers files log₀ ⟨before ++ ⟨path, .running⟩ :: after, log⟩ where
  paths := by simpa using h.paths
  results := forall_mem_replace h.results fun result he => by cases he
  said := by simpa [FileTree.saidBy] using h.said
  inTurn hone := by
    refine InTurn.replace (h.inTurn hone) (fun task hm => ?_) (.inr (by simp))
    have hidle : (before ++ after).countP (·.stage.busy) = 0 := by omega
    rw [List.countP_eq_zero] at hidle
    exact Stage.eq_ended (hfirst task hm) (by simpa using hidle task (List.mem_append_left _ hm))

/-- What is said about a file joins what has been said; a single worker says it last, as the files
behind wait. -/
theorem Loads.report (h : Loads t workers files log₀ ⟨before ++ ⟨path, .running⟩ :: after, log⟩) :
    Loads t workers files log₀
      ⟨before ++ ⟨path, .reported⟩ :: after, log.addAll (t.saidOf path)⟩ where
  paths := by simpa using h.paths
  results := forall_mem_replace h.results fun result he => by cases he
  said := by
    obtain ⟨said, rfl, hperm, hone⟩ := h.said
    have hold : (before ++ ⟨path, .running⟩ :: after).flatMap t.saidBy =
        before.flatMap t.saidBy ++ after.flatMap t.saidBy := by simp [FileTree.saidBy]
    have hnew : (before ++ ⟨path, .reported⟩ :: after).flatMap t.saidBy =
        before.flatMap t.saidBy ++ (t.saidOf path ++ after.flatMap t.saidBy) := by
      simp [FileTree.saidBy]
    rw [hold] at hperm hone
    refine ⟨said ++ t.saidOf path, Log.addAll_addAll .., ?_, fun hw => ?_⟩
    · rw [hnew]
      have hcomm : (after.flatMap t.saidBy ++ t.saidOf path).Perm
          (t.saidOf path ++ after.flatMap t.saidBy) := List.perm_append_comm
      refine (hperm.append_right _).trans ?_
      rw [List.append_assoc]
      exact hcomm.append_left _
    -- a single worker has not taken a file behind this one, so nothing is said of those
    · have hafter : after.flatMap t.saidBy = [] := by
        rw [List.flatMap_eq_nil_iff]
        intro task hm
        have hturn := h.inTurn hw
        rw [List.pairwise_append, List.pairwise_cons] at hturn
        rcases hturn.2.1.1 task hm with ⟨result, he⟩ | he
        · cases he
        · simp [FileTree.saidBy, he]
      rw [hnew, hone hw, hafter, List.append_nil, List.append_nil]
  inTurn hone := by
    have hturn := h.inTurn hone
    exact InTurn.replace hturn (ended_of_inTurn hturn (by simp)) (.inr (by simp))

theorem Loads.handIn (h : Loads t workers files log₀ ⟨before ++ ⟨path, .reported⟩ :: after, log⟩) :
    Loads t workers files log₀ ⟨before ++ ⟨path, .ended (t.resultOf path)⟩ :: after, log⟩ where
  paths := by simpa using h.paths
  results := forall_mem_replace h.results fun result he => (Stage.ended.inj he).symm
  said := by simpa [FileTree.saidBy] using h.said
  inTurn hone := by
    have hturn := h.inTurn hone
    exact InTurn.replace hturn (ended_of_inTurn hturn (by simp)) (.inl ⟨_, rfl⟩)

theorem Steps.loads {pool : Pool} (h : Steps t workers (start files log) pool) :
    Loads t workers files log pool := by
  induction h with
  | refl => exact loads_start
  | tail _ hstep ih =>
    cases hstep with
    | take hfirst hfree => exact ih.take hfirst hfree
    | report => exact ih.report
    | handIn => exact ih.handIn

/-- When all results are in they are those of the files, whatever the steps were. -/
theorem Loads.of_finished {results : List (String × Except Refusal (Option Module))}
    (h : Loads t workers files log₀ (finished results log)) :
    results = files.map (fun path => (path, t.resultOf path)) ∧
      ∃ said, log = log₀.addAll said ∧ said.Perm (files.flatMap t.saidOf) ∧
        (workers = 1 → said = files.flatMap t.saidOf) := by
  have hpaths : results.map (·.1) = files := by
    simpa [finished, Function.comp_def] using h.paths
  have hresults : ∀ r ∈ results, r.2 = t.resultOf r.1 := fun r hr =>
    h.results ⟨r.1, .ended r.2⟩ (List.mem_map_of_mem hr) r.2 rfl
  have hsaid : (finished results log).tasks.flatMap t.saidBy = files.flatMap t.saidOf := by
    rw [← hpaths, finished, List.flatMap_map, List.flatMap_map]
    rfl
  refine ⟨?_, hsaid ▸ h.said⟩
  rw [← hpaths, List.map_map]
  refine (List.map_id' results).symm.trans (List.map_congr_left fun r hr => ?_)
  show r = (r.1, t.resultOf r.1)
  rw [← hresults r hr]

/-! ## No schedule gets stuck -/

/-- The steps that are left for a pool. -/
def left (pool : Pool) : Nat := (pool.tasks.map (·.stage.left)).sum

theorem exists_finished {tasks : List Task}
    (h : ∀ task ∈ tasks, ∃ result, task.stage = .ended result) (log : Log) :
    ∃ results, (⟨tasks, log⟩ : Pool) = finished results log := by
  induction tasks with
  | nil => exact ⟨[], rfl⟩
  | cons task tasks ih =>
    rw [List.forall_mem_cons] at h
    obtain ⟨⟨result, hr⟩, h⟩ := h
    obtain ⟨path, stage⟩ := task
    obtain ⟨results, he⟩ := ih h
    cases hr
    cases he
    exact ⟨(path, result) :: results, rfl⟩

theorem exists_step_of_busy (workers : Nat) {tasks : List Task} {task : Task} (hm : task ∈ tasks)
    (hb : task.stage.busy = true) (log : Log) :
    ∃ pool, Step t workers ⟨tasks, log⟩ pool ∧ pool.left < (Pool.mk tasks log).left := by
  obtain ⟨before, after, rfl⟩ := List.append_of_mem hm
  obtain ⟨path, stage⟩ := task
  cases stage with
  | waiting => cases hb
  | running => exact ⟨_, .report, by simp [left, Stage.left]⟩
  | reported => exact ⟨_, .handIn, by simp [left, Stage.left]⟩
  | ended result => cases hb

theorem exists_step_of_waits (hw : 1 ≤ workers) {tasks : List Task} {task : Task}
    (hfind : tasks.find? (·.stage.waits) = some task)
    (hidle : ∀ task ∈ tasks, task.stage.busy = false) (log : Log) :
    ∃ pool, Step t workers ⟨tasks, log⟩ pool ∧ pool.left < (Pool.mk tasks log).left := by
  obtain ⟨hwait, before, after, rfl, hbefore⟩ := List.find?_eq_some_iff_append.1 hfind
  obtain ⟨path, stage⟩ := task
  obtain rfl : stage = .waiting := Stage.eq_waiting hwait
  have hfirst : ∀ task ∈ before, task.stage ≠ .waiting := by
    intro task hm hs
    have := hbefore task hm
    rw [hs] at this
    cases this
  have hnone : (before ++ after).countP (·.stage.busy) = 0 := by
    rw [List.countP_eq_zero]
    intro task hm
    rw [hidle task (List.mem_append.2 ((List.mem_append.1 hm).imp_right (List.mem_cons_of_mem _)))]
    decide
  exact ⟨_, .take hfirst (by omega), by simp [left, Stage.left]⟩

/-- As long as a result is missing some worker has a step to make. -/
theorem finished_or_step (t : FileTree) (hw : 1 ≤ workers) (pool : Pool) :
    (∃ results log, pool = finished results log) ∨
      ∃ pool', Step t workers pool pool' ∧ pool'.left < pool.left := by
  obtain ⟨tasks, log⟩ := pool
  by_cases hbusy : ∃ task ∈ tasks, task.stage.busy = true
  · obtain ⟨task, hm, hb⟩ := hbusy
    exact .inr (exists_step_of_busy workers hm hb log)
  have hidle : ∀ task ∈ tasks, task.stage.busy = false := by simpa using hbusy
  cases hfind : tasks.find? (·.stage.waits) with
  | some task => exact .inr (exists_step_of_waits hw hfind hidle log)
  | none =>
    rw [List.find?_eq_none] at hfind
    have hended : ∀ task ∈ tasks, ∃ result, task.stage = .ended result := by
      intro task hm
      refine Stage.eq_ended (fun hs => ?_) (hidle task hm)
      exact hfind task hm (by rw [hs]; rfl)
    obtain ⟨results, he⟩ := exists_finished hended log
    exact .inl ⟨results, log, he⟩

/-- However far a pool has come, it can come to its end. -/
theorem exists_steps_finished (t : FileTree) (hw : 1 ≤ workers) (pool : Pool) :
    ∃ results log, Steps t workers pool (finished results log) := by
  -- each step that is found leaves less to do
  induction hn : pool.left using Nat.strongRecOn generalizing pool with
  | ind n ih =>
    subst hn
    rcases finished_or_step t hw pool with ⟨results, log, rfl⟩ | ⟨pool', hstep, hlt⟩
    · exact ⟨results, log, .refl⟩
    · obtain ⟨results, log, hsteps⟩ := ih _ hlt pool' rfl
      exact ⟨results, log, .head hstep hsteps⟩

theorem Step.mono {workers' : Nat} (hw : workers ≤ workers') {pool pool' : Pool}
    (h : Step t workers pool pool') : Step t workers' pool pool' := by
  cases h with
  | take hfirst hfree => exact .take hfirst (Nat.lt_of_lt_of_le hfree hw)
  | report => exact .report
  | handIn => exact .handIn

end

/-! ## Results -/

/-- Reads the results in the order of the files; the first refusal counts. -/
def gather : List (String × Except Refusal (Option Module)) → Except Refusal (List (String × Module))
  | [] => .ok []
  | (_, .error refusal) :: _ => .error refusal
  | (_, .ok none) :: rest => gather rest
  | (path, .ok (some m)) :: rest => (gather rest).map ((path, m) :: ·)

/-- Puts the results together when all are in. -/
def collect (results : List (String × Except Refusal (Option Module))) : Logged Catalog := fun log =>
  match gather results with
  | .error refusal => .error refusal log
  | .ok loaded =>
    let merge := Merge.ofList loaded
    .ok merge.catalog (log.addAll (merge.duplicates.map .ofFault))

end Pool

namespace FileTree

/-- What loading some files with so many workers may come to. -/
def LoadsAll (t : FileTree) (files : List String) (workers : Nat) (log : Log)
    (outcome : EStateM.Result Refusal Log Catalog) : Prop :=
  ∃ results log', Pool.Steps t workers (.start files log) (.finished results log') ∧
    outcome = Pool.collect results log'

end FileTree

end BuildOrder
