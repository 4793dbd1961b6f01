/-
Logs, and work that writes to them. Such work leaves what stands in the log as it is, whether it
succeeds or is refused: this holds of the single steps, and of steps one after the other.
-/
import BuildOrder.Discovery
import BuildOrder.Steps

namespace BuildOrder

/-! ## Errors in a log -/

namespace Log

theorem hasErrors_eq_false_iff {log : Log} :
    log.hasErrors = false ↔ ∀ d ∈ log.entries, d.severity ≠ .error := by
  simp [hasErrors, Diagnostic.isError]

theorem hasErrors_addAll (log : Log) (ds : List Diagnostic) :
    (log.addAll ds).hasErrors = (log.hasErrors || ds.any (·.isError)) := by
  simp [hasErrors]

theorem addAll_addAll (log : Log) (ds es : List Diagnostic) :
    (log.addAll ds).addAll es = log.addAll (ds ++ es) := by
  simp [addAll]

theorem filter_addAll (p : Diagnostic → Bool) (log : Log) (ds : List Diagnostic) :
    (log.addAll ds).entries.filter p = log.entries.filter p ++ ds.filter p :=
  List.filter_append ..

theorem filter_add_of_not {p : Diagnostic → Bool} {d : Diagnostic} (h : p d = false) (log : Log) :
    (log.add d).entries.filter p = log.entries.filter p := by
  simp [h]

@[simp] theorem hasErrors_info (log : Log) (message : String) :
    (log.info message).hasErrors = log.hasErrors := by
  simp [info, hasErrors_add, Diagnostic.isError]

@[simp] theorem hasErrors_error (log : Log) (message : String) :
    (log.error message).hasErrors = true := by
  simp [error, hasErrors_add, Diagnostic.isError]

@[simp] theorem hasErrors_report (log : Log) (f : Fault) : (log.report f).hasErrors = true := by
  simp [report, hasErrors_add, Diagnostic.isError, Diagnostic.ofFault]

/-! ## Logs that go on -/

/-- One log is the beginning of another. -/
def IsPrefix (log log' : Log) : Prop := log.entries <+: log'.entries

theorem IsPrefix.refl (log : Log) : log.IsPrefix log := List.prefix_refl _

theorem IsPrefix.trans {a b c : Log} (h₁ : a.IsPrefix b) (h₂ : b.IsPrefix c) : a.IsPrefix c :=
  List.IsPrefix.trans h₁ h₂

theorem isPrefix_add (log : Log) (d : Diagnostic) : log.IsPrefix (log.add d) :=
  List.prefix_append ..

theorem isPrefix_addAll (log : Log) (ds : List Diagnostic) : log.IsPrefix (log.addAll ds) :=
  List.prefix_append ..

end Log

/-! ## Work that only adds to the log -/

/-- The log that a piece of work leaves, also where it is refused. -/
def Logged.logAfter {α : Type} (x : Logged α) (log : Log) : Log :=
  match x log with
  | .ok _ log' => log'
  | .error _ log' => log'

/-- A piece of work that leaves what is in the log as it is. -/
def Logged.Grows {α : Type} (x : Logged α) : Prop := ∀ log : Log, log.IsPrefix (x.logAfter log)

namespace Logged

theorem logAfter_ok {α : Type} {x : Logged α} {a : α} {log log' : Log} (h : x log = .ok a log') :
    x.logAfter log = log' := by
  unfold logAfter
  rw [h]

theorem logAfter_error {α : Type} {x : Logged α} {refusal : Refusal} {log log' : Log}
    (h : x log = .error refusal log') : x.logAfter log = log' := by
  unfold logAfter
  rw [h]

theorem grows_pure {α : Type} (a : α) : Grows (pure a) := fun log => .refl log

theorem grows_get : Grows get := fun log => .refl log

theorem grows_ofSystem {α : Type} (r : Except SystemFault α) : Grows (ofSystem r) := by
  intro log
  cases r <;> exact .refl log

theorem grows_modify {f : Log → Log} (h : ∀ log : Log, log.IsPrefix (f log)) : Grows (modify f) := h

theorem grows_modifyGet {α : Type} {f : Log → α × Log} (h : ∀ log : Log, log.IsPrefix (f log).2) :
    Grows (modifyGet f) := h

theorem Grows.bind {α β : Type} {x : Logged α} {f : α → Logged β} (hx : x.Grows)
    (hf : ∀ a, (f a).Grows) : (x >>= f).Grows := by
  intro log
  have hl := hx log
  cases h : x log with
  | ok a log' =>
    rw [logAfter_ok h] at hl
    have : (x >>= f).logAfter log = (f a).logAfter log' := by
      unfold logAfter
      rw [Steps.bind_of_ok h]
    rw [this]
    exact hl.trans (hf a log')
  | error refusal log' =>
    rw [logAfter_error h] at hl
    rwa [logAfter_error (Steps.bind_of_error h)]

end Logged

theorem FileTree.grows_discover (t : FileTree) (roots : List String) :
    (t.discover roots).Grows := by
  induction roots with
  | nil => exact Logged.grows_pure _
  | cons root roots ih =>
    unfold discover
    refine (Logged.grows_ofSystem _).bind fun d? => ?_
    cases d? with
    | none =>
      refine (Logged.grows_modify fun log => log.isPrefix_add _).bind fun _ => ?_
      exact ih.bind fun files => Logged.grows_pure _
    | some d => exact (Logged.grows_ofSystem _).bind fun _ => ih.bind fun _ => Logged.grows_pure _

end BuildOrder
