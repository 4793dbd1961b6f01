/-
The commands that resolve some roots agree with each other. They end with the same exit code, and
the code, the build order, the figures and the lists of dependencies that they print are all told by
one resolution and its log.

A command looks at whatever is at hand, whether the run succeeds, whether the log has errors, or how
many errors there are. That this comes to the same is what makes a resolution sound; that what a
module needs is what it declares, and mirrors what needs it, holds of the graph of its catalog.

What is printed is told line by line, and of a JSON text by the one value that it denotes.
-/
import BuildOrder.CommandLine.Run
import BuildOrder.Proofs.Discovery.Opening
import BuildOrder.Proofs.Json
import BuildOrder.Proofs.Loading.Schedules
import BuildOrder.Proofs.Resolution

namespace BuildOrder

/-! ## Diagnostics in print -/

namespace Log

theorem errors_eq_nil_iff {log : Log} : log.errors = [] ↔ log.hasErrors = false := by
  unfold errors hasErrors
  rw [List.filter_eq_nil_iff, List.any_eq_false]

end Log

/-- The line for a diagnostic names its severity in brackets. -/
theorem Diagnostic.bracket_mem_render (d : Diagnostic) : '[' ∈ d.render.toList := by
  unfold render
  split
  · simp [toString]
  · split <;> simp [toString]

/-! ## What resolving tells the commands -/

namespace FileTree

/-- The catalog of a run is what the files that were found are loaded into. -/
theorem exists_loadAll_of_resolveAll {t : FileTree} {roots files : List String}
    {workers : Option Int} {log found log' : Log} {r : Resolution} {c : Catalog}
    (h : t.resolveAll roots workers log = .ok r log') (hd : t.discover roots log = .ok files found)
    (hne : files ≠ []) (hc : r.catalog = some c) :
    ∃ loaded, t.loadAll files workers (found.info s!"Found {files.length} build files") =
      .ok c loaded := by
  rw [resolveAll_eq, resolveWith_of_ok hd hne] at h
  cases hl : t.loadAll files workers (found.info s!"Found {files.length} build files") with
  | error refusal loaded =>
    rw [hl] at h
    cases h
  | ok c' loaded =>
    have hcatalog : r.catalog = some c' := by
      rw [hl] at h
      unfold resolveLoaded at h
      dsimp only at h
      split at h
      · cases h
        rfl
      · cases h
        exact c'.catalog_resolve loaded
    obtain rfl : c' = c := Option.some.inj (hcatalog.symm.trans hc)
    exact ⟨loaded, rfl⟩

end FileTree

/-! ## The answers of the commands -/

namespace Outcome

/-- What a debugging run notes when it begins. -/
def begun (debug : Bool) (roots : List String) : Report :=
  if debug then [⟨.error, "[DEBUG] Scanning roots: " ++ ", ".intercalate roots⟩] else []

/-- What a debugging run notes before the answer of a command. -/
def notes (debug : Bool) (roots : List String) (r : Resolution) : Report :=
  if debug then [⟨.error, "[DEBUG] Scanning roots: " ++ ", ".intercalate roots⟩,
    ⟨.error, if r.ok then "[DEBUG] Resolution finished (ok=True)"
      else "[DEBUG] Resolution finished (ok=False)"⟩]
  else []

/-- What is printed of a refusal. -/
def refused (debug : Bool) (refusal : Refusal) : Report :=
  let title := refusal.kind ++ if refusal.message = "" then "" else ": " ++ refusal.message
  if debug then [⟨.error, "Traceback (most recent call last):"⟩,
    ⟨.error, (Text.words '\n' title).getLastD ""⟩]
  else [⟨.error, "Error: " ++ refusal.message⟩]

/-- The lines for what is in a log: errors on a channel of their own. -/
def said (log : Log) : Report :=
  log.entries.map fun d => ⟨if d.severity = .error then .error else .output, d.render⟩

/-- The word for an exit code. -/
def status (exitCode : Nat) : String := if exitCode = 0 then "OK" else "FAILED"

/-- Names in one line. -/
def listed (names : List String) : String :=
  if names = [] then "(none)" else ", ".intercalate names

/-- The document of a module. -/
def moduleDocument (m : Module) : Json := .object [
  ("name", .string m.name),
  ("directory", .string m.directory),
  ("type", .string (match m.kind with
    | .executable => "Executable"
    | .staticLibrary => "StaticLibrary"
    | .sharedLibrary => "SharedLibrary")),
  ("sources", .array (m.sources.map .string)),
  ("public_includes", .array (m.publicIncludes.map .string)),
  ("private_includes", .array (m.privateIncludes.map .string)),
  ("defines", .array (m.defines.map .string)),
  ("dependencies", .array (m.dependencies.map .string))]

/-- The document of a run. -/
def document (ok : Bool) (order : List String) (rows : List (String × Module)) (log : Log) : Json :=
  .object [
    ("ok", .bool ok),
    ("order", .array (order.map .string)),
    ("modules", .object (rows.map fun (name, m) => (name, moduleDocument m))),
    ("diagnostics", .array (log.entries.map fun d => .string d.render))]

/-- One line is printed behind the notes, a text of the document and of no other value. -/
def Prints (notes : Report) (o : Outcome) (document : Json) : Prop :=
  ∃ text, o.report = notes ++ [⟨.output, text⟩] ∧ ∀ v, Json.Denotes text v ↔ v = document

/-- The answers to a resolution with its log, behind some notes: a build order as text and as JSON,
the figures of the run, and for each name what it needs and what needs it. -/
structure Agree (notes : Report) (r : Resolution) (log : Log) (text json check : Outcome)
    (deps : String → Outcome) : Prop where
  text_code : text.exitCode = if ∀ d ∈ log.entries, d.severity ≠ .error then 0 else 1
  json_code : json.exitCode = text.exitCode
  check_code : check.exitCode = text.exitCode
  success : text.exitCode = 0 → ∃ c, r.catalog = some c ∧
    text.report = notes ++ said log ++ [⟨.output, "\nBUILD ORDER"⟩, ⟨.output, "-----------"⟩] ++
      r.order.map (⟨.output, ·⟩) ∧
    json.Prints notes (document true r.order c.rows log)
  failure : text.exitCode ≠ 0 →
    text.report = notes ++ said log ∧
    (∀ line ∈ text.report, line.text ∉ ["\nBUILD ORDER", "-----------"]) ∧
    json.Prints notes (document false [] [] log)
  figures : ∃ modules errors warnings : Nat,
    (r.catalog = none → modules = 0) ∧ (∀ c, r.catalog = some c → modules = c.modules.length) ∧
    errors = ((said log).filter (·.channel = .error)).length ∧
    errors = (log.entries.filter (·.severity = .error)).length ∧
    warnings = (log.entries.filter (·.severity = .warning)).length ∧
    check.report = notes ++ said log ++ [⟨.output,
      s!"\n{status check.exitCode}: {modules} module(s), {errors} error(s), {warnings} warning(s)"⟩]
  deps_code : ∀ name, (deps name).exitCode = 0 ↔ check.exitCode = 0 ∧
    ∃ c, r.catalog = some c ∧ (name ∈ c.names ∨ ∃ m ∈ c.modules, name ∈ m.dependencies)
  deps_report : ∀ name, (deps name).exitCode = 0 → ∃ c, r.catalog = some c ∧
    (deps name).report = notes ++ said log ++ [⟨.output, "\n" ++ name⟩,
      ⟨.output, .ofList (List.replicate name.length '-')⟩,
      ⟨.output, "Depends on: " ++ listed (c.declared name)⟩,
      ⟨.output, "Needed by: " ++ listed (c.graph.dependentsOf name)⟩]
  mirror : ∀ c, r.catalog = some c → ∀ name dep,
    (c.declared name).count dep = (c.graph.dependentsOf dep).count name

/-- The dependencies of a known name are printed where nothing stands against it. -/
theorem Agree.deps_eq {notes : Report} {r : Resolution} {log : Log} {text json check : Outcome}
    {deps : String → Outcome} (h : Agree notes r log text json check deps) {c : Catalog}
    (hc : r.catalog = some c) (hcheck : check.exitCode = 0) {name : String}
    (hname : name ∈ c.names ∨ ∃ m ∈ c.modules, name ∈ m.dependencies) :
    deps name = ⟨notes ++ said log ++ [⟨.output, "\n" ++ name⟩,
      ⟨.output, .ofList (List.replicate name.length '-')⟩,
      ⟨.output, "Depends on: " ++ listed (c.declared name)⟩,
      ⟨.output, "Needed by: " ++ listed (c.graph.dependentsOf name)⟩], 0⟩ := by
  have hzero := (h.deps_code name).2 ⟨hcheck, c, hc, hname⟩
  obtain ⟨c', hc', hreport⟩ := h.deps_report name hzero
  obtain rfl : c' = c := Option.some.inj (hc'.symm.trans hc)
  rw [← hreport, ← hzero]

/-! ### The printed lines -/

theorem note_eq (debug : Bool) (message : String) :
    Report.note debug message = if debug then [⟨.error, "[DEBUG] " ++ message⟩] else [] := rfl

theorem note_begun (debug : Bool) (roots : List String) :
    Report.note debug ("Scanning roots: " ++ ", ".intercalate roots) = begun debug roots := by
  rw [note_eq, ← String.append_assoc]
  rfl

theorem note_finished (debug : Bool) (roots : List String) (r : Resolution) :
    begun debug roots ++
      Report.note debug ("Resolution finished (ok=" ++ (if r.ok then "True" else "False") ++ ")") =
        notes debug roots r := by
  rw [note_eq]
  unfold begun notes
  cases debug with
  | false => rfl
  | true => cases r.ok <;> rfl

theorem refusal_eq (debug : Bool) (refusal : Refusal) :
    Report.refusal debug refusal = refused debug refusal := by
  have htitle : (if refusal.message = "" then refusal.kind
      else refusal.kind ++ ": " ++ refusal.message) =
        refusal.kind ++ if refusal.message = "" then "" else ": " ++ refusal.message := by
    split
    · rw [String.append_empty]
    · rw [String.append_assoc]
  unfold Report.refusal Report.failure refused
  rw [htitle]
  rfl

theorem diagnostics_eq (log : Log) : Report.diagnostics log.entries = said log := by
  unfold Report.diagnostics said
  refine List.map_congr_left fun d _ => ?_
  unfold Diagnostic.isError
  by_cases hd : d.severity = .error
  · rw [if_pos hd, if_pos (decide_eq_true hd)]
    rfl
  · rw [if_neg hd, if_neg (mt of_decide_eq_true hd)]
    rfl

/-- There are as many lines on the error channel as errors. -/
theorem length_errors_said (log : Log) :
    ((said log).filter (·.channel = .error)).length = log.errors.length := by
  have hchannel : ∀ d : Diagnostic,
      (if d.severity = .error then .error else .output : Channel) = .error ↔
        d.severity = .error := by
    intro d
    split <;> simp [*]
  unfold said Log.errors Diagnostic.isError
  simp only [List.filter_map, List.length_map, Function.comp_def, hchannel]

theorem bracket_mem_said {log : Log} {line : Line} (h : line ∈ said log) :
    '[' ∈ line.text.toList := by
  obtain ⟨d, -, rfl⟩ := List.mem_map.1 h
  exact d.bracket_mem_render

theorem bracket_mem_notes {debug : Bool} {roots : List String} {r : Resolution} {line : Line}
    (h : line ∈ notes debug roots r) : '[' ∈ line.text.toList := by
  unfold notes at h
  split at h
  · rw [List.mem_cons, List.mem_singleton] at h
    obtain rfl | rfl := h
    · simp
    · dsimp only
      split <;> decide
  · cases h

theorem toJson_eq (m : Module) : m.toJson = moduleDocument m := by
  unfold Module.toJson moduleDocument
  cases m.kind <;> rfl

/-- The answer of a command, behind the notes. -/
def behind (notes : Report) (o : Outcome) : Outcome := ⟨notes ++ o.report, o.exitCode⟩

theorem ofResolution_of_ok {t : FileTree} {debug : Bool} {roots : List String}
    {workers : Option Int} {r : Resolution} {log : Log}
    (h : t.resolveAll roots workers .empty = .ok r log) (next : Resolution → Log → Outcome) :
    ofResolution t debug roots workers next = (next r log).behind (notes debug roots r) := by
  unfold ofResolution
  rw [h, ← note_finished, note_begun]
  rfl

theorem ofResolution_of_error {t : FileTree} {debug : Bool} {roots : List String}
    {workers : Option Int} {refusal : Refusal} {log : Log}
    (h : t.resolveAll roots workers .empty = .error refusal log)
    (next : Resolution → Log → Outcome) :
    ofResolution t debug roots workers next =
      ⟨begun debug roots ++ refused debug refusal, 1⟩ := by
  unfold ofResolution
  rw [h, note_begun, ← refusal_eq]

/-! ## Answers to a sound resolution -/

section

variable {r : Resolution} {files : List String} {log : Log}

theorem codeOf_eq_zero_iff {ok : Bool} : codeOf ok = 0 ↔ ok = true := by
  cases ok <;> decide

theorem code_of_sound (h : r.Sound files log) :
    codeOf r.ok = if ∀ d ∈ log.entries, d.severity ≠ .error then 0 else 1 := by
  unfold codeOf
  split
  · rename_i hok
    rw [if_pos (h.ok_iff.1 hok)]
  · rename_i hok
    rw [if_neg (mt h.ok_iff.2 hok)]

theorem ok_eq_of_sound (h : r.Sound files log) : r.ok = !log.hasErrors := by
  have hok := h.ok_iff
  rw [← Log.hasErrors_eq_false_iff] at hok
  cases he : log.hasErrors with
  | false => exact hok.2 he
  | true =>
    rw [Bool.not_true, ← Bool.not_eq_true, hok, he]
    exact Bool.noConfusion

/-- The figures have the word for an exit code if this is zero just where there are no errors. -/
theorem summary_eq {modules errors warnings code : Nat} (h : errors = 0 ↔ code = 0) :
    Report.summary modules errors warnings = [⟨.output,
      s!"\n{status code}: {modules} module(s), {errors} error(s), {warnings} warning(s)"⟩] := by
  have hstatus : (if (errors : Int) ≠ 0 then "FAILED" else "OK") = status code := by
    unfold status
    by_cases he : errors = 0
    · rw [if_pos (h.1 he), he]
      rfl
    · rw [if_neg (mt h.2 he), if_pos (by omega)]
  unfold Report.summary
  rw [hstatus]
  rfl

theorem errors_eq_zero_iff (h : r.Sound files log) : log.errors.length = 0 ↔ codeOf r.ok = 0 := by
  rw [List.length_eq_zero_iff, Log.errors_eq_nil_iff, codeOf_eq_zero_iff, ok_eq_of_sound h]
  simp

theorem deps_of_mem {c : Catalog} {name : String} (hc : r.catalog = some c)
    (he : log.hasErrors = false) (hm : name ∈ c.graph.nodes) :
    deps name r log = ⟨said log ++ [⟨.output, "\n" ++ name⟩,
      ⟨.output, .ofList (List.replicate name.length '-')⟩,
      ⟨.output, "Depends on: " ++ listed (c.graph.dependenciesOf name)⟩,
      ⟨.output, "Needed by: " ++ listed (c.graph.dependentsOf name)⟩], 0⟩ := by
  unfold deps
  dsimp only
  rw [hc]
  dsimp only
  rw [he, if_neg Bool.false_ne_true, if_pos hm, diagnostics_eq]
  rfl

/-- Dependencies are printed of a name that the graph has, where no error stands against it. -/
theorem deps_eq_zero_iff {name : String} : (deps name r log).exitCode = 0 ↔
    log.hasErrors = false ∧ ∃ c, r.catalog = some c ∧ name ∈ c.graph.nodes := by
  constructor
  · intro hcode
    unfold deps at hcode
    dsimp only at hcode
    split at hcode
    · cases hcode
    · rename_i c hc
      split at hcode
      · cases hcode
      · rename_i he
        split at hcode
        · rename_i hm
          exact ⟨Bool.eq_false_iff.2 he, c, hc, hm⟩
        · cases hcode
  · rintro ⟨he, c, hc, hm⟩
    rw [deps_of_mem hc he hm]

end

/-- What a JSON answer prints, behind the notes. -/
theorem prints_order (notes : Report) (r : Resolution) (log : Log) :
    ((order .json r log).behind notes).Prints notes (orderJson r log) :=
  ⟨_, rfl, fun _ => Json.denotes_render_iff⟩

/-- The answers to a sound resolution agree. -/
theorem agree_of_sound {r : Resolution} {files : List String} {log : Log} (h : r.Sound files log)
    (hnames : ∀ c, r.catalog = some c → c.ByName) {notes : Report}
    (hnotes : ∀ line ∈ notes, '[' ∈ line.text.toList) :
    Agree notes r log ((order .text r log).behind notes) ((order .json r log).behind notes)
      ((check r log).behind notes) fun name => (deps name r log).behind notes where
  text_code := code_of_sound h
  json_code := rfl
  check_code := rfl
  success hcode := by
    have hok : r.ok = true := codeOf_eq_zero_iff.1 hcode
    obtain ⟨c, hc, -⟩ := h.complete hok
    have hdocument : orderJson r log = document true r.order c.rows log := by
      unfold orderJson document
      rw [hok, hc]
      simp only [toJson_eq]
      rfl
    refine ⟨c, hc, ?_, hdocument ▸ prints_order notes r log⟩
    unfold behind order
    dsimp only
    rw [hok, if_pos rfl, diagnostics_eq, List.append_assoc, List.append_assoc]
    rfl
  failure hcode := by
    have hok : r.ok = false := by
      rw [← Bool.not_eq_true]
      exact mt codeOf_eq_zero_iff.2 hcode
    have htext : ((order .text r log).behind notes).report = notes ++ said log := by
      unfold behind order
      dsimp only
      rw [hok, if_neg Bool.false_ne_true, List.append_nil, diagnostics_eq]
    have hdocument : orderJson r log = document false [] [] log := by
      unfold orderJson document
      rw [hok, h.order_eq_nil hok]
      rfl
    refine ⟨htext, fun line hline hmem => ?_, hdocument ▸ prints_order notes r log⟩
    have hheading : ∀ text ∈ ["\nBUILD ORDER", "-----------"], '[' ∉ text.toList := by decide
    refine hheading _ hmem ?_
    rw [htext, List.mem_append] at hline
    exact hline.elim (hnotes line) bracket_mem_said
  figures := by
    refine ⟨(r.catalog.map (·.size)).getD 0, log.errors.length, log.warnings.length,
      fun hc => ?_, fun c hc => ?_, ?_, rfl, rfl, ?_⟩
    · rw [hc]
      rfl
    · rw [hc]
      exact (List.length_map _).symm
    · exact (length_errors_said log).symm
    · unfold behind check
      dsimp only
      rw [diagnostics_eq, summary_eq (errors_eq_zero_iff h), List.append_assoc]
  deps_code name := by
    show (deps name r log).exitCode = 0 ↔ codeOf r.ok = 0 ∧ _
    rw [deps_eq_zero_iff, codeOf_eq_zero_iff, ok_eq_of_sound h, Bool.not_eq_true']
    constructor
    · rintro ⟨he, c, hc, hm⟩
      exact ⟨he, c, hc, (Catalog.mem_nodes_graph_iff (hnames c hc)).1 hm⟩
    · rintro ⟨he, c, hc, hm⟩
      exact ⟨he, c, hc, (Catalog.mem_nodes_graph_iff (hnames c hc)).2 hm⟩
  deps_report name hcode := by
    obtain ⟨he, c, hc, hm⟩ := deps_eq_zero_iff.1 hcode
    refine ⟨c, hc, ?_⟩
    -- the command asks the graph, not the module
    rw [← Catalog.dependenciesOf_graph (hnames c hc)]
    unfold behind
    rw [deps_of_mem hc he hm, List.append_assoc]
  mirror c hc name dep := by
    rw [← Catalog.dependenciesOf_graph (hnames c hc)]
    exact c.graph_wf.mirror name dep

end Outcome

/-! ## Runs -/

/-- The commands that resolve some roots, with what they answer to a resolution. -/
inductive Command.Resolves (roots : List String) (workers : Option Int) :
    Command → (Resolution → Log → Outcome) → Prop
  | order (format : Format) : Resolves roots workers (.order roots workers format) (.order format)
  | check : Resolves roots workers (.check roots workers) .check
  | deps (name : String) : Resolves roots workers (.deps name roots workers) (.deps name)

theorem Invocation.run_of_resolves {roots : List String} {workers : Option Int} {command : Command}
    {next : Resolution → Log → Outcome} (h : command.Resolves roots workers next) (debug : Bool)
    (t : FileTree) : Invocation.run ⟨debug, command⟩ t =
      (t, .ok (Outcome.ofResolution t debug roots workers next)) := by
  cases h with
  | order format => rfl
  | check => rfl
  | deps name => rfl

/-- Where resolving comes to its end, a command answers behind the notes. -/
theorem Invocation.run_of_ok {roots : List String} {workers : Option Int} {command : Command}
    {next : Resolution → Log → Outcome} (h : command.Resolves roots workers next) {t : FileTree}
    {r : Resolution} {log : Log} (hr : t.resolveAll roots workers .empty = .ok r log)
    (debug : Bool) : Invocation.run ⟨debug, command⟩ t =
      (t, .ok ((next r log).behind (Outcome.notes debug roots r))) := by
  rw [run_of_resolves h, Outcome.ofResolution_of_ok hr]

/-- The commands that resolve some roots agree with each other and with the resolution, whose
catalog is what the files that were found are loaded into; and where resolving is refused they all
print the refusal and fail. -/
theorem Invocation.commands_agree (t : FileTree) (debug : Bool) (roots : List String)
    (workers : Option Int) :
    match t.resolveAll roots workers .empty with
    | .error refusal _ => ∀ (command : Command) next, command.Resolves roots workers next →
        Invocation.run ⟨debug, command⟩ t =
          (t, .ok ⟨Outcome.begun debug roots ++ Outcome.refused debug refusal, 1⟩)
    | .ok r log => ∃ files found text json check deps,
        t.discover roots .empty = .ok files found ∧
        (∀ c, r.catalog = some c → c.ByName ∧ ∃ loaded, t.loadAll files workers
          (found.info s!"Found {files.length} build files") = .ok c loaded) ∧
        Invocation.run ⟨debug, .order roots workers .text⟩ t = (t, .ok text) ∧
        Invocation.run ⟨debug, .order roots workers .json⟩ t = (t, .ok json) ∧
        Invocation.run ⟨debug, .check roots workers⟩ t = (t, .ok check) ∧
        (∀ name, Invocation.run ⟨debug, .deps name roots workers⟩ t = (t, .ok (deps name))) ∧
        Outcome.Agree (Outcome.notes debug roots r) r log text json check deps := by
  cases h : t.resolveAll roots workers .empty with
  | error refusal log =>
    intro command next hcommand
    rw [run_of_resolves hcommand, Outcome.ofResolution_of_error h]
  | ok r log =>
    obtain ⟨files, found, hd, hs⟩ := FileTree.sound_of_resolveAll h
    have hloaded : ∀ c, r.catalog = some c → ∃ loaded, t.loadAll files workers
        (found.info s!"Found {files.length} build files") = .ok c loaded := by
      intro c hc
      have hne : files ≠ [] := fun hnil => by
        rw [hs.catalog_eq_none_iff.2 hnil] at hc
        cases hc
      exact FileTree.exists_loadAll_of_resolveAll h hd hne hc
    have hnames : ∀ c, r.catalog = some c → c.ByName := by
      intro c hc
      obtain ⟨loaded, hl⟩ := hloaded c hc
      exact (FileTree.loadAll_accounts hl).1
    have hagree := Outcome.agree_of_sound hs hnames
      fun line (hline : line ∈ Outcome.notes debug roots r) => Outcome.bracket_mem_notes hline
    exact ⟨files, found, _, _, _, _, hd, fun c hc => ⟨hnames c hc, hloaded c hc⟩,
      run_of_ok (.order .text) h debug, run_of_ok (.order .json) h debug, run_of_ok .check h debug,
      fun name => run_of_ok (.deps name) h debug, hagree⟩

/-! ## Two runs -/

namespace FileTree

theorem resolveAll_workshop : workshop.resolveAll ["app", "lib"] none .empty =
    .ok ⟨some workshopModules, ["Net", "Zip", "App"], true⟩ ⟨[
      ⟨.info, "Found 2 build files", none, .unknown⟩,
      ⟨.info, "Loaded 2 modules", none, .unknown⟩,
      ⟨.warning, "Module 'App' depends on unknown module 'Zip'", none, .unknown⟩,
      ⟨.info, "Resolved build order for 3 modules", none, .unknown⟩]⟩ := by
  have horder : workshopModules.buildOrder = .ok ["Net", "Zip", "App"] :=
    Catalog.buildOrder_of_length (by decide +kernel) (by decide)
  have hunknown : workshopModules.unknownWarnings =
      [⟨.warning, "Module 'App' depends on unknown module 'Zip'", none, .unknown⟩] := by
    decide +kernel
  rw [resolveAll_eq, resolveWith_of_ok (discover_workshop .empty).1 (List.cons_ne_nil _ _),
    loadAll_workshop]
  unfold resolveLoaded
  dsimp only
  rw [if_neg (by decide)]
  unfold Catalog.resolve
  dsimp only
  rw [horder, hunknown]
  rfl

/-- A directory with a build file that is no module. -/
def broken : FileTree := single "A.build" "module".toUTF8.toList

theorem resolveAll_broken : broken.resolveAll ["."] none .empty =
    .ok ⟨some .empty, [], false⟩ ⟨[
      ⟨.info, "Found 1 build files", none, .unknown⟩,
      ⟨.error, "Expected Identifier, got EndOfFile", some "A.build", ⟨1, 7⟩⟩]⟩ := by
  have hname : IsName "A.build" ∧ BuildFile.isName "A.build" = true := by decide +kernel
  have hd : broken.discover ["."] .empty = .ok ["A.build"] .empty :=
    discover_singleton (searchRoot_single hname.2 _) .empty
  have hread : broken.read (.ofString "A.build") = .ok (.ok "module".toUTF8.toList) := by
    rw [show Path.ofString "A.build" = (Path.ofString ".").child "A.build" by decide]
    exact read_single hname.1 _
  have hfails : broken.Fails "A.build"
      ⟨.error, "Expected Identifier, got EndOfFile", some "A.build", ⟨1, 7⟩⟩ := by
    have hdecode : Text.decodeFile "module".toUTF8.toList = .ok "module" := by decide +kernel
    have hsource : Module.ofSource (BuildFile.moduleName "A.build")
        (BuildFile.moduleDirectory "A.build") "module" =
          .error ⟨.grammar, "Expected Identifier, got EndOfFile", none, ⟨1, 7⟩⟩ := by
      decide +kernel
    exact .faulty hread hdecode hsource
  have heach : broken.loadEach ["A.build"] =
      { errors := [⟨.error, "Expected Identifier, got EndOfFile", some "A.build", ⟨1, 7⟩⟩] } := by
    unfold loadEach loadEach
    rw [hfails.loadModule]
  rw [resolveAll_eq, resolveWith_of_ok hd (List.cons_ne_nil _ _),
    broken.loadAll_of_pos _ (by simp), heach]
  rfl

end FileTree

section

open FileTree

/-- What is said of the workshop. -/
def workshopLines : Report := [
  ⟨.output, "[Info] Found 2 build files"⟩,
  ⟨.output, "[Info] Loaded 2 modules"⟩,
  ⟨.output, "[Warning] Module 'App' depends on unknown module 'Zip'"⟩,
  ⟨.output, "[Info] Resolved build order for 3 modules"⟩]

/-- The document of the workshop. -/
def workshopDocument : Json := .object [
  ("ok", .bool true),
  ("order", .array [.string "Net", .string "Zip", .string "App"]),
  ("modules", .object [
    ("App", .object [
      ("name", .string "App"), ("directory", .string "app"), ("type", .string "StaticLibrary"),
      ("sources", .array []), ("public_includes", .array []), ("private_includes", .array []),
      ("defines", .array []),
      ("dependencies", .array [.string "Net", .string "Zip", .string "Net"])]),
    ("Net", .object [
      ("name", .string "Net"), ("directory", .string "lib/net"), ("type", .string "StaticLibrary"),
      ("sources", .array []), ("public_includes", .array []), ("private_includes", .array []),
      ("defines", .array []), ("dependencies", .array [])])]),
  ("diagnostics", .array [
    .string "[Info] Found 2 build files",
    .string "[Info] Loaded 2 modules",
    .string "[Warning] Module 'App' depends on unknown module 'Zip'",
    .string "[Info] Resolved build order for 3 modules"])]

/-- What is said of the broken tree. -/
def brokenLines : Report := [
  ⟨.output, "[Info] Found 1 build files"⟩,
  ⟨.error, "A.build(1,7): [Error] Expected Identifier, got EndOfFile"⟩]

/-- The document of the broken tree. -/
def brokenDocument : Json := .object [
  ("ok", .bool false),
  ("order", .array []),
  ("modules", .object []),
  ("diagnostics", .array [
    .string "[Info] Found 1 build files",
    .string "A.build(1,7): [Error] Expected Identifier, got EndOfFile"])]

/-- A run that succeeds, with a repeated dependency and an unknown one, and a run with an error. -/
theorem Invocation.commands_agree_workshop :
    (run ⟨false, .order ["app", "lib"] none .text⟩ workshop = (workshop, .ok ⟨workshopLines ++ [
        ⟨.output, "\nBUILD ORDER"⟩, ⟨.output, "-----------"⟩,
        ⟨.output, "Net"⟩, ⟨.output, "Zip"⟩, ⟨.output, "App"⟩], 0⟩) ∧
      (∃ text, run ⟨false, .order ["app", "lib"] none .json⟩ workshop =
          (workshop, .ok ⟨[⟨.output, text⟩], 0⟩) ∧
        ∀ v, Json.Denotes text v ↔ v = workshopDocument) ∧
      run ⟨false, .check ["app", "lib"] none⟩ workshop = (workshop, .ok ⟨workshopLines ++ [
        ⟨.output, "\nOK: 2 module(s), 0 error(s), 1 warning(s)"⟩], 0⟩) ∧
      run ⟨false, .deps "App" ["app", "lib"] none⟩ workshop = (workshop, .ok ⟨workshopLines ++ [
        ⟨.output, "\nApp"⟩, ⟨.output, "---"⟩,
        ⟨.output, "Depends on: Net, Zip, Net"⟩, ⟨.output, "Needed by: (none)"⟩], 0⟩) ∧
      run ⟨false, .deps "Net" ["app", "lib"] none⟩ workshop = (workshop, .ok ⟨workshopLines ++ [
        ⟨.output, "\nNet"⟩, ⟨.output, "---"⟩,
        ⟨.output, "Depends on: (none)"⟩, ⟨.output, "Needed by: App, App"⟩], 0⟩) ∧
      ∃ o, run ⟨false, .deps "Tool" ["app", "lib"] none⟩ workshop = (workshop, .ok o) ∧
        o.exitCode ≠ 0) ∧
    run ⟨false, .order ["."] none .text⟩ broken = (broken, .ok ⟨brokenLines, 1⟩) ∧
      (∃ text, run ⟨false, .order ["."] none .json⟩ broken = (broken, .ok ⟨[⟨.output, text⟩], 1⟩) ∧
        ∀ v, Json.Denotes text v ↔ v = brokenDocument) ∧
      run ⟨false, .check ["."] none⟩ broken = (broken, .ok ⟨brokenLines ++ [
        ⟨.output, "\nFAILED: 0 module(s), 1 error(s), 0 warning(s)"⟩], 1⟩) ∧
      ∀ name, ∃ o, run ⟨false, .deps name ["."] none⟩ broken = (broken, .ok o) ∧
        o.exitCode ≠ 0 := by
  constructor
  · have h := commands_agree workshop false ["app", "lib"] none
    rw [resolveAll_workshop] at h
    obtain ⟨_, _, ⟨text, code⟩, ⟨json, jsonCode⟩, ⟨check, checkCode⟩, deps, -, -, htext, hjson,
      hcheck, hdeps, hagree⟩ := h
    obtain rfl : code = 0 := hagree.text_code.trans (if_pos (by decide))
    obtain rfl : jsonCode = 0 := hagree.json_code
    obtain rfl : checkCode = 0 := hagree.check_code
    obtain ⟨_, ⟨⟩, rfl, document, rfl, hdocument⟩ := hagree.success rfl
    obtain ⟨modules, _, _, -, hmodules, -, rfl, rfl, hfigures⟩ := hagree.figures
    obtain rfl : modules = 2 := hmodules _ rfl
    obtain rfl : check = workshopLines ++ [
      ⟨.output, "\nOK: 2 module(s), 0 error(s), 1 warning(s)"⟩] := hfigures
    have happ : workshopModules.declared "App" = ["Net", "Zip", "Net"] ∧
        workshopModules.graph.dependentsOf "App" = [] := by decide
    have hnet : workshopModules.declared "Net" = [] ∧
        workshopModules.graph.dependentsOf "Net" = ["App", "App"] := by decide
    have htool : ¬ (deps "Tool").exitCode = 0 := by
      rw [hagree.deps_code]
      rintro ⟨-, _, ⟨⟩, h⟩
      exact absurd h (by decide)
    have hdepsApp := hdeps "App"
    have hdepsNet := hdeps "Net"
    rw [hagree.deps_eq rfl rfl (.inl (by decide)), happ.1, happ.2] at hdepsApp
    rw [hagree.deps_eq rfl rfl (.inl (by decide)), hnet.1, hnet.2] at hdepsNet
    exact ⟨htext, ⟨document, hjson, hdocument⟩, hcheck, hdepsApp, hdepsNet, _, hdeps "Tool", htool⟩
  · have h := commands_agree broken false ["."] none
    rw [resolveAll_broken] at h
    obtain ⟨_, _, ⟨text, code⟩, ⟨json, jsonCode⟩, ⟨check, checkCode⟩, deps, -, -, htext, hjson,
      hcheck, hdeps, hagree⟩ := h
    obtain rfl : code = 1 := hagree.text_code.trans (if_neg (by decide))
    obtain rfl : jsonCode = 1 := hagree.json_code
    obtain rfl : checkCode = 1 := hagree.check_code
    obtain ⟨rfl, -, document, rfl, hdocument⟩ := hagree.failure Nat.one_ne_zero
    obtain ⟨modules, _, _, -, hmodules, -, rfl, rfl, hfigures⟩ := hagree.figures
    obtain rfl : modules = 0 := hmodules _ rfl
    obtain rfl : check = brokenLines ++ [
      ⟨.output, "\nFAILED: 0 module(s), 1 error(s), 0 warning(s)"⟩] := hfigures
    have hdeps_code : ∀ name, ¬ (deps name).exitCode = 0 := fun name h =>
      Nat.one_ne_zero ((hagree.deps_code name).1 h).1
    exact ⟨htext, ⟨document, hjson, hdocument⟩, hcheck,
      fun name => ⟨_, hdeps name, hdeps_code name⟩⟩

end

end BuildOrder
