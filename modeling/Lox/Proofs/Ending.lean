import Lox.Command.Run
import Lox.Proofs.Prompt.Dialogue
import Mathlib.Logic.Basic

/-!
# How a run ends

A run of the command ends in one of six ways (`Ends`), told by its paths, by what the storage and
the input hold, and by the errors of its source; each way fixes the exit status and all that is
written. Exactly one report comes out (`run_eq_iff_ends`), and the action has no say in its status
(`run_report`). Runs that refuse their paths are those that need nothing
(`needOf_eq_nothing_iff`).
-/

set_option autoImplicit false

namespace Lox

/-- The run of a request for no log, where none is set. -/
def quietRun (storage : Storage) (input : Prompt.Input) (action : Action) (paths : List String) :
    Report :=
  run ⟨storage, input, none⟩ ⟨0, action, paths⟩

/-! ## What a run meets -/

/-- There are several paths, or one that is none of a source. -/
def IsMisuse (paths : List String) : Prop :=
  2 ≤ paths.length ∨ ∃ path, paths = [path] ∧ isSourcePath path = false

/-- The file at a path cannot be read as text, and for which reason. -/
inductive IsUnreadable (storage : Storage) (path : String) : String → Prop where
  | noBytes {fault : AccessFault} (answer : storage path = .error fault) :
      IsUnreadable storage path fault.message
  | noText {bytes : List UInt8} (answer : storage path = .ok bytes)
      (malformed : decodeUtf8? bytes = none) :
      IsUnreadable storage path "stream did not contain valid UTF-8"

/-- A run works on this source: the text of its one file, or what was typed. -/
inductive IsSource (storage : Storage) (input : Prompt.Input) : List String → String → Prop where
  | file {path source : String} {bytes : List UInt8} (gate : isSourcePath path = true)
      (answer : storage path = .ok bytes) (text : decodeUtf8? bytes = some source) :
      IsSource storage input [path] source
  | typed {source : String} (read : (Prompt.dialogue input .endless).1 = .ok source) :
      IsSource storage input [] source

/-- The prompts of a run. A run with a path has none. -/
def promptsOf (input : Prompt.Input) (paths : List String) : String :=
  if paths = [] then (Prompt.dialogue input .endless).2.text else ""

/-- How a run ends that is asked for no log. -/
inductive Ends (storage : Storage) (input : Prompt.Input) (action : Action) (paths : List String) :
    Report → Prop where
  | misuse (misuse : IsMisuse paths) :
      Ends storage input action paths ⟨64, "", "", "Usage: lox [filename].lox\n"⟩
  | unreadable {path reason : String} (sole : paths = [path]) (gate : isSourcePath path = true)
      (unreadable : IsUnreadable storage path reason) :
      Ends storage input action paths
        ⟨66, "", "", "Error reading " ++ path ++ ": " ++ reason ++ "\n"⟩
  | notTyped {fault : Prompt.Fault} (noPath : paths = [])
      (read : (Prompt.dialogue input .endless).1 = .error fault) :
      Ends storage input action paths
        ⟨74, promptsOf input paths, "", "Error reading input: " ++ fault.message ++ "\n"⟩
  | faulty {source : String} (isSource : IsSource storage input paths source)
      (errors : (scan source).errors ≠ []) :
      Ends storage input action paths
        ⟨65, promptsOf input paths, "", String.join ((scan source).errors.map fun d =>
          "[line " ++ toString d.line ++ "] Error: " ++ d.message ++ "\n")⟩
  | listed {source : String} {format : Format} (isSource : IsSource storage input paths source)
      (noErrors : (scan source).errors = []) (asked : action = .tokens format) :
      Ends storage input action paths
        ⟨0, promptsOf input paths, listing format (scan source).tokens, ""⟩
  | checked {source : String} (isSource : IsSource storage input paths source)
      (noErrors : (scan source).errors = []) (asked : action = .check) :
      Ends storage input action paths
        ⟨0, promptsOf input paths, "", "OK: " ++ paths.head?.getD "<stdin>" ++ "\n"⟩

/-! ## Runs without a log -/

/-- The filter of a run that is asked for no log. -/
def quietFilter : LogFilter := .ofLevel .warn

theorem emit_quietFilter {record : LogRecord} (h : record.level = .debug ∨ record.level = .trace) :
    quietFilter.emit record = [] := by
  have hlevel : record.level.isWithin .warn = false := by
    rcases h with h | h <;> rw [h] <;> rfl
  rw [LogFilter.emit, quietFilter, LogFilter.admits_ofLevel, hlevel]
  rfl

/-- A diagnostic of a scan has no location. -/
theorem consoleLine_of_diagnostic? {e : Event} {d : Diagnostic} (h : e.diagnostic? = some d) :
    d.consoleLine = "[line " ++ toString d.line ++ "] Error: " ++ d.message ++ "\n" := by
  cases e with
  | token t => exact absurd h (by simp [Event.diagnostic?])
  | fault start cause =>
    obtain rfl := Option.some.inj h
    have hplace : "] Error" ++ "" ++ ": " = "] Error: " := rfl
    simp only [Diagnostic.consoleLine, Diagnostic.display, Diagnostic.onLine, ← hplace,
      String.append_assoc]

/-- Of a scan that is not logged, the errors are all that is noted. -/
theorem notes_quietFilter (s : Scan) : s.notes quietFilter = s.errors.map .error := by
  have hevent : ∀ e : Event, e.notes quietFilter = (e.diagnostic?.map Note.error).toList := by
    intro e
    rw [Event.notes, emit_quietFilter (by cases e <;> simp [Event.logRecord]), List.nil_append]
  have hsummary : quietFilter.emit s.summary = [] := emit_quietFilter (.inl rfl)
  rw [Scan.notes, hsummary, List.append_nil, Scan.errors, List.map_filterMap,
    List.filterMap_eq_flatMap_toList]
  exact congrArg s.events.flatMap (funext hevent)

theorem lines_notes_quietFilter (s : Scan) :
    Note.lines (s.notes quietFilter) = String.join (s.errors.map fun d =>
      "[line " ++ toString d.line ++ "] Error: " ++ d.message ++ "\n") := by
  rw [notes_quietFilter, Note.lines, List.map_map]
  refine congrArg String.join (List.map_congr_left fun d hd => ?_)
  obtain ⟨e, -, he⟩ := List.mem_filterMap.1 hd
  exact consoleLine_of_diagnostic? he

section

variable {storage : Storage} {input : Prompt.Input} {action : Action} {paths : List String}

/-- A run whose paths are in order goes through its two parts. -/
theorem run_of_solePath {path : Option String} (h : solePath paths = .ok path) :
    quietRun storage input action paths
      = finish quietFilter action path (obtain quietFilter ⟨storage, input, none⟩ path) := by
  unfold quietRun run
  simp only [h]
  exact congrArg (fun messages => Report.mk _ _ _ messages) String.empty_append

theorem obtain_file (path : String) : obtain quietFilter ⟨storage, input, none⟩ (some path)
    = ⟨fileSource storage path, "", []⟩ := by
  show Obtained.mk _ _ _ = _
  rw [emit_quietFilter (.inl rfl), ite_self]

/-- What is typed is the source, and a prompt that fails is the failure of the run. -/
theorem obtain_prompt : obtain quietFilter ⟨storage, input, none⟩ none
    = ⟨(Prompt.dialogue input .endless).1.mapError fun fault => .prompt fault.message,
        (Prompt.dialogue input .endless).2.text, []⟩ := by
  show Obtained.mk (promptSource input .endless).1 (promptSource input .endless).2.text [] = _
  unfold promptSource
  split
  next hdialogue => rw [hdialogue]; rfl
  next hdialogue => rw [hdialogue]; rfl

/-- A run without a source says why, and no more. -/
theorem finish_of_error {path : Option String} {failure : Failure} {prompts : String} :
    finish quietFilter action path ⟨.error failure, prompts, []⟩
      = ⟨failure.exitStatus, prompts, "", failure.messages⟩ := by
  show Report.mk _ _ _ (Note.lines [] ++ _) = _
  rw [Note.lines_nil, String.empty_append]

/-- The one path of a run, if it is in order, and the source that the run works on. -/
theorem IsSource.exists_obtain {source : String} (h : IsSource storage input paths source) :
    ∃ path, solePath paths = .ok path ∧ paths = path.toList ∧
      obtain quietFilter ⟨storage, input, none⟩ path
        = ⟨.ok source, promptsOf input paths, []⟩ := by
  cases h with
  | @file path source bytes gate answer text =>
    refine ⟨some path, rfl, rfl, ?_⟩
    have hsource : fileSource storage path = .ok source := by
      simp [fileSource, gate, answer, text]
    rw [obtain_file, hsource]
    rfl
  | typed read =>
    refine ⟨none, rfl, rfl, ?_⟩
    rw [obtain_prompt, read]
    rfl

/-! ## Each way to end -/

theorem solePath_of_two_le (h : 2 ≤ paths.length) : solePath paths = .error .usage := by
  match paths, h with
  | _ :: _ :: _, _ => rfl

theorem IsMisuse.run_eq (h : IsMisuse paths) :
    quietRun storage input action paths
      = ⟨64, "", "", "Usage: lox [filename].lox\n"⟩ := by
  rcases h with h | ⟨path, rfl, h⟩
  · unfold quietRun run
    simp only [solePath_of_two_le h]
    rfl
  · have hsource : fileSource storage path = .error .usage := by simp [fileSource, h]
    rw [run_of_solePath rfl, obtain_file, hsource, finish_of_error]
    rfl

theorem run_eq_of_unreadable {path reason : String} (gate : isSourcePath path = true)
    (h : IsUnreadable storage path reason) :
    quietRun storage input action [path]
      = ⟨66, "", "", "Error reading " ++ path ++ ": " ++ reason ++ "\n"⟩ := by
  have hsource : fileSource storage path = .error (.unreadable path reason) := by
    cases h with
    | noBytes answer => simp [fileSource, gate, answer]
    | noText answer malformed => simp [fileSource, gate, answer, malformed, notUtf8Message]
  rw [run_of_solePath rfl, obtain_file, hsource, finish_of_error]
  rfl

theorem run_eq_of_notTyped {fault : Prompt.Fault}
    (h : (Prompt.dialogue input .endless).1 = .error fault) :
    quietRun storage input action [] = ⟨74, (Prompt.dialogue input .endless).2.text, "",
      "Error reading input: " ++ fault.message ++ "\n"⟩ := by
  rw [run_of_solePath rfl, obtain_prompt, h]
  exact finish_of_error

theorem IsSource.run_eq_of_errors {source : String} (h : IsSource storage input paths source)
    (errors : (scan source).errors ≠ []) :
    quietRun storage input action paths = ⟨65, promptsOf input paths, "",
      String.join ((scan source).errors.map fun d =>
        "[line " ++ toString d.line ++ "] Error: " ++ d.message ++ "\n")⟩ := by
  obtain ⟨path, hpath, -, hobtain⟩ := h.exists_obtain
  have hchecked : (scan source).checked = .error (.lexical (scan source).errors.length) := by
    simp [Scan.checked, errors]
  rw [run_of_solePath hpath, hobtain, finish]
  simp only [hchecked, List.nil_append, lines_notes_quietFilter]
  exact congrArg (fun messages => Report.mk _ _ _ messages) String.append_empty

theorem IsSource.run_eq_of_noErrors {source : String} (h : IsSource storage input paths source)
    (noErrors : (scan source).errors = []) :
    ∃ path, paths = path.toList ∧ ∀ action, quietRun storage input action paths
      = ⟨0, promptsOf input paths, (action.perform quietFilter path (scan source).tokens).1,
          (action.perform quietFilter path (scan source).tokens).2⟩ := by
  obtain ⟨path, hpath, hpaths, hobtain⟩ := h.exists_obtain
  have hchecked : (scan source).checked = .ok (scan source).tokens := by
    simp [Scan.checked, noErrors]
  refine ⟨path, hpaths, fun action => ?_⟩
  rw [run_of_solePath hpath, hobtain, finish]
  simp only [hchecked, List.nil_append, lines_notes_quietFilter, noErrors, List.map_nil,
    String.join_nil, String.empty_append]

theorem perform_check (path : Option String) (tokens : List Token) :
    Action.check.perform quietFilter path tokens = ("", "OK: " ++ sourceName path ++ "\n") := by
  rw [Action.perform, emit_quietFilter (.inl rfl), Note.lines_nil, String.empty_append]

theorem Ends.run_eq {report : Report} (h : Ends storage input action paths report) :
    quietRun storage input action paths = report := by
  cases h with
  | misuse misuse => exact misuse.run_eq
  | unreadable sole gate unreadable =>
    rw [sole]
    exact run_eq_of_unreadable gate unreadable
  | notTyped noPath read =>
    rw [noPath]
    exact run_eq_of_notTyped read
  | faulty isSource errors => exact isSource.run_eq_of_errors errors
  | listed isSource noErrors asked =>
    obtain ⟨path, -, hrun⟩ := isSource.run_eq_of_noErrors noErrors
    rw [hrun action, asked]
    rfl
  | checked isSource noErrors asked =>
    obtain ⟨path, rfl, hrun⟩ := isSource.run_eq_of_noErrors noErrors
    rw [hrun action, asked, perform_check, Option.head?_toList]
    rfl

variable (storage input action paths)

/-- The source of a run, or the reason why it has none. -/
theorem isMisuse_or_exists : IsMisuse paths ∨
    (∃ path reason, paths = [path] ∧ isSourcePath path = true ∧
      IsUnreadable storage path reason) ∨
    (∃ fault, paths = [] ∧ (Prompt.dialogue input .endless).1 = .error fault) ∨
    ∃ source, IsSource storage input paths source := by
  match paths with
  | [] =>
    cases read : (Prompt.dialogue input .endless).1 with
    | ok source => exact .inr (.inr (.inr ⟨source, .typed read⟩))
    | error fault => exact .inr (.inr (.inl ⟨fault, rfl, rfl⟩))
  | [path] =>
    cases gate : isSourcePath path with
    | false => exact .inl (.inr ⟨path, rfl, gate⟩)
    | true =>
      cases answer : storage path with
      | error fault => exact .inr (.inl ⟨path, _, rfl, gate, .noBytes answer⟩)
      | ok bytes =>
        cases text : decodeUtf8? bytes with
        | none => exact .inr (.inl ⟨path, _, rfl, gate, .noText answer text⟩)
        | some source => exact .inr (.inr (.inr ⟨source, .file gate answer text⟩))
  | _ :: _ :: rest => exact .inl (.inl (Nat.le_add_left 2 rest.length))

theorem exists_ends : ∃ report, Ends storage input action paths report := by
  rcases isMisuse_or_exists storage input paths with
    h | ⟨path, reason, sole, gate, h⟩ | ⟨fault, noPath, read⟩ | ⟨source, h⟩
  · exact ⟨_, .misuse h⟩
  · exact ⟨_, .unreadable sole gate h⟩
  · exact ⟨_, .notTyped noPath read⟩
  · by_cases noErrors : (scan source).errors = []
    · cases asked : action with
      | tokens format => exact ⟨_, .listed h noErrors rfl⟩
      | check => exact ⟨_, .checked h noErrors rfl⟩
    · exact ⟨_, .faulty h noErrors⟩

/-- The report of a run is the one that the way of its end fixes. -/
theorem run_eq_iff_ends (report : Report) :
    quietRun storage input action paths = report ↔
      Ends storage input action paths report := by
  constructor
  · rintro rfl
    obtain ⟨report, h⟩ := exists_ends storage input action paths
    rwa [h.run_eq]
  · exact Ends.run_eq

/-! ## The exit status -/

/-- The status goes with what the run met, and not with its action. -/
theorem exitStatus_cases :
    IsMisuse paths ∧ (∀ action,
      (quietRun storage input action paths).exitStatus = 64) ∨
    (∃ path reason, paths = [path] ∧ isSourcePath path = true ∧
      IsUnreadable storage path reason) ∧ (∀ action,
      (quietRun storage input action paths).exitStatus = 66) ∨
    (∃ fault, paths = [] ∧ (Prompt.dialogue input .endless).1 = .error fault) ∧ (∀ action,
      (quietRun storage input action paths).exitStatus = 74) ∨
    (∃ source, IsSource storage input paths source ∧ (scan source).errors ≠ []) ∧ (∀ action,
      (quietRun storage input action paths).exitStatus = 65) ∨
    (∃ source, IsSource storage input paths source ∧ (scan source).errors = []) ∧ (∀ action,
      (quietRun storage input action paths).exitStatus = 0) := by
  rcases isMisuse_or_exists storage input paths with
    h | ⟨path, reason, rfl, gate, h⟩ | ⟨fault, rfl, read⟩ | ⟨source, h⟩
  · exact .inl ⟨h, fun action => by rw [h.run_eq]⟩
  · exact .inr (.inl ⟨⟨path, reason, rfl, gate, h⟩,
      fun action => by rw [run_eq_of_unreadable gate h]⟩)
  · exact .inr (.inr (.inl ⟨⟨fault, rfl, read⟩, fun action => by rw [run_eq_of_notTyped read]⟩))
  · by_cases errors : (scan source).errors = []
    · refine .inr (.inr (.inr (.inr ⟨⟨source, h, errors⟩, fun action => ?_⟩)))
      obtain ⟨path, -, hrun⟩ := h.run_eq_of_noErrors errors
      rw [hrun action]
    · exact .inr (.inr (.inr (.inl ⟨⟨source, h, errors⟩,
        fun action => by rw [h.run_eq_of_errors errors]⟩)))

/-- Each status tells what the run met. -/
theorem exitStatus_eq_iff :
    ((quietRun storage input action paths).exitStatus = 64 ↔ IsMisuse paths) ∧
    ((quietRun storage input action paths).exitStatus = 66 ↔ ∃ path reason, paths = [path] ∧
      isSourcePath path = true ∧ IsUnreadable storage path reason) ∧
    ((quietRun storage input action paths).exitStatus = 74 ↔ ∃ fault, paths = [] ∧
      (Prompt.dialogue input .endless).1 = .error fault) ∧
    ((quietRun storage input action paths).exitStatus = 65 ↔ ∃ source,
      IsSource storage input paths source ∧ (scan source).errors ≠ []) ∧
    ((quietRun storage input action paths).exitStatus = 0 ↔ ∃ source,
      IsSource storage input paths source ∧ (scan source).errors = []) := by
  -- what the run met gives the status, and no two of them give the same
  have hcases := exitStatus_cases storage input paths
  refine ⟨⟨fun hstatus => ?_, ?_⟩, ⟨fun hstatus => ?_, ?_⟩, ⟨fun hstatus => ?_, ?_⟩,
    ⟨fun hstatus => ?_, ?_⟩, ⟨fun hstatus => ?_, ?_⟩⟩
  case refine_2 => exact fun h => by rw [h.run_eq]
  case refine_4 =>
    rintro ⟨path, reason, rfl, gate, h⟩
    rw [run_eq_of_unreadable gate h]
  case refine_6 =>
    rintro ⟨fault, rfl, read⟩
    rw [run_eq_of_notTyped read]
  case refine_8 =>
    rintro ⟨source, h, errors⟩
    rw [h.run_eq_of_errors errors]
  case refine_10 =>
    rintro ⟨source, h, noErrors⟩
    obtain ⟨path, -, hrun⟩ := h.run_eq_of_noErrors noErrors
    rw [hrun action]
  all_goals
    rcases hcases with ⟨h, hs⟩ | ⟨h, hs⟩ | ⟨h, hs⟩ | ⟨h, hs⟩ | ⟨h, hs⟩ <;>
      first | exact h | exact absurd ((hs action).symm.trans hstatus) (by decide)

end

/-! ## What a run needs -/

/-- A run needs nothing if and only if it refuses its paths. -/
theorem needOf_eq_nothing_iff {paths : List String} : needOf paths = .nothing ↔ IsMisuse paths := by
  constructor
  · intro h
    match paths with
    | [] => contradiction
    | [path] =>
      refine .inr ⟨path, rfl, ?_⟩
      rw [Bool.eq_false_iff]
      intro gate
      rw [needOf_singleton, if_pos gate] at h
      contradiction
    | _ :: _ :: rest => exact .inl (Nat.le_add_left 2 rest.length)
  · rintro (h | ⟨path, rfl, gate⟩)
    · rw [needOf, solePath_of_two_le h]
    · simp [needOf_singleton, gate]

/-- **How a run ends is told by what it meets.** Its report is the one that the way of its end
fixes. The status is 64 for paths that are refused, 66 for a file that is no text, 74 for input that
fails or is no text, 65 for a source with errors, and else 0, whatever is done with the source. A
run that refuses its paths depends on no file and no input; only such runs need neither, and no run
looks at more than it needs. -/
theorem run_report (storage : Storage) (input : Prompt.Input) (action : Action)
    (paths : List String) :
    (∀ report, quietRun storage input action paths = report ↔
      Ends storage input action paths report) ∧
    ((quietRun storage input action paths).exitStatus = 64 ↔ IsMisuse paths) ∧
    ((quietRun storage input action paths).exitStatus = 66 ↔ ∃ path reason, paths = [path] ∧
      isSourcePath path = true ∧ IsUnreadable storage path reason) ∧
    ((quietRun storage input action paths).exitStatus = 74 ↔ ∃ fault, paths = [] ∧
      (Prompt.dialogue input .endless).1 = .error fault) ∧
    ((quietRun storage input action paths).exitStatus = 65 ↔ ∃ source,
      IsSource storage input paths source ∧ (scan source).errors ≠ []) ∧
    ((quietRun storage input action paths).exitStatus = 0 ↔ ∃ source,
      IsSource storage input paths source ∧ (scan source).errors = []) ∧
    (∀ other, (quietRun storage input other paths).exitStatus
      = (quietRun storage input action paths).exitStatus) ∧
    (IsMisuse paths → ∀ storage' input', quietRun storage' input' action paths
      = quietRun storage input action paths) ∧
    (needOf paths = .nothing ↔ IsMisuse paths) ∧
    run (Surroundings.seen ⟨storage, input, none⟩ (needOf paths)) ⟨0, action, paths⟩
      = quietRun storage input action paths := by
  obtain ⟨h64, h66, h74, h65, h0⟩ := exitStatus_eq_iff storage input action paths
  refine ⟨run_eq_iff_ends storage input action paths, h64, h66, h74, h65, h0, fun other => ?_,
    fun h storage' input' => ?_, needOf_eq_nothing_iff, run_seen _ _⟩
  · rcases exitStatus_cases storage input paths with
      ⟨-, hs⟩ | ⟨-, hs⟩ | ⟨-, hs⟩ | ⟨-, hs⟩ | ⟨-, hs⟩ <;> rw [hs other, hs action]
  · rw [h.run_eq, h.run_eq]

/-- A run whose input fails behind the lines that it keeps says so, and has written a prompt for the
line that is missing. -/
theorem run_eq_of_brokenInput {storage : Storage} {input : Prompt.Input} {action : Action}
    {typed : List (List UInt8)} {texts : List (List Char)} {reason : String}
    (h : Prompt.IsDivided input typed texts []) (failure : input.failure = some reason) :
    quietRun storage input action [] = ⟨74, Prompt.prompts (typed.length + 1), "",
      "Error reading input: " ++ reason ++ "\n"⟩ := by
  have htakes : Tape.endless.Takes (typed.length + 1) := fun _ _ => rfl
  have hread := Prompt.dialogue_eq_brokenInput_iff.2 ⟨failure, typed, texts, h, htakes⟩
  have htext : (Prompt.dialogue input .endless).2.text = Prompt.prompts (typed.length + 1) := by
    rw [Prompt.dialogue_eq h, (Prompt.afterPrompts_of_takes _ htakes).2]
    exact String.empty_append
  rw [run_eq_of_notTyped hread, htext]
  rfl

/-- One line is kept; the next is begun when reading fails. -/
example : quietRun .empty ⟨encodeUtf8 "var a\n= 1", some "Is a directory (os error 21)"⟩ .check []
    = ⟨74, "> > ", "", "Error reading input: Is a directory (os error 21)\n"⟩ := by
  decide +kernel

end Lox
