import Lox.Command.Source
import Lox.Proofs.Machine.Safety
import Mathlib.Data.List.DropRight

/-!
# What reporters are told

A scan tells every reporter the same, whatever it is, whatever it holds and however it is passed
(`scanInto_eq`), and a machine that tells it in the middle of the scan ends with the same
(`Machine.exists_stopped`). So whatever is asked of a reporter can be read as a list of diagnostics
(`ReporterCall.perform_eq`): a `Diagnostics` holds those since it was last emptied, a `Console` has
counted all of them and has written those that its tape took (`reporters_agree`).
-/

set_option autoImplicit false

namespace Lox

/-! ## Ways to pass a reporter -/

/-- A reporter that hands everything on to the one that it refers to. -/
structure ReporterRef (ρ : Type) where
  target : ρ

instance {ρ : Type} [Reporter ρ] : Reporter (ReporterRef ρ) :=
  ⟨fun r d => ⟨Reporter.report r.target d⟩⟩

/-- A reporter of which only this is known: what it holds, and what it does with a diagnostic. -/
structure ReporterObject (σ : Type) where
  held : σ
  tell : σ → Diagnostic → σ

instance {σ : Type} : Reporter (ReporterObject σ) :=
  ⟨fun r d => { r with held := r.tell r.held d }⟩

/-- Any reporter as one of which nothing else is known. -/
def ReporterObject.of {ρ : Type} [Reporter ρ] (r : ρ) : ReporterObject ρ := ⟨r, Reporter.report⟩

section

variable {ρ : Type} [Reporter ρ]

/-- A reporter that hands on what it is told ends as one that was told itself. -/
theorem foldl_report_of_hands_on {σ : Type} [Reporter σ] (f : ρ → σ)
    (h : ∀ r d, Reporter.report (f r) d = f (Reporter.report r d)) (r : ρ)
    (ds : List Diagnostic) :
    ds.foldl Reporter.report (f r) = f (ds.foldl Reporter.report r) :=
  List.foldl_hom f h

/-- A scan gives the tokens, and tells a reporter of the errors. -/
theorem scanInto_eq (r : ρ) (source : String) :
    scanInto r source = ((scan source).tokens, (scan source).errors.foldl Reporter.report r) :=
  Prod.ext (scanInto_fst r source) (scanInto_snd r source)

/-- A reporter that is told of every error as soon as it is found ends as one that is told of all
errors after the scan. -/
theorem Machine.exists_stopped {source : String} (short : IsShort source.toList) (r : ρ) :
    ∃ n m, steps source.toList n (initial r) = .ok m ∧ m.phase = .stopped ∧
      (m.tokens, m.reporter) = scanInto r source := by
  obtain ⟨n, m, hsteps, hfinished⟩ := exists_finished short r
  obtain ⟨htokens, -, hreporter, -⟩ := findings_eq_iff.1 hfinished.found
  exact ⟨n, m, hsteps, hfinished.phase_eq, Prod.ext htokens hreporter⟩

end

/-! ## What is asked of a reporter -/

/-- What any reporter can be asked to do. -/
inductive ReporterCall where
  | report (line : Nat) (location message : String)
  | error (line : Nat) (message : String)
  /-- Scanning a source with it. -/
  | scan (source : String)
  deriving DecidableEq, Repr

namespace ReporterCall

def perform {ρ : Type} [Reporter ρ] (r : ρ) : ReporterCall → ρ
  | report line location message => Reporter.report r ⟨line, location, message⟩
  | error line message => Reporter.report r (.onLine line message)
  | scan source => (scanInto r source).2

/-- The diagnostics of a call. Those of a scan are what is kept if nothing else is. -/
def diagnostics : ReporterCall → List Diagnostic
  | report line location message => [⟨line, location, message⟩]
  | error line message => [⟨line, "", message⟩]
  | scan source => (scanInto Diagnostics.empty source).2.toList

end ReporterCall

/-! ## Keeping diagnostics -/

theorem Diagnostics.toList_foldl_report (ds : Diagnostics) (more : List Diagnostic) :
    (more.foldl Reporter.report ds).toList = ds.toList ++ more := by
  induction more generalizing ds with
  | nil => exact (List.append_nil _).symm
  | cons d more ih =>
    rw [List.foldl_cons, ih]
    exact (congrArg (· ++ more) (ds.toList_report d)).trans (List.append_assoc _ _ _)

theorem toList_scanInto_empty (source : String) :
    (scanInto Diagnostics.empty source).2.toList = (scan source).errors := by
  rw [scanInto_snd, Diagnostics.toList_foldl_report]
  rfl

/-- To ask something of a reporter is to tell it of diagnostics. -/
theorem ReporterCall.perform_eq {ρ : Type} [Reporter ρ] (r : ρ) (call : ReporterCall) :
    call.perform r = call.diagnostics.foldl Reporter.report r := by
  cases call with
  | report line location message => rfl
  | error line message => rfl
  | scan source => rw [perform, diagnostics, scanInto_snd, toList_scanInto_empty]

/-- What is done with a `Diagnostics`. -/
inductive DiagnosticsStep where
  | ask (call : ReporterCall)
  /-- It is emptied. -/
  | clear
  deriving DecidableEq, Repr

def Diagnostics.step (ds : Diagnostics) : DiagnosticsStep → Diagnostics
  | .ask call => call.perform ds
  | .clear => .empty

def DiagnosticsStep.diagnostics : DiagnosticsStep → List Diagnostic
  | ask call => call.diagnostics
  | clear => []

theorem Diagnostics.toList_step (ds : Diagnostics) (step : DiagnosticsStep) :
    (ds.step step).toList
      = if step = .clear then [] else ds.toList ++ step.diagnostics := by
  cases step with
  | ask call =>
    rw [Diagnostics.step, call.perform_eq, Diagnostics.toList_foldl_report, if_neg (by simp)]
    rfl
  | clear => rfl

/-- What is held is what was reported since all was forgotten. -/
theorem Diagnostics.toList_foldl_step (ds : Diagnostics) (steps : List DiagnosticsStep) :
    (steps.foldl step ds).toList = (if .clear ∈ steps then [] else ds.toList)
      ++ (steps.rtakeWhile (· ≠ .clear)).flatMap DiagnosticsStep.diagnostics := by
  induction steps using List.reverseRecOn with
  | nil => exact (List.append_nil _).symm
  | append_singleton steps last ih =>
    rw [List.foldl_append, List.foldl_cons, List.foldl_nil, toList_step, List.rtakeWhile_concat]
    by_cases hlast : last = .clear
    · simp [hlast]
    · have hmem : .clear ∈ steps ++ [last] ↔ .clear ∈ steps := by simp [Ne.symm hlast]
      rw [if_neg hlast, ih, if_pos (decide_eq_true hlast), List.flatMap_append,
        List.flatMap_singleton, List.append_assoc, if_congr hmem rfl rfl]

/-! ## Writing diagnostics -/

/-- Whether a console's tape takes every text, or none. -/
def Console.IsWorking (c : Console) (works : Bool) : Prop :=
  ∀ n, (c.tape.refusal n).isNone = works

/-- What a diagnostic does to a console. -/
theorem Console.report_spec {c : Console} {works : Bool} (h : c.IsWorking works) (d : Diagnostic) :
    (c.report d).IsWorking works ∧ (c.report d).tape.text
      = c.tape.text ++ String.join (if works then [d.consoleLine] else []) := by
  have hworks := h c.tape.attempts
  unfold report Tape.write
  cases hrefusal : c.tape.refusal c.tape.attempts with
  | none =>
    obtain rfl : true = works := by rw [← hworks, hrefusal]; rfl
    exact ⟨h, by simp⟩
  | some reason =>
    obtain rfl : false = works := by rw [← hworks, hrefusal]; rfl
    exact ⟨h, by simp⟩

/-- A console counts what it is told, whatever becomes of the lines. -/
theorem Console.reported_foldl_report (c : Console) (ds : List Diagnostic) :
    (ds.foldl Reporter.report c).reported = c.reported + ds.length := by
  induction ds generalizing c with
  | nil => rfl
  | cons d ds ih =>
    rw [List.foldl_cons, ih, List.length_cons]
    show c.reported + 1 + ds.length = c.reported + (ds.length + 1)
    omega

/-- A console writes what it is told, if its tape works. -/
theorem Console.foldl_report_spec {c : Console} {works : Bool} (h : c.IsWorking works)
    (ds : List Diagnostic) :
    (ds.foldl Reporter.report c).IsWorking works ∧
      (ds.foldl Reporter.report c).tape.text
        = c.tape.text ++ String.join ((if works then ds else []).map Diagnostic.consoleLine) := by
  induction ds generalizing c with
  | nil => exact ⟨h, by simp⟩
  | cons d ds ih =>
    obtain ⟨hworks, htext⟩ := report_spec h d
    obtain ⟨hworks', htext'⟩ := ih hworks
    refine ⟨hworks', ?_⟩
    rw [List.foldl_cons]
    refine htext'.trans ?_
    rw [htext, String.append_assoc, ← String.join_append]
    cases works <;> rfl

/-- What is done with a `Console`. -/
inductive ConsoleStep where
  | ask (call : ReporterCall)
  /-- From now on the tape takes nothing. -/
  | breakTape (reason : String)
  /-- From now on the tape takes everything. -/
  | mendTape
  deriving DecidableEq, Repr

def Console.step (c : Console) : ConsoleStep → Console
  | .ask call => call.perform c
  | .breakTape reason => { c with tape := c.tape.broken reason }
  | .mendTape => { c with tape := c.tape.mended }

namespace ConsoleStep

def diagnostics : ConsoleStep → List Diagnostic
  | ask call => call.diagnostics
  | breakTape _ => []
  | mendTape => []

/-- The diagnostics that are reported while the tape works; whether it does so at first is given. -/
def written : Bool → List ConsoleStep → List Diagnostic
  | _, [] => []
  | works, ask call :: steps => (if works then call.diagnostics else []) ++ written works steps
  | _, breakTape _ :: steps => written false steps
  | _, mendTape :: steps => written true steps

end ConsoleStep

theorem Console.foldl_step_spec {c : Console} {works : Bool} (h : c.IsWorking works)
    (steps : List ConsoleStep) :
    (steps.foldl step c).reported
        = c.reported + (steps.flatMap ConsoleStep.diagnostics).length ∧
      (steps.foldl step c).tape.text = c.tape.text
        ++ String.join ((ConsoleStep.written works steps).map Diagnostic.consoleLine) := by
  induction steps generalizing c works with
  | nil => exact ⟨rfl, by simp [ConsoleStep.written]⟩
  | cons first steps ih =>
    rw [List.foldl_cons, List.flatMap_cons, List.length_append]
    cases first with
    | ask call =>
      have hreported := reported_foldl_report c call.diagnostics
      obtain ⟨hworks, htext⟩ := foldl_report_spec h call.diagnostics
      rw [← call.perform_eq] at hworks hreported htext
      obtain ⟨hreported', htext'⟩ := ih hworks
      refine ⟨?_, ?_⟩
      · rw [step, hreported', hreported, ConsoleStep.diagnostics, Nat.add_assoc]
      · rw [step, htext', htext, ConsoleStep.written, List.map_append, String.join_append,
          String.append_assoc]
    | breakTape reason =>
      have hworks : (c.step (.breakTape reason)).IsWorking false := fun _ => rfl
      obtain ⟨hreported, htext⟩ := ih hworks
      exact ⟨by rw [hreported]; simp [ConsoleStep.diagnostics, step], htext⟩
    | mendTape =>
      have hworks : (c.step .mendTape).IsWorking true := fun _ => rfl
      obtain ⟨hreported, htext⟩ := ih hworks
      exact ⟨by rw [hreported]; simp [ConsoleStep.diagnostics, step], htext⟩

/-! ## What a scan tells -/

/-- What is held is shown as what is written, without the last line feed. -/
theorem intercalate_display {ds : List Diagnostic} (h : ds ≠ []) :
    "\n".intercalate (ds.map Diagnostic.display) ++ "\n"
      = String.join (ds.map Diagnostic.consoleLine) := by
  induction ds with
  | nil => exact absurd rfl h
  | cons d ds ih =>
    cases ds with
    | nil => simp [Diagnostic.consoleLine]
    | cons e ds =>
      calc "\n".intercalate ((d :: e :: ds).map Diagnostic.display) ++ "\n"
          = d.consoleLine ++ ("\n".intercalate ((e :: ds).map Diagnostic.display) ++ "\n") := by
            rw [List.map_cons, List.map_cons, String.intercalate_cons_cons, String.append_assoc]
            rfl
        _ = d.consoleLine ++ String.join ((e :: ds).map Diagnostic.consoleLine) := by
            rw [ih (List.cons_ne_nil e ds)]
        _ = String.join ((d :: e :: ds).map Diagnostic.consoleLine) := String.join_cons.symm

theorem Diagnostics.hasErrors_eq_false_iff {ds : Diagnostics} :
    ds.hasErrors = false ↔ ds.toList = [] := by
  simp [hasErrors, isEmpty, size, toList]

/-- A source without errors has its tokens as a result, and any other its errors. -/
theorem tokenize_eq (source : String) :
    tokenize source = if (scan source).errors = [] then .ok (scan source).tokens
      else .error (scanInto Diagnostics.empty source).2 := by
  have herrors := toList_scanInto_empty source
  unfold tokenize
  by_cases hnone : (scan source).errors = []
  · have hquiet := Diagnostics.hasErrors_eq_false_iff.2 (herrors.trans hnone)
    rw [if_pos hnone, ← scanInto_fst Diagnostics.empty source]
    simp only [hquiet]
    rfl
  · have hloud : (scanInto Diagnostics.empty source).2.hasErrors = true := by
      by_contra hquiet
      rw [Bool.not_eq_true, Diagnostics.hasErrors_eq_false_iff, herrors] at hquiet
      exact hnone hquiet
    rw [if_neg hnone]
    simp only [hloud]
    rfl

/-- A `Diagnostics` is known by what it holds. -/
theorem Diagnostics.eq_iff {ds es : Diagnostics} : ds = es ↔ ds.toList = es.toList := by
  constructor
  · rintro rfl
    rfl
  · intro h
    cases ds
    cases es
    exact congrArg mk (Array.toList_inj.1 h)

theorem tokenize_eq_ok_iff {source : String} {tokens : List Token} :
    tokenize source = .ok tokens ↔ (scan source).errors = [] ∧ tokens = (scan source).tokens := by
  rw [tokenize_eq]
  by_cases hnone : (scan source).errors = []
  · rw [if_pos hnone, Except.ok.injEq]
    exact ⟨fun h => ⟨hnone, h.symm⟩, fun h => h.2.symm⟩
  · rw [if_neg hnone]
    exact ⟨fun h => absurd h (by simp), fun h => absurd h.1 hnone⟩

theorem tokenize_eq_error_iff {source : String} {found : Diagnostics} :
    tokenize source = .error found ↔
      (scan source).errors ≠ [] ∧ found.toList = (scan source).errors := by
  rw [tokenize_eq]
  by_cases hnone : (scan source).errors = []
  · rw [if_pos hnone]
    exact ⟨fun h => absurd h (by simp), fun h => absurd hnone h.1⟩
  · rw [if_neg hnone, Except.error.injEq, eq_comm, Diagnostics.eq_iff, toList_scanInto_empty]
    exact (and_iff_right hnone).symm

/-- The errors of a source are shown as a console writes them. -/
theorem display_of_tokenize_eq_error {source : String} {found : Diagnostics}
    (h : tokenize source = .error found) :
    found.display ++ "\n" = (scanInto (Console.onTape .endless) source).2.tape.text := by
  obtain ⟨hsome, hlist⟩ := tokenize_eq_error_iff.1 h
  have hworks : (Console.onTape .endless).IsWorking true := fun _ => rfl
  obtain ⟨-, htext⟩ := Console.foldl_report_spec hworks (scan source).errors
  rw [Diagnostics.display, hlist, intercalate_display hsome, scanInto_snd, htext]
  exact String.empty_append.symm

/-- The count of a console decides whether a scan fails, on whatever tape it writes. -/
theorem checked_eq_of_console (source : String) (tape : Tape) :
    (scan source).checked = if 0 < (scanInto (Console.onTape tape) source).2.reported then
        .error (.lexical (scanInto (Console.onTape tape) source).2.reported)
      else .ok (scan source).tokens := by
  have hcount : (scanInto (Console.onTape tape) source).2.reported
      = (scan source).errors.length := by
    rw [scanInto_snd, Console.reported_foldl_report]
    exact Nat.zero_add _
  rw [hcount, Scan.checked]
  cases (scan source).errors <;> simp

/-- **All reporters are told the same.** A scan gives the same tokens and tells of the same errors
in the same order, whatever the reporter is, whatever it holds, and whether it is passed itself, by
reference or as an object. A `Diagnostics` holds what was reported since it was last emptied. A
`Console` has counted all that was reported, and written a line for each diagnostic that was
reported while its tape worked. What a scan without errors is, and with how many errors it fails,
does not depend on the reporter. -/
theorem reporters_agree :
    (∀ (ρ : Type) [Reporter ρ] (r : ρ) (source : String),
      scanInto r source = ((scan source).tokens, (scan source).errors.foldl Reporter.report r) ∧
      scanInto (ReporterRef.mk r) source = ((scan source).tokens, ⟨(scanInto r source).2⟩) ∧
      scanInto (ReporterObject.of r) source
        = ((scan source).tokens, .of (scanInto r source).2) ∧
      (IsShort source.toList → ∃ n m,
        Machine.steps source.toList n (.initial r) = .ok m ∧ m.phase = .stopped ∧
          (m.tokens, m.reporter) = scanInto r source)) ∧
    (∀ (ds : Diagnostics) (steps : List DiagnosticsStep),
      (steps.foldl Diagnostics.step ds).toList = (if .clear ∈ steps then [] else ds.toList)
        ++ (steps.rtakeWhile (· ≠ .clear)).flatMap DiagnosticsStep.diagnostics) ∧
    (∀ (c : Console) (works : Bool), c.IsWorking works → ∀ steps : List ConsoleStep,
      (steps.foldl Console.step c).reported
          = c.reported + (steps.flatMap ConsoleStep.diagnostics).length ∧
        (steps.foldl Console.step c).tape.text = c.tape.text
          ++ String.join ((ConsoleStep.written works steps).map fun d =>
            "[line " ++ toString d.line ++ "] Error" ++ d.location ++ ": " ++ d.message
              ++ "\n")) ∧
    ∀ source : String,
      (∀ tokens, tokenize source = .ok tokens ↔
        (scan source).errors = [] ∧ tokens = (scan source).tokens) ∧
      (∀ found, tokenize source = .error found ↔
        (scan source).errors ≠ [] ∧ found.toList = (scan source).errors) ∧
      (∀ found, tokenize source = .error found →
        found.display ++ "\n" = (scanInto (Console.onTape .endless) source).2.tape.text) ∧
      ∀ tape, (scan source).checked =
        if 0 < (scanInto (Console.onTape tape) source).2.reported then
          .error (.lexical (scanInto (Console.onTape tape) source).2.reported)
        else .ok (scan source).tokens := by
  refine ⟨fun ρ _ r source => ⟨scanInto_eq r source, ?_, ?_, ?_⟩,
    Diagnostics.toList_foldl_step, fun c works h => Console.foldl_step_spec h, fun source => ?_⟩
  · rw [scanInto_eq, scanInto_snd, foldl_report_of_hands_on ReporterRef.mk fun _ _ => rfl]
  · rw [scanInto_eq, scanInto_snd, foldl_report_of_hands_on ReporterObject.of fun _ _ => rfl]
  · exact fun short => Machine.exists_stopped short r
  · exact ⟨fun _ => tokenize_eq_ok_iff, fun _ => tokenize_eq_error_iff,
      fun _ => display_of_tokenize_eq_error, checked_eq_of_console source⟩

end Lox
