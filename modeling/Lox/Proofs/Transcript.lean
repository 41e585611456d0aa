import Lox.Command.Run
import Lox.Proofs.Lines
import Lox.Proofs.Machine.Safety
import Lox.Proofs.Restart

/-!
# The log of a scan

What a scan logs can be told from its tokens and its errors, and says no less than they do
(`log_transcript`): one record for every token and every error, in the order in which they stand in
the source (`IsTranscript`), and a last one with three numbers. The records are made of the events,
so that an error stands among them where it stands among the tokens. A machine that writes tokens,
reports, records and the number of errors at different places writes the same. A run whose filter
has one level for all targets notes those of the records that are within the level
(`Scan.filterMap_record?_notes_ofLevel`).
-/

set_option autoImplicit false

namespace Lox

/-! ## Records -/

/-- The record of a token. -/
def Token.logRecord (t : Token) : LogRecord :=
  ⟨.trace, LogRecord.scanTarget, "line " ++ toString t.line ++ ": " ++ t.display⟩

/-- The record of an error. -/
def errorRecord (line : Nat) (message : String) : LogRecord :=
  ⟨.debug, LogRecord.scanTarget, "lexical error at line " ++ toString line ++ ": " ++ message⟩

/-- The record at the end of a scan. -/
def summaryRecord (tokens lines errors : Nat) : LogRecord :=
  ⟨.debug, LogRecord.scanTarget,
    "scanned " ++ toString tokens ++ " tokens over " ++ toString lines ++ " lines ("
      ++ toString errors ++ " errors)"⟩

/-- Records with the bytes where what they tell of begins: exactly those of the tokens `found` and
of the faults of the source, in order. -/
structure IsTranscript (source : List Char) (found : List Token) (errors : List Diagnostic)
    (entries : List (Nat × LogRecord)) : Prop where
  mem_iff : ∀ n r, (n, r) ∈ entries ↔
    (∃ t ∈ found, n = t.span.start ∧ r = t.logRecord) ∨
      ∃ cause, FaultAt source n cause ∧ r = errorRecord (lineAt source n) cause.message
  sorted : entries.Pairwise fun a b => a.1 < b.1
  traces : (entries.map Prod.snd).filter (·.level = .trace) = found.map Token.logRecord
  debugs : (entries.map Prod.snd).filter (·.level = .debug)
    = errors.map fun d => errorRecord d.line d.message
  /-- Before the record of an error stand those of the tokens that end where the faulty text begins
  or earlier. -/
  interleaved : ∀ earlier n r later, entries = earlier ++ (n, r) :: later → r.level = .debug →
    (earlier.map Prod.snd).filter (·.level = .trace)
      = (found.filter (·.span.stop ≤ n)).map Token.logRecord

/-! ## Events in order -/

/-- What is found begins behind what was found before, and behind the end of that if it was a
token. -/
theorem pairwise_events (s : List Char) :
    (scanFrom .start s).events.Pairwise fun e f =>
      e.offset < f.offset ∧ ∀ t, e = .token t → t.span.stop ≤ f.offset := by
  have hplaces := (pairwise_offset_placedFrom s).and (pairwise_placedFrom .start (pieces s))
  refine hplaces.filterMap _ ?_
  rintro ⟨q, x⟩ ⟨q', x'⟩ ⟨hlt, hle, -⟩ e he f hf
  rw [Piece.offset_of_eventAt? he, Piece.offset_of_eventAt? hf]
  refine ⟨hlt, ?_⟩
  rintro t rfl
  obtain ⟨kind, text, rfl, rfl⟩ := Piece.eventAt?_eq_token_iff.1 he
  exact hle

/-- The tokens of the events are those of the scan but for the last. -/
theorem filter_tokens (s : List Char) :
    (scanFrom .start s).tokens.filter (·.kind ≠ .eof)
      = (scanFrom .start s).events.filterMap Event.token? := by
  have hfound : ∀ t ∈ (scanFrom .start s).events.filterMap Event.token?, t.kind ≠ .eof := by
    intro t ht heof
    obtain ⟨e, he, htoken⟩ := List.mem_filterMap.1 ht
    obtain rfl := Event.token?_eq_some_iff.1 htoken
    obtain ⟨kind, _, text, _, _, hlex, _, rfl⟩ := exists_of_mem_events he
    obtain rfl : kind = .eof := heof
    cases hlex
  rw [Scan.tokens, List.filter_append, List.filter_eq_self.2 (by simpa using hfound)]
  exact List.append_nil _

theorem Piece.eventAt?_eq_fault_iff {p start : Position} {x : Piece} {cause : LexicalFault} :
    x.eventAt? p = some (.fault start cause) ↔ start = p ∧ x.fault? = some cause := by
  cases x <;> simp [eventAt?, fault?, eq_comm]

/-- The faults among the events are those of the split, each on the line of its first byte. -/
theorem fault_mem_events_iff {s : List Char} {start : Position} {cause : LexicalFault} :
    .fault start cause ∈ (scanFrom .start s).events ↔
      FaultAt s start.offset cause ∧ start.line = lineAt s start.offset := by
  rw [← mem_faultsOf_iff_faultAt, faultsOf, scanFrom, List.mem_filterMap, List.mem_filterMap]
  constructor
  · rintro ⟨⟨q, x⟩, hplace, hevent⟩
    obtain ⟨rfl, hfault⟩ := Piece.eventAt?_eq_fault_iff.1 hevent
    exact ⟨⟨(start, x), hplace, Option.map_eq_some_iff.2 ⟨cause, hfault, rfl⟩⟩,
      line_of_mem_placedFrom hplace⟩
  · rintro ⟨⟨⟨q, x⟩, hplace, hfault⟩, hline⟩
    obtain ⟨cause', hcause, heq⟩ := Option.map_eq_some_iff.1 hfault
    obtain ⟨hoffset, rfl⟩ := Prod.mk.inj heq
    have hstart : start = q := by
      have hline' := line_of_mem_placedFrom hplace
      rw [hoffset, ← hline] at hline'
      cases start
      cases q
      simp_all
    exact ⟨(q, x), hplace, Piece.eventAt?_eq_fault_iff.2 ⟨hstart, hcause⟩⟩

/-! ## Events as records -/

/-- The record of an event, with the byte where what it tells of begins. -/
def Event.entry (e : Event) : Nat × LogRecord :=
  (e.offset, e.logRecord)

theorem map_entry_snd (events : List Event) :
    (events.map Event.entry).map Prod.snd = events.map Event.logRecord := by
  rw [List.map_map]
  rfl

theorem filter_trace_map_logRecord (events : List Event) :
    (events.map Event.logRecord).filter (·.level = .trace)
      = (events.filterMap Event.token?).map Token.logRecord := by
  induction events with
  | nil => rfl
  | cons e events ih =>
    cases e with
    | token t => exact congrArg (t.logRecord :: ·) ih
    | fault start cause => exact ih

theorem filter_debug_map_logRecord (events : List Event) :
    (events.map Event.logRecord).filter (·.level = .debug)
      = (events.filterMap Event.diagnostic?).map fun d => errorRecord d.line d.message := by
  induction events with
  | nil => rfl
  | cons e events ih =>
    cases e with
    | token t => exact ih
    | fault start cause => exact congrArg (errorRecord start.line cause.message :: ·) ih

/-- Around a fault, the tokens before it are those that end where it begins or earlier. -/
theorem filter_token?_of_pairwise {earlier later : List Event} {start : Position}
    {cause : LexicalFault}
    (h : (earlier ++ .fault start cause :: later).Pairwise fun e f =>
      e.offset < f.offset ∧ ∀ t, e = .token t → t.span.stop ≤ f.offset)
    (hspans : ∀ t, .token t ∈ later → t.span.start ≤ t.span.stop) :
    ((earlier ++ .fault start cause :: later).filterMap Event.token?).filter
        (·.span.stop ≤ start.offset)
      = earlier.filterMap Event.token? := by
  obtain ⟨-, hlater, hbefore⟩ := List.pairwise_append.1 h
  have hbehind := (List.pairwise_cons.1 hlater).1
  have hearlier : ∀ t ∈ earlier.filterMap Event.token?, t.span.stop ≤ start.offset := by
    intro t ht
    obtain ⟨e, he, htoken⟩ := List.mem_filterMap.1 ht
    exact (hbefore e he _ List.mem_cons_self).2 t (Event.token?_eq_some_iff.1 htoken)
  have hnone : ∀ t ∈ later.filterMap Event.token?, ¬ t.span.stop ≤ start.offset := by
    intro t ht
    obtain ⟨e, he, htoken⟩ := List.mem_filterMap.1 ht
    obtain rfl := Event.token?_eq_some_iff.1 htoken
    have hlt : start.offset < t.span.start := (hbehind _ he).1
    have hspan := hspans t he
    omega
  have htokens : (earlier ++ .fault start cause :: later).filterMap Event.token?
      = earlier.filterMap Event.token? ++ later.filterMap Event.token? := by
    rw [List.filterMap_append]
    rfl
  rw [htokens, List.filter_append, List.filter_eq_self.2 (by simpa using hearlier),
    List.filter_eq_nil_iff.2 (by simpa using hnone), List.append_nil]

/-- The records of the events are a transcript. -/
theorem isTranscript_events (s : List Char) :
    IsTranscript s ((scanFrom .start s).events.filterMap Event.token?) (scanFrom .start s).errors
      ((scanFrom .start s).events.map Event.entry) where
  mem_iff n r := by
    rw [List.mem_map]
    constructor
    · rintro ⟨e, he, heq⟩
      obtain ⟨rfl, rfl⟩ := Prod.mk.inj heq
      cases e with
      | token t =>
        exact .inl ⟨t, List.mem_filterMap.2 ⟨_, he, rfl⟩, rfl, rfl⟩
      | fault start cause =>
        obtain ⟨hfault, hline⟩ := fault_mem_events_iff.1 he
        exact .inr ⟨cause, hfault, congrArg (errorRecord · cause.message) hline⟩
    · rintro (⟨t, ht, rfl, rfl⟩ | ⟨cause, hfault, rfl⟩)
      · obtain ⟨e, he, htoken⟩ := List.mem_filterMap.1 ht
        obtain rfl := Event.token?_eq_some_iff.1 htoken
        exact ⟨_, he, rfl⟩
      · exact ⟨.fault ⟨n, lineAt s n⟩ cause, fault_mem_events_iff.2 ⟨hfault, rfl⟩, rfl⟩
  sorted := List.pairwise_map.2 ((pairwise_events s).imp fun h => h.1)
  traces := by rw [map_entry_snd, filter_trace_map_logRecord]
  debugs := by rw [map_entry_snd, filter_debug_map_logRecord, Scan.errors]
  interleaved earlier n r later hentries hlevel := by
    obtain ⟨before, rest, hevents, rfl, hrest⟩ := List.map_eq_append_iff.1 hentries
    obtain ⟨e, behind, rfl, heq, rfl⟩ := List.map_eq_cons_iff.1 hrest
    obtain ⟨rfl, rfl⟩ := Prod.mk.inj heq
    cases e with
    | token t => exact absurd hlevel (by simp [Event.logRecord])
    | fault start cause =>
      have hpairwise := pairwise_events s
      have hspans : ∀ t, .token t ∈ behind → t.span.start ≤ t.span.stop := by
        intro t ht
        have hmem : .token t ∈ (scanFrom .start s).events := by simp [hevents, ht]
        exact (span_of_mem_eventsFrom hmem).2.1
      rw [hevents] at hpairwise ⊢
      rw [map_entry_snd, filter_trace_map_logRecord]
      exact congrArg _ (filter_token?_of_pairwise hpairwise hspans).symm

/-! ## Notes of a run -/

section

variable (filter : LogFilter)

theorem LogFilter.filterMap_record?_emit (record : LogRecord) :
    (filter.emit record).filterMap Note.record? = [record].filter filter.admits := by
  rw [emit, List.filter_cons, List.filter_nil]
  split <;> rfl

theorem LogFilter.filterMap_error?_emit (record : LogRecord) :
    (filter.emit record).filterMap Note.error? = [] := by
  rw [emit]
  split <;> rfl

theorem Event.filterMap_record?_notes (e : Event) :
    (e.notes filter).filterMap Note.record? = [e.logRecord].filter filter.admits := by
  have herror : (e.diagnostic?.map Note.error).toList.filterMap Note.record? = [] := by
    cases e.diagnostic? <;> rfl
  rw [notes, List.filterMap_append, herror, List.append_nil, filter.filterMap_record?_emit]

theorem Event.filterMap_error?_notes (e : Event) :
    (e.notes filter).filterMap Note.error? = e.diagnostic?.toList := by
  rw [notes, List.filterMap_append, filter.filterMap_error?_emit, List.nil_append]
  cases e.diagnostic? <;> rfl

namespace Scan

/-- The records among the notes of a scan are those of its log that the filter lets through. -/
theorem filterMap_record?_notes (s : Scan) :
    (s.notes filter).filterMap Note.record? = s.log.filter filter.admits := by
  rw [notes, log, List.filterMap_append, List.filter_append, List.filterMap_flatMap,
    filter.filterMap_record?_emit, List.map_eq_flatMap, List.filter_flatMap]
  simp only [Event.filterMap_record?_notes]

/-- The errors among the notes of a scan are all that it has, whatever the filter. -/
theorem filterMap_error?_notes (s : Scan) : (s.notes filter).filterMap Note.error? = s.errors := by
  rw [notes, errors, List.filterMap_append, List.filterMap_flatMap, filter.filterMap_error?_emit,
    List.append_nil, List.filterMap_eq_flatMap_toList]
  simp only [Event.filterMap_error?_notes]

/-- A filter with one level for all targets lets the records within the level through. -/
theorem filterMap_record?_notes_ofLevel (s : Scan) (threshold : LogLevel) :
    (s.notes (.ofLevel threshold)).filterMap Note.record? = s.logWithin threshold := by
  rw [filterMap_record?_notes, logWithin]
  exact List.filter_congr fun r _ => LogFilter.admits_ofLevel threshold r

end Scan

end

/-! ## Logs -/

theorem summary_scan (source : String) :
    (scan source).summary = summaryRecord (scan source).tokens.length
      (1 + source.toList.count '\n') (scan source).errors.length := rfl

theorem logWithin_trace (s : Scan) : s.logWithin .trace = s.log := by
  refine List.filter_eq_self.2 fun r _ => ?_
  cases hlevel : r.level <;> decide

/-- **The log is a transcript of the scan.** At the level `trace` the records are those of a
transcript of the tokens but for the last and of the errors, and one with the number of all tokens,
the number of lines and the number of errors. What a run notes whose filter has a threshold for all
targets are all errors, and of those records the ones within the threshold; none matters more than
`debug`. A machine that goes over the source, whatever it reports to, has logged the same
in the end, and has counted as many errors. -/
theorem log_transcript (source : String) :
    (∃ entries, IsTranscript source.toList ((scan source).tokens.filter (·.kind ≠ .eof))
        (scan source).errors entries ∧
      (scan source).logWithin .trace = entries.map Prod.snd
        ++ [summaryRecord (scan source).tokens.length (1 + source.toList.count '\n')
          (scan source).errors.length]) ∧
    (∀ threshold,
      ((scan source).notes (.ofLevel threshold)).filterMap Note.record?
        = (scan source).logWithin threshold ∧
      ((scan source).notes (.ofLevel threshold)).filterMap Note.error? = (scan source).errors ∧
      (scan source).logWithin threshold
        = ((scan source).logWithin .trace).filter (·.level.isWithin threshold)) ∧
    (∀ r ∈ (scan source).logWithin .trace, r.level = .trace ∨ r.level = .debug) ∧
    (IsShort source.toList → ∀ (ρ : Type) [Reporter ρ] (r : ρ), ∃ n m,
      Machine.steps source.toList n (.initial r) = .ok m ∧ m.phase = .stopped ∧
      m.log = (scan source).logWithin .trace ∧ m.tokens = (scan source).tokens ∧
      m.errorCount = (scan source).errors.length) := by
  have htranscript := isTranscript_events source.toList
  rw [← filter_tokens] at htranscript
  have hlog := logWithin_trace (scan source)
  refine ⟨⟨_, htranscript, ?_⟩, fun threshold => ?_, fun r hr => ?_, fun short ρ _ r => ?_⟩
  · rw [hlog, Scan.log, summary_scan, map_entry_snd]
    rfl
  · refine ⟨Scan.filterMap_record?_notes_ofLevel _ threshold, Scan.filterMap_error?_notes _ _, ?_⟩
    rw [hlog, Scan.logWithin]
  · rw [hlog, Scan.log] at hr
    rcases List.mem_append.1 hr with hr | hr
    · obtain ⟨e, -, rfl⟩ := List.mem_map.1 hr
      cases e with
      | token t => exact .inl rfl
      | fault start cause => exact .inr rfl
    · obtain rfl := List.mem_singleton.1 hr
      exact .inr rfl
  · obtain ⟨n, m, hsteps, hfinished⟩ := Machine.exists_finished short r
    obtain ⟨htokens, hcount, -, hmachine⟩ := Machine.findings_eq_iff.1 hfinished.found
    exact ⟨n, m, hsteps, hfinished.phase_eq, hmachine.trans hlog.symm, htokens, hcount⟩

/-- A character that is not expected, between two words on two lines. -/
example : ((scan "a @\nb").logWithin .trace).map LogRecord.message
    = ["line 1: IDENTIFIER a null", "lexical error at line 1: Unexpected character.",
        "line 2: IDENTIFIER b null", "scanned 3 tokens over 2 lines (1 errors)"] := by
  decide +kernel

end Lox
