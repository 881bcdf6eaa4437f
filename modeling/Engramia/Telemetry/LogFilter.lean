import Engramia.Governance.RegexRedaction
import Engramia.Telemetry.LogRedaction

/-!
The filter of the log redactor on a logger, among the loggers of a process. A record is filtered by
the logger on which it is logged, and then handed to the handlers of that logger and of its
parents; the filters of the parents are not asked.
-/
namespace Engramia.Telemetry
open Engramia.Library Engramia.Library.Regex Engramia.Storage
open Engramia.Governance (TextClasses)

universe u v w
variable {A : Type u} {E : Type v} {H : Type w}

section Definitions

/-- A `logging.LogRecord`. Without arguments its message is not formatted. -/
structure LogRecord (A : Type u) where
  msg : Text
  args : Option A

variable (U : TextClasses) (format : Text → A → Except E Text)

def LogRecord.getMessage (record : LogRecord A) : Except E Text :=
  match record.args with
  | none => .ok record.msg
  | some args => format record.msg args

/-- `RedactingFilter.filter`, which lets every record through. -/
def redactingFilter (record : LogRecord A) : LogRecord A :=
  match record.getMessage format with
  | .error _ => record
  | .ok rendered =>
      if redact U rendered = rendered then record
      else { msg := redact U rendered, args := none }

/-- A filter of a logger: the redacting one, or one that only drops records. -/
inductive Filter (A : Type u) where
  | redacting
  | keeping (keeps : LogRecord A → Bool)

def Filter.isRedacting : Filter A → Bool
  | redacting => true
  | keeping _ => false

def Filter.apply (filter : Filter A) (record : LogRecord A) : Option (LogRecord A) :=
  match filter with
  | redacting => some (redactingFilter U format record)
  | keeping keeps => if keeps record then some record else none

def runFilters : List (Filter A) → LogRecord A → Option (LogRecord A)
  | [], record => some record
  | filter :: filters, record => (filter.apply U format record).bind (runFilters filters)

structure Logger (A : Type u) (H : Type w) where
  name : Text
  filters : List (Filter A)
  handlers : List H
  propagate : Bool

/-- `Logger.callHandlers`, from a logger up through its parents. -/
def callHandlers : List (Logger A H) → List H
  | [] => []
  | logger :: parents => logger.handlers ++ if logger.propagate then callHandlers parents else []

/-- `Logger.handle`: what each handler is handed of a record that is logged on the first logger. -/
def handle : List (Logger A H) → LogRecord A → List (H × LogRecord A)
  | [], _ => []
  | logger :: parents, record =>
      match runFilters U format logger.filters record with
      | none => []
      | some record => (callHandlers (logger :: parents)).map fun handler => (handler, record)

def isEnabled (setting : Option Text) : Bool :=
  let lowered := (setting.getD "true".toList).map Char.toLower
  !(["false".toList, "0".toList, "no".toList].contains lowered)

/-- `install_redaction_filter`. The setting is `ENGRAMIA_LOG_REDACTION`. -/
def installRedactionFilter (setting : Option Text) (logger : Logger A H) : Logger A H :=
  if isEnabled setting then
    if logger.filters.any Filter.isRedacting then logger
    else { logger with filters := logger.filters ++ [.redacting] }
  else logger

/-- The installation on the loggers of a name. -/
def installOn (setting : Option Text) (name : Text) (logger : Logger A H) : Logger A H :=
  if logger.name = name then installRedactionFilter setting logger else logger

end Definitions

section Records
variable {U : TextClasses} {format : Text → A → Except E Text} {record record' : LogRecord A}
  {filters : List (Filter A)} {setting : Option Text} {logger : Logger A H}

theorem getMessage_redactingFilter (U : TextClasses) (format : Text → A → Except E Text)
    (record : LogRecord A) :
    (redactingFilter U format record).getMessage format =
      (record.getMessage format).map (redact U) := by
  cases hmessage : record.getMessage format with
  | error e => simp [redactingFilter, hmessage, Except.map]
  | ok rendered =>
      by_cases hsame : redact U rendered = rendered
      · simp [redactingFilter, hmessage, hsame, Except.map]
      · have hfilter : redactingFilter U format record = ⟨redact U rendered, none⟩ := by
          simp [redactingFilter, hmessage, hsame]
        rw [hfilter]
        rfl

theorem redactingFilter_idem (U : TextClasses) (format : Text → A → Except E Text)
    (record : LogRecord A) :
    redactingFilter U format (redactingFilter U format record) =
      redactingFilter U format record := by
  have hmessage := getMessage_redactingFilter U format record
  cases hrendered : record.getMessage format with
  | error e =>
      rw [hrendered] at hmessage
      rw [redactingFilter, hmessage]
      rfl
  | ok rendered =>
      rw [hrendered] at hmessage
      rw [redactingFilter, hmessage]
      exact if_pos (redact_complete U rendered).2.2

theorem redacted_of_runFilters (hfilters : filters.any Filter.isRedacting = true)
    (h : runFilters U format filters record = some record') :
    redactingFilter U format record' = record' := by
  have hkept : ∀ (filters : List (Filter A)) (record : LogRecord A),
      redactingFilter U format record = record →
        runFilters U format filters record = some record' →
          redactingFilter U format record' = record' := by
    intro filters
    induction filters with
    | nil =>
        intro record hrecord h
        rw [← Option.some.inj h]
        exact hrecord
    | cons filter filters ih =>
        intro record hrecord h
        cases filter with
        | redacting =>
            simp only [runFilters, Filter.apply, Option.bind_some, hrecord] at h
            exact ih record hrecord h
        | keeping keeps =>
            cases hkeeps : keeps record with
            | false => simp [runFilters, Filter.apply, hkeeps] at h
            | true =>
                simp only [runFilters, Filter.apply, hkeeps, if_true, Option.bind_some] at h
                exact ih record hrecord h
  induction filters generalizing record with
  | nil => cases hfilters
  | cons filter filters ih =>
      cases filter with
      | redacting => exact hkept filters _ (redactingFilter_idem U format record) h
      | keeping keeps =>
          cases hkeeps : keeps record with
          | false => simp [runFilters, Filter.apply, hkeeps] at h
          | true =>
              simp only [runFilters, Filter.apply, hkeeps, if_true, Option.bind_some] at h
              exact ih hfilters h

theorem runFilters_append (filters : List (Filter A)) (filter : Filter A) (record : LogRecord A) :
    runFilters U format (filters ++ [filter]) record =
      (runFilters U format filters record).bind (filter.apply U format) := by
  induction filters generalizing record with
  | nil => simp [runFilters]
  | cons first filters ih =>
      cases hfirst : first.apply U format record with
      | none => simp [runFilters, hfirst]
      | some record' => simp [runFilters, hfirst, ih]

theorem runFilters_install (U : TextClasses) (format : Text → A → Except E Text)
    (henabled : isEnabled setting = true) (logger : Logger A H) (record : LogRecord A) :
    runFilters U format (installRedactionFilter setting logger).filters record =
      (runFilters U format logger.filters record).map (redactingFilter U format) := by
  cases hfilters : logger.filters.any Filter.isRedacting with
  | true =>
      simp only [installRedactionFilter, henabled, hfilters, if_true]
      cases hrun : runFilters U format logger.filters record with
      | none => rfl
      | some record' => simp [redacted_of_runFilters hfilters hrun]
  | false =>
      simp only [installRedactionFilter, henabled, hfilters, if_true, Bool.false_eq_true, if_false]
      rw [runFilters_append]
      cases runFilters U format logger.filters record with
      | none => rfl
      | some record' => rfl

@[simp] theorem handlers_install (setting : Option Text) (logger : Logger A H) :
    (installRedactionFilter setting logger).handlers = logger.handlers := by
  rw [installRedactionFilter]
  split_ifs <;> rfl

@[simp] theorem propagate_install (setting : Option Text) (logger : Logger A H) :
    (installRedactionFilter setting logger).propagate = logger.propagate := by
  rw [installRedactionFilter]
  split_ifs <;> rfl

theorem callHandlers_installOn (setting : Option Text) (name : Text) (path : List (Logger A H)) :
    callHandlers (path.map (installOn setting name)) = callHandlers path := by
  induction path with
  | nil => rfl
  | cons logger parents ih =>
      by_cases hname : logger.name = name
      · simp [callHandlers, installOn, hname, ih]
      · simp [callHandlers, installOn, hname, ih]

theorem installRedactionFilter_idem (setting : Option Text) (logger : Logger A H) :
    installRedactionFilter setting (installRedactionFilter setting logger) =
      installRedactionFilter setting logger := by
  cases henabled : isEnabled setting with
  | false => simp [installRedactionFilter, henabled]
  | true =>
      cases hfilters : logger.filters.any Filter.isRedacting with
      | true => simp [installRedactionFilter, henabled, hfilters]
      | false => simp [installRedactionFilter, henabled, hfilters, Filter.isRedacting]

end Records

section Emission
variable (U : TextClasses) (format : Text → A → Except E Text)

/-- Where the filter is installed, every handler is handed the redacted record, of which no pattern
matches the message. What is logged on another logger is handed on as it was, to the handlers of
the logger with the filter too. -/
theorem handle_installOn (setting : Option Text) (henabled : isEnabled setting = true)
    (name : Text) (logger : Logger A H) (parents : List (Logger A H)) (record : LogRecord A) :
    (logger.name = name →
      handle U format ((logger :: parents).map (installOn setting name)) record =
          (handle U format (logger :: parents) record).map
            (fun sent => (sent.1, redactingFilter U format sent.2)) ∧
        ∀ sent ∈ handle U format ((logger :: parents).map (installOn setting name)) record,
          ∀ message, sent.2.getMessage format = .ok message →
            ∀ p ∈ patterns U, p.pattern.Clean message) ∧
      (logger.name ≠ name →
        handle U format ((logger :: parents).map (installOn setting name)) record =
          handle U format (logger :: parents) record) := by
  have hhandlers := callHandlers_installOn setting name (logger :: parents)
  constructor
  · intro hname
    have hsent : handle U format ((logger :: parents).map (installOn setting name)) record =
        (handle U format (logger :: parents) record).map
          (fun sent => (sent.1, redactingFilter U format sent.2)) := by
      have hfilters := runFilters_install U format henabled logger record
      rw [List.map_cons] at hhandlers ⊢
      rw [handle, handle, hhandlers, installOn, if_pos hname, hfilters]
      cases runFilters U format logger.filters record with
      | none => rfl
      | some record' => simp [Function.comp_def]
    refine ⟨hsent, ?_⟩
    intro sent hmem message hmessage
    rw [hsent] at hmem
    obtain ⟨before, _, rfl⟩ := List.mem_map.mp hmem
    simp only [getMessage_redactingFilter] at hmessage
    cases hbefore : before.2.getMessage format with
    | error e =>
        rw [hbefore] at hmessage
        cases hmessage
    | ok rendered =>
        rw [hbefore] at hmessage
        rw [← Except.ok.inj hmessage]
        exact clean_redact U rendered
  · intro hname
    rw [List.map_cons] at hhandlers ⊢
    rw [handle, handle, hhandlers, installOn, if_neg hname]

end Emission

/-- The logger of the package under a root that writes out what it is handed. -/
def packageLoggers : Logger Text String × List (Logger Text String) :=
  ({ name := "engramia".toList, filters := [.keeping fun _ => true], handlers := [],
     propagate := true },
   [{ name := [], filters := [], handlers := ["stderr"], propagate := true }])

def appendArgs (msg args : Text) : Except Unit Text := .ok (msg ++ args)

def postedRecord : LogRecord Text :=
  ⟨"posted ".toList, some "sk-ABCDEFGHIJKLMNOPQRSTUVWX".toList⟩

/-- The handler of the root is handed the one record that was logged, without the key. -/
theorem handle_installOn_engramia :
    (handle Governance.asciiText appendArgs
        ((packageLoggers.1 :: packageLoggers.2).map (installOn none "engramia".toList))
        postedRecord).length = 1 ∧
      ∀ sent ∈ handle Governance.asciiText appendArgs
          ((packageLoggers.1 :: packageLoggers.2).map (installOn none "engramia".toList))
          postedRecord,
        ∀ message, sent.2.getMessage appendArgs = .ok message →
          ∀ p ∈ patterns Governance.asciiText, p.pattern.Clean message := by
  obtain ⟨hsent, hclean⟩ := (handle_installOn Governance.asciiText appendArgs none (by decide)
    "engramia".toList packageLoggers.1 packageLoggers.2 postedRecord).1 rfl
  refine ⟨?_, hclean⟩
  rw [hsent, List.length_map]
  rfl

end Engramia.Telemetry
