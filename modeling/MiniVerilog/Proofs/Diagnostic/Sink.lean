import MiniVerilog.Proofs.Diagnostic.Sorted
import MiniVerilog.Proofs.Lint.Placement

/-! # A sink in use

Diagnostics are put into a sink and taken out of it in any order of operations. Every batch that is
taken holds what was emitted since the batch before, sorted; nothing is lost or doubled, and the
counts go on over all batches. A report that goes through a sink comes out as it is shown
(`MiniVerilog.DiagnosticSink.ofOperations_accounts`).
-/

namespace MiniVerilog.DiagnosticSink

/-- What can be done with a sink. -/
inductive Operation where
  | emit (diagnostic : Diagnostic)
  | extend (diagnostics : List Diagnostic)
  | takeAll
  deriving DecidableEq, Repr

namespace Operation

/-- The operation takes all diagnostics out. -/
def takes : Operation → Bool
  | takeAll => true
  | _ => false

/-- What the operation puts in. -/
def emitted : Operation → List Diagnostic
  | emit diagnostic => [diagnostic]
  | extend diagnostics => diagnostics
  | takeAll => []

end Operation

/-- What is put in before, between and after the operations that take all diagnostics out. -/
def stretches (operations : List Operation) : List (List Diagnostic) :=
  (operations.splitOnP Operation.takes).map fun stretch => stretch.flatMap Operation.emitted

theorem stretches_nil : stretches [] = [[]] := by
  rw [stretches, List.splitOnP_nil]
  rfl

/-- An operation that takes diagnostics out begins a new stretch, and any other one adds to the
first. -/
theorem stretches_cons (operation : Operation) (operations : List Operation) :
    stretches (operation :: operations) =
      if operation.takes then [] :: stretches operations
      else (stretches operations).modifyHead (operation.emitted ++ ·) := by
  unfold stretches
  rw [List.splitOnP_cons_eq_if_modifyHead]
  split
  · rfl
  · cases List.splitOnP Operation.takes operations <;> rfl

/-- Where nothing is held, the first stretch is as it was put in. -/
theorem modifyHead_nil_append (listed : List (List Diagnostic)) :
    listed.modifyHead ([] ++ ·) = listed := by
  cases listed <;> rfl

/-- A sink that is in use, with the batches that were taken out of it, the earliest first. -/
structure Session where
  sink : DiagnosticSink := {}
  batches : List (List Diagnostic) := []
  deriving DecidableEq, Repr

namespace Session

/-- Performs an operation. -/
def perform (session : Session) : Operation → Session
  | .emit diagnostic => { session with sink := session.sink.emit diagnostic }
  | .extend diagnostics => { session with sink := session.sink.extend diagnostics }
  | .takeAll =>
    { sink := session.sink.takeAll.2, batches := session.batches ++ [session.sink.takeAll.1] }

/-- The session after operations on a new sink. -/
def ofOperations (operations : List Operation) : Session :=
  operations.foldl perform {}

/-- From the earlier session to the later one some diagnostics were put in: none was lost or
doubled, and the counts went up by their errors and warnings. -/
structure Receives (diagnostics : List Diagnostic) (earlier later : Session) : Prop where
  perm : (later.batches.flatten ++ later.sink.held).Perm
    (earlier.batches.flatten ++ earlier.sink.held ++ diagnostics)
  errors : later.sink.errors =
    earlier.sink.errors + diagnostics.countP (·.severity == .error)
  warnings : later.sink.warnings =
    earlier.sink.warnings + diagnostics.countP (·.severity == .warning)

section Receives

variable {diagnostics others : List Diagnostic} {first second third : Session}

theorem Receives.refl (session : Session) : Receives [] session session :=
  ⟨(List.append_nil _).symm ▸ .refl _, rfl, rfl⟩

/-- What is put in one after the other is put in together. -/
theorem Receives.trans (receives : Receives diagnostics first second)
    (further : Receives others second third) : Receives (diagnostics ++ others) first third where
  perm := by
    rw [← List.append_assoc]
    exact further.perm.trans (receives.perm.append_right others)
  errors := by rw [further.errors, receives.errors, List.countP_append, Nat.add_assoc]
  warnings := by rw [further.warnings, receives.warnings, List.countP_append, Nat.add_assoc]

end Receives

end Session

/-- What is put in is held behind what is held already, and is counted. -/
theorem extend_eq (sink : DiagnosticSink) (diagnostics : List Diagnostic) :
    sink.extend diagnostics =
      { held := sink.held ++ diagnostics
        errors := sink.errors + diagnostics.countP (·.severity == .error)
        warnings := sink.warnings + diagnostics.countP (·.severity == .warning) } := by
  induction diagnostics generalizing sink with
  | nil => rw [List.append_nil]; rfl
  | cons diagnostic diagnostics ih =>
      have whole : sink.extend (diagnostic :: diagnostics) =
          (sink.emit diagnostic).extend diagnostics := rfl
      rw [whole, ih, List.countP_cons, List.countP_cons, emit, Diagnostic.isError,
        List.append_assoc]
      cases diagnostic.severity <;> simp +arith

namespace Session

/-- An operation that takes nothing out only puts diagnostics in. -/
theorem perform_of_emits (session : Session) {operation : Operation}
    (emits : operation.takes = false) :
    session.perform operation = { session with sink := session.sink.extend operation.emitted } := by
  cases operation with
  | emit diagnostic => rfl
  | extend diagnostics => rfl
  | takeAll => cases emits

/-- **An operation loses no diagnostic and doubles none**, and counts what it puts in. -/
theorem perform_receives (session : Session) (operation : Operation) :
    Receives operation.emitted session (session.perform operation) := by
  cases takes : operation.takes with
  | false =>
      rw [perform_of_emits session takes, extend_eq]
      refine ⟨?_, rfl, rfl⟩
      rw [List.append_assoc]
  | true =>
      cases operation with
      | takeAll =>
          have sorted := (Diagnostic.sorted_sorts session.sink.held).perm
          refine ⟨?_, rfl, rfl⟩
          change ((session.batches ++ [Diagnostic.sorted session.sink.held]).flatten ++ []).Perm
            (session.batches.flatten ++ session.sink.held ++ [])
          rw [List.flatten_append, List.flatten_singleton]
          exact (sorted.append_left _).append_right []
      | emit | extend => cases takes

/-- Operations one after the other lose no diagnostic and double none. -/
theorem foldl_perform_receives (operations : List Operation) (session : Session) :
    Receives (operations.flatMap Operation.emitted) session
      (operations.foldl perform session) := by
  induction operations generalizing session with
  | nil => exact .refl session
  | cons operation operations ih =>
      rw [List.flatMap_cons]
      exact (session.perform_receives operation).trans (ih _)

/-- **What is taken out** are the stretches of what is put in, the first of which goes on with what
is held already, and the last of which is still held. -/
theorem exists_foldl_perform (operations : List Operation) (session : Session) :
    ∃ taken batches,
      (stretches operations).modifyHead (session.sink.held ++ ·) =
        taken ++ [(operations.foldl perform session).sink.held] ∧
      (operations.foldl perform session).batches = session.batches ++ batches ∧
      List.Forall₂ Diagnostic.Sorts taken batches := by
  induction operations generalizing session with
  | nil =>
      refine ⟨[], [], ?_, (List.append_nil _).symm, .nil⟩
      rw [stretches_nil, List.modifyHead_cons, List.append_nil]
      rfl
  | cons operation operations ih =>
      obtain ⟨taken, batches, split, later, sorts⟩ := ih (session.perform operation)
      rw [stretches_cons, List.foldl_cons]
      cases takes : operation.takes with
      | false =>
          -- What is put in joins the stretch that is held; no batch is taken out.
          refine ⟨taken, batches, ?_, ?_, sorts⟩
          · rw [← split, perform_of_emits session takes, extend_eq, if_neg Bool.false_ne_true,
              List.modifyHead_modifyHead]
            refine congrArg (List.modifyHead · _) (funext fun stretch => ?_)
            exact (List.append_assoc _ _ _).symm
          · rw [later, perform_of_emits session takes]
      | true =>
          cases operation with
          | takeAll =>
              have batch := Diagnostic.sorted_sorts session.sink.held
              refine ⟨session.sink.held :: taken, Diagnostic.sorted session.sink.held :: batches,
                ?_, ?_, .cons batch sorts⟩
              · rw [if_pos rfl, List.modifyHead_cons, List.append_nil, List.cons_append, ← split]
                exact congrArg _ (modifyHead_nil_append _).symm
              · rw [later]
                exact List.append_assoc _ _ _
          | emit | extend => cases takes

/-- What a session knows after operations on a new sink. Every batch is sorted from what was put in
since the batch before; what was put in after the last batch is held. All of it is in one of the
batches or held, and it is counted. -/
structure Accounts (operations : List Operation) (session : Session) : Prop where
  batches : ∃ taken, stretches operations = taken ++ [session.sink.held] ∧
    List.Forall₂ Diagnostic.Sorts taken session.batches
  perm : (session.batches.flatten ++ session.sink.held).Perm
    (operations.flatMap Operation.emitted)
  errors : session.sink.errors =
    (operations.flatMap Operation.emitted).countP (·.severity == .error)
  warnings : session.sink.warnings =
    (operations.flatMap Operation.emitted).countP (·.severity == .warning)

end Session

/-- A report that is put into a new sink is taken out as it is shown, and the sink has errors
exactly if the report is not valid. -/
structure PassesOn (report : Lint.Report) : Prop where
  taken : (report.emitInto {}).takeAll.1 = report.diagnostics
  hasErrors : (report.emitInto {}).hasErrors = true ↔ report.isValid = false

/-- A report that is put into a new sink is held there as a whole, and counted. -/
theorem emitInto_new (report : Lint.Report) :
    report.emitInto {} =
      { held := report.diagnostics
        errors := (report.errors ++ report.warnings).countP (·.severity == .error)
        warnings := (report.errors ++ report.warnings).countP (·.severity == .warning) } := by
  have perm := (Diagnostic.sorted_sorts (report.errors ++ report.warnings)).perm
  rw [Lint.Report.emitInto, extend_eq, ← perm.countP_eq, ← perm.countP_eq, Nat.zero_add,
    Nat.zero_add, List.nil_append]
  rfl

/-- Of the diagnostics of a text the errors count as errors, and the warnings do not. -/
theorem countP_ofSource (source : String) :
    ((Lint.Report.ofSource source).errors ++ (Lint.Report.ofSource source).warnings).countP
      (·.severity == .error) = (Lint.Report.ofSource source).errors.length := by
  obtain ⟨found, goesOn, -⟩ := Lint.Report.ofSource_goesOn source
  have errors : (Lint.Report.ofSource source).errors.countP (·.severity == .error) =
      (Lint.Report.ofSource source).errors.length :=
    List.countP_eq_length.mpr fun diagnostic member => goesOn.isError_of_mem member
  have warnings : (Lint.Report.ofSource source).warnings.countP (·.severity == .error) = 0 :=
    List.countP_eq_zero.mpr fun diagnostic member =>
      ne_true_of_eq_false (goesOn.isError_eq_false_of_mem member)
  rw [List.countP_append, errors, warnings, Nat.add_zero]

/-- The report of any source is passed on through a sink. -/
theorem ofSource_passesOn (source : String) : PassesOn (Lint.Report.ofSource source) := by
  constructor
  case taken =>
    rw [emitInto_new]
    exact Diagnostic.sorted_eq_self (Diagnostic.sorted_sorts _).ordered
  case hasErrors =>
    rw [emitInto_new, hasErrors, decide_eq_true_eq, countP_ofSource, List.length_pos_iff,
      Lint.Report.isValid, List.isEmpty_eq_false_iff]

/-- **A sink loses, doubles and miscounts nothing**, whatever is done with it, and a report goes
through it unchanged. -/
theorem ofOperations_accounts (operations : List Operation) (source : String) :
    Session.Accounts operations (.ofOperations operations) ∧
      PassesOn (Lint.Report.ofSource source) := by
  refine ⟨?_, ofSource_passesOn source⟩
  have receives := Session.foldl_perform_receives operations {}
  obtain ⟨taken, batches, split, later, sorts⟩ := Session.exists_foldl_perform operations {}
  constructor
  case batches =>
    refine ⟨taken, (modifyHead_nil_append _).symm.trans split, ?_⟩
    rw [Session.ofOperations, later]
    exact sorts
  case perm => exact receives.perm
  case errors => exact receives.errors.trans (Nat.zero_add _)
  case warnings => exact receives.warnings.trans (Nat.zero_add _)

end MiniVerilog.DiagnosticSink
