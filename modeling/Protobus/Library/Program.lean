/-!
# Programs that wait for answers

A program performs one operation after another and goes on with the answer of each. Nothing
is said about who answers: `trace` runs the program against given answers, `Run` collects its
runs against all of them, and `Safe` is its verification condition.
-/
namespace Protobus.Library

inductive Program (Op : Type) (Answer : Op → Type) : Type
  | done
  | perform (o : Op) (next : Answer o → Program Op Answer)

namespace Program
variable {Op : Type} {Answer : Op → Type} {H : Type}

/-- The operations of one run. -/
def trace (answer : (o : Op) → Answer o) : Program Op Answer → List Op
  | done => []
  | perform o next => o :: trace answer (next (answer o))

@[simp] theorem trace_done (answer : (o : Op) → Answer o) : trace answer done = [] := rfl

@[simp] theorem trace_perform (answer : (o : Op) → Answer o) (o : Op)
    (next : Answer o → Program Op Answer) :
    trace answer (perform o next) = o :: trace answer (next (answer o)) := rfl

/-! ## Runs -/

/-- A complete run: the operations, each with the answer it got. -/
inductive Run : Program Op Answer → List ((o : Op) × Answer o) → Prop
  | done : Run done []
  | perform {o : Op} {next : Answer o → Program Op Answer} (a : Answer o)
      {es : List ((o : Op) × Answer o)} : Run (next a) es → Run (perform o next) (⟨o, a⟩ :: es)

@[simp] theorem run_done_iff {es : List ((o : Op) × Answer o)} :
    Run (done : Program Op Answer) es ↔ es = [] := by
  constructor
  · rintro ⟨⟩
    rfl
  · rintro rfl
    exact .done

@[simp] theorem run_perform_iff {o : Op} {next : Answer o → Program Op Answer}
    {es : List ((o : Op) × Answer o)} :
    Run (perform o next) es ↔ ∃ a rest, Run (next a) rest ∧ es = ⟨o, a⟩ :: rest := by
  constructor
  · rintro ⟨⟩
    exact ⟨_, _, ‹_›, rfl⟩
  · rintro ⟨a, rest, run, rfl⟩
    exact .perform a run

/-- Some run comes to the operation. -/
def Performs (p : Program Op Answer) (o : Op) : Prop := ∃ es, Run p es ∧ ∃ a, ⟨o, a⟩ ∈ es

/-- The run in which the operations get the given answers. -/
theorem exists_run_trace (answer : (o : Op) → Answer o) (p : Program Op Answer) :
    Run p ((trace answer p).map fun o => ⟨o, answer o⟩) := by
  induction p with
  | done => exact .done
  | perform o next ih => exact .perform (answer o) (ih (answer o))

theorem performs_of_mem_trace {answer : (o : Op) → Answer o} {p : Program Op Answer} {o : Op}
    (mem : o ∈ trace answer p) : Performs p o :=
  ⟨_, exists_run_trace answer p, answer o, List.mem_map.mpr ⟨o, mem, rfl⟩⟩

section
variable (record : H → (o : Op) → Answer o → H) (allowed : H → Op → Prop)

/-- Every operation that the program can come to is allowed by the history before it. -/
def Safe : H → Program Op Answer → Prop
  | _, done => True
  | h, perform o next => allowed h o ∧ ∀ a, Safe (record h o a) (next a)

@[simp] theorem safe_done (h : H) : Safe record allowed h (done : Program Op Answer) := trivial

@[simp] theorem safe_perform (h : H) (o : Op) (next : Answer o → Program Op Answer) :
    Safe record allowed h (perform o next) ↔
      allowed h o ∧ ∀ a, Safe record allowed (record h o a) (next a) := Iff.rfl

end

end Program
end Protobus.Library
