import Protobus.Errors.Model

/-!
# What a failure discloses

The text of an error that is not the library's own stays in the service. This is a law about two
errors: blot out the texts of all such nodes, and whatever is told to a caller or written to a
header of a copy is the same.
-/
namespace Protobus.Errors
open Library

namespace Err

mutual
/-- The tree without the texts of the nodes that are not the library's own. The routing details
of a `PublishError` are part of its text. -/
def redact : Err → Err
  | .publish err _ => .publish (redact err) {}
  | .plain kind _ => .plain kind []
  | .wrap kind _ inner => .wrap kind [] (redact inner)
  | .join kind _ inner => .join kind [] (redactAll inner)
  | e => e

def redactAll : List Err → List Err
  | [] => []
  | e :: es => redact e :: redactAll es
end

/-! ## The functions on joins -/

theorem redactAll_eq (es : List Err) : redactAll es = es.map redact := by
  induction es with
  | nil => rfl
  | cons e es ih => simp [redactAll, ih]

theorem asAny_eq {α : Type} (target : Err → Option α) (es : List Err) :
    asAny target es = es.findSome? (as target) := by
  induction es with
  | nil => rfl
  | cons e es ih =>
    rw [asAny, ih, List.findSome?_cons]
    cases as target e <;> rfl

theorem nodesAll_eq (es : List Err) : nodesAll es = es.flatMap nodes := by
  induction es with
  | nil => rfl
  | cons e es ih => simp [nodesAll, ih]

/-! ## `errors.As` looks at every node -/

theorem as_eq_findSome? {α : Type} (target : Err → Option α) (e : Err) :
    e.as target = e.nodes.findSome? target := by
  have cons (n : Err) (ns : List Err) :
      (n :: ns).findSome? target = (target n).or (ns.findSome? target) := by
    rw [List.findSome?_cons]
    cases target n <;> rfl
  induction e using Err.induct with
  | handled | remote | timeout | sentinel | plain => simp [as, nodes, cons]
  | publish err info ih => rw [as, nodes, cons, ih]
  | wrap kind text inner ih => rw [as, nodes, cons, ih]
  | join kind text inner ih =>
    rw [as, nodes, cons, asAny_eq, nodesAll_eq]
    congr 1
    induction inner with
    | nil => rfl
    | cons e es ihes =>
      rw [List.findSome?_cons, List.flatMap_cons, List.findSome?_append,
        ← ih e List.mem_cons_self, ← ihes fun n mem => ih n (List.mem_cons_of_mem e mem)]
      cases e.as target <;> rfl

theorem as_eq_none {α : Type} {target : Err → Option α} {e : Err} :
    e.as target = none ↔ ∀ n ∈ e.nodes, target n = none := by
  rw [as_eq_findSome?, List.findSome?_eq_none_iff]

theorem nodes_redact (e : Err) : e.redact.nodes = e.nodes.map redact := by
  induction e using Err.induct with
  | handled | remote | timeout | sentinel | plain => simp [redact, nodes]
  | publish err info ih => simp [redact, nodes, ih]
  | wrap kind text inner ih => simp [redact, nodes, ih]
  | join kind text inner ih =>
    have each : (inner.map redact).flatMap nodes = (inner.flatMap nodes).map redact := by
      rw [List.flatMap_map, List.map_flatMap]
      exact List.flatMap_congr ih
    simp [redact, redactAll_eq, nodes, nodesAll_eq, each]

/-! ## Readers that no text changes -/

/-- `errors.As` with a target that no text changes. -/
theorem as_redact {α : Type} {target : Err → Option α}
    (blind : ∀ e, target e.redact = target e) (e : Err) : e.redact.as target = e.as target := by
  rw [as_eq_findSome?, as_eq_findSome?, nodes_redact, List.findSome?_map]
  congr 1
  exact funext blind

theorem toHandled_redact (e : Err) : toHandled e.redact = toHandled e := by cases e <;> rfl

theorem toRemote_redact (e : Err) : toRemote e.redact = toRemote e := by cases e <;> rfl

theorem toTimeout_redact (e : Err) : toTimeout e.redact = toTimeout e := by cases e <;> rfl

theorem sentinelCode_redact (e : Err) : sentinelCode e.redact = sentinelCode e := by
  cases e <;> rfl

theorem ownCode_redact (e : Err) : ownCode e.redact = ownCode e := by
  cases e with
  | publish err info => rw [redact, ownCode, ownCode, sentinelCode_redact]
  | _ => rfl

theorem className_redact (e : Err) : className e.redact = className e := by
  cases e with
  | publish err info =>
    cases err with
    | sentinel s => cases s <;> rfl
    | _ => rfl
  | _ => rfl

theorem typeName_redact (e : Err) : typeName e.redact = typeName e := by cases e <;> rfl

theorem errorName_redact (e : Err) : errorName e.redact = errorName e := by
  rw [errorName, errorName, className_redact, typeName_redact]

theorem errorCode_redact (e : Err) : errorCode e.redact = errorCode e := by
  induction e using Err.induct with
  | handled | remote | timeout | sentinel | plain => rfl
  | publish err info ih =>
    have top := ownCode_redact (.publish err info)
    rw [redact] at top ⊢
    rw [errorCode, errorCode, top, ih]
  | wrap kind text inner ih =>
    have top := ownCode_redact (.wrap kind text inner)
    rw [redact] at top ⊢
    rw [errorCode, errorCode, top, ih]
  | join kind text inner ih =>
    have top := ownCode_redact (.join kind text inner)
    have each : errorCodeAny (redactAll inner) = errorCodeAny inner := by
      clear top
      induction inner with
      | nil => rfl
      | cons e es ihes =>
        rw [redactAll, errorCodeAny, errorCodeAny, ih e List.mem_cons_self,
          ihes fun n mem => ih n (List.mem_cons_of_mem e mem)]
    rw [redact] at top ⊢
    rw [errorCode, errorCode, top, each]

theorem innermostNamed_redact (e : Err) : innermostNamed e.redact = (innermostNamed e).redact := by
  induction e using Err.induct with
  | handled | remote | timeout | sentinel | publish | plain | join => rfl
  | wrap kind text inner ih =>
    have class_eq := className_redact (.wrap kind text inner)
    have name_eq := errorName_redact (.wrap kind text inner)
    rw [redact] at class_eq name_eq ⊢
    rw [innermostNamed, innermostNamed, class_eq, name_eq, ih]
    split_ifs <;> rfl

theorem asHandled_redact (e : Err) : asHandled e.redact = asHandled e :=
  as_redact toHandled_redact e

theorem asAnswerable_redact (e : Err) : asAnswerable e.redact = asAnswerable e := by
  rw [asAnswerable, asAnswerable, asHandled_redact, as_redact toRemote_redact]

theorem safeErrorSummary_redact (e : Err) :
    safeErrorSummary (some e.redact) = safeErrorSummary (some e) := by
  simp only [safeErrorSummary, asHandled_redact, errorCode_redact, innermostNamed_redact,
    errorName_redact]

theorem sanitizeForCaller_redact (e : Err) :
    sanitizeForCaller e.redact false = sanitizeForCaller e false := by
  simp only [sanitizeForCaller, asAnswerable_redact, as_redact toTimeout_redact, Bool.not_false,
    if_true]

/-! ## The generic answer -/

/-- A node the caller may hear of: a `HandledError`, a `RemoteError` that is an answer, a
processing timeout. -/
def told : Err → Bool
  | .handled _ _ | .timeout _ _ => true
  | .remote _ code _ => !unanswerable code
  | _ => false

theorem sanitizeForCaller_untold {e : Err} (untold : ∀ n ∈ e.nodes, n.told = false) :
    sanitizeForCaller e false = ⟨codeInternal, genericMessage⟩ := by
  have handled : e.asHandled = none := by
    rw [asHandled, as_eq_none]
    intro n mem
    have := untold n mem
    cases n <;> simp_all [told, toHandled]
  have timeout : e.as toTimeout = none := by
    rw [as_eq_none]
    intro n mem
    have := untold n mem
    cases n <;> simp_all [told, toTimeout]
  have answerable : e.asAnswerable = none := by
    rw [asAnswerable, handled]
    cases found : e.as toRemote with
    | none => rfl
    | some remote =>
      obtain ⟨n, mem, target⟩ := List.exists_of_findSome?_eq_some
        ((as_eq_findSome? toRemote e).symm.trans found)
      have kept := untold n mem
      cases n with
      | remote method code message =>
        obtain rfl := Option.some.inj target
        have not_answer : unanswerable code = true := by simpa [told] using kept
        simp [not_answer]
      | _ => cases target
  simp [sanitizeForCaller, answerable, timeout]

end Err
open Err

/-- Two errors that differ only in the texts of nodes that are not the library's own have one
summary and, with exposure off, one answer; and an error with nothing in it that the caller may
hear of is answered with the generic one. -/
theorem unhandled_text_stays :
    (∀ e e' : Err, e.redact = e'.redact →
      safeErrorSummary (some e) = safeErrorSummary (some e') ∧
      sanitizeForCaller e false = sanitizeForCaller e' false) ∧
    (∀ e : Err, (∀ n ∈ e.nodes, n.told = false) →
      sanitizeForCaller e false = ⟨codeInternal, genericMessage⟩) := by
  refine ⟨fun e e' same => ⟨?_, ?_⟩, fun e untold => sanitizeForCaller_untold untold⟩
  · rw [← safeErrorSummary_redact e, same, safeErrorSummary_redact]
  · rw [← sanitizeForCaller_redact e, same, sanitizeForCaller_redact]

/-- A failed lookup in a wrapper, joined with a relayed internal error. -/
def lookupFailed (text : Bytes) : Err :=
  .join ⟨lit "joinError", none, none, none⟩ text
    [.wrap ⟨lit "wrapError", none, none, none⟩ text
      (.plain ⟨lit "NoRows", none, none, some (lit "ENOROWS")⟩ text),
     .remote (lit "Users.Users.get") codeInternal genericMessage]

theorem unhandled_text_stays_of_lookup :
    (lookupFailed (lit "no row for key 17")).redact =
      (lookupFailed (lit "no row for key 42")).redact ∧
    safeErrorSummary (some (lookupFailed (lit "no row for key 17"))) =
      safeErrorSummary (some (lookupFailed (lit "no row for key 42"))) ∧
    safeErrorSummary (some (lookupFailed (lit "no row for key 42"))) = lit "Error[ENOROWS]" ∧
    sanitizeForCaller (lookupFailed (lit "no row for key 17")) false =
      ⟨codeInternal, genericMessage⟩ :=
  ⟨rfl, (unhandled_text_stays.1 _ _ rfl).1, by decide, unhandled_text_stays.2 _ (by decide)⟩

end Protobus.Errors
