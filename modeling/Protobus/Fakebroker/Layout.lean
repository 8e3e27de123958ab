import Protobus.Fakebroker.Closing

/-!
# What is declared

The layout of a broker is what declarations make: its exchanges with their bindings, its queues as
they were declared, and their names. Messages, consumers and channels come and go without touching
it, except that a queue of a connection or of its consumers goes with them. All that an operation
other than a declaration does to the layout is to take out the queues of some names.
-/
namespace Protobus.Fakebroker
open Library Table

variable {s t u s₀ : State} {q : Nat} {queue : Queue} {a : Act} {w w' : Work}

/-- A queue without what changes after its declaration. -/
def Queue.shape (queue : Queue) : Queue :=
  { queue with msgs := [], consumers := [], rr := 0, hadConsumer := false, deleted := false }

structure Layout where
  exchanges : List Exchange
  shapes : List Queue
  names : List (Bytes × Nat)
  nameSeq : Nat

def State.layout (s : State) : Layout := ⟨s.exchanges, s.queues.map Queue.shape, s.names, s.nameSeq⟩

def Exchange.without (dropped : List Bytes) (ex : Exchange) : Exchange :=
  { ex with bindings := ex.bindings.filter fun bd => !dropped.contains bd.queue }

namespace Layout
variable {l : Layout}

/-- The queues of these names are deleted. -/
def without (l : Layout) (dropped : List Bytes) : Layout :=
  { l with
    exchanges := l.exchanges.map (Exchange.without dropped)
    names := l.names.filter fun p => !dropped.contains p.1 }

@[simp] theorem without_shapes (l : Layout) (dropped : List Bytes) :
    (l.without dropped).shapes = l.shapes := rfl

@[simp] theorem without_nil (l : Layout) : l.without [] = l := by
  have same : Exchange.without [] = id := by
    funext ex
    simp [Exchange.without]
  simp [without, same]

theorem without_without (l : Layout) (first second : List Bytes) :
    (l.without first).without second = l.without (first ++ second) := by
  simp [without, Exchange.without, List.filter_filter, Function.comp_def, Bool.and_comm]

/-- The name of a queue that goes with its connection or its consumers. -/
def Soft (l : Layout) (name : Bytes) : Prop :=
  ∃ row ∈ l.shapes, row.name = name ∧ (row.autoDelete = true ∨ row.exclusive = true)

end Layout

/-- Messages move without touching it. -/
theorem State.layout_of_frame (same : t.frame = s.frame) : t.layout = s.layout := by
  have framed : ∀ u : State, u.frame.layout = u.layout := by
    intro u
    simp [State.frame, State.layout, Function.comp_def, Queue.frame, Queue.shape]
  rw [← framed, same, framed]

theorem detach_layout (s : State) (c : Nat) : (detach s c).layout = s.layout := by
  unfold detach
  split
  · rfl
  · simp only [State.layout]
    congr 1
    exact map_modify_of_eq fun _ => rfl

theorem deleteQueue_layout (found : s.queues[q]? = some queue) :
    (deleteQueue s q).layout = s.layout.without [queue.name] := by
  have kept : (queue.consumers.foldl detach (markDeleted s q queue)).layout =
      (markDeleted s q queue).layout := detachAll_eq detach_layout _ _
  simp only [deleteQueue, found, State.layout, Layout.mk.injEq] at kept ⊢
  obtain ⟨exchanges, shapes, names, nameSeq⟩ := kept
  have marked : (markDeleted s q queue).queues.map Queue.shape = s.queues.map Queue.shape :=
    map_set_of_eq found rfl
  rw [exchanges, shapes, names, nameSeq, marked]
  have one : ∀ name : Bytes, (!([queue.name].contains name)) = decide (name ≠ queue.name) := by
    intro name
    by_cases same : name = queue.name <;> simp [same]
  have unbound : s.exchanges.map (Exchange.without [queue.name]) =
      (markDeleted s q queue).exchanges := by
    apply List.map_congr_left
    intro ex _
    simp only [Exchange.without, one]
  simp only [Layout.without, one, unbound]
  rfl

/-- What an operation leaves that declares nothing. -/
def State.Loses (s t : State) : Prop :=
  ∃ dropped, t.layout = s.layout.without dropped ∧ ∀ name ∈ dropped, s.layout.Soft name

theorem State.Loses.of_eq (same : t.layout = s.layout) : s.Loses t :=
  ⟨[], by rw [same, Layout.without_nil], by simp⟩

theorem State.Loses.trans (first : s.Loses t) (second : t.Loses u) : s.Loses u := by
  obtain ⟨dropped₁, eq₁, soft₁⟩ := first
  obtain ⟨dropped₂, eq₂, soft₂⟩ := second
  refine ⟨dropped₁ ++ dropped₂, by rw [eq₂, eq₁, Layout.without_without], ?_⟩
  intro name mem
  obtain before | later := List.mem_append.mp mem
  · exact soft₁ name before
  · have soft := soft₂ name later
    rwa [Layout.Soft, eq₁, Layout.without_shapes] at soft

theorem deleteQueue_loses (found : s.queues[q]? = some queue)
    (soft : queue.autoDelete = true ∨ queue.exclusive = true) : s.Loses (deleteQueue s q) := by
  refine ⟨[queue.name], deleteQueue_layout found, ?_⟩
  intro name mem
  obtain rfl := List.mem_singleton.mp mem
  exact ⟨queue.shape, List.mem_map_of_mem (List.mem_of_getElem? found), rfl, soft⟩

theorem Edit.loses (edit : Edit s₀ a w w') (quiet : a.touches = false) :
    w.state.Loses w'.state := by
  cases edit with
  | shift shift => exact .of_eq (State.layout_of_frame shift.frame)
  | conns | channel | tune | close | left | clear => exact .of_eq rfl
  | count touches | exchanges touches | declare touches => simp [quiet] at touches
  | attach _ _ at_q =>
    refine .of_eq ?_
    simp only [State.layout]
    congr 1
    exact map_set_of_eq at_q rfl
  | detach => exact .of_eq (detach_layout _ _)
  | delete found why =>
    obtain auto | exclusive | ⟨name, rfl⟩ := why
    · exact deleteQueue_loses found (.inl auto)
    · exact deleteQueue_loses found (.inr exclusive)
    · cases quiet

theorem perform_loses (ok : s.Ok none none []) (order : Order) (quiet : a.touches = false) :
    s.Loses (perform order s a) := by
  refine (perform_edits ok order a).keeps (P := fun w => s.Loses w.state) ok ?_ (.of_eq rfl)
  exact fun w w' edit _ loses => loses.trans (edit.loses quiet)

end Protobus.Fakebroker
