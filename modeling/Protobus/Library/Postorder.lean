import Mathlib.Data.List.Nodup
import Mathlib.Logic.Relation

/-!
# Each node once, after its children

A walk over trees that share subtrees, as a tree of imports does. It knows a node by its key, marks
the key before it goes on to the children, and emits the node after them. Where keys identify trees,
a child that is marked already has been emitted: it is not one that is still open, since no tree is
a part of itself.
-/
namespace Protobus.Library

inductive RoseTree (α : Type) where
  | node (a : α) (children : List (RoseTree α))

namespace RoseTree
variable {α κ σ ε : Type}

def label : RoseTree α → α
  | node a _ => a

def children : RoseTree α → List (RoseTree α)
  | node _ ts => ts

theorem sizeOf_lt_of_mem {t c : RoseTree α} (mem : c ∈ t.children) : sizeOf c < sizeOf t := by
  cases t with
  | node a ts =>
    have := List.sizeOf_lt_of_mem mem
    simp only [children, node.sizeOf_spec] at this ⊢
    omega

@[elab_as_elim]
theorem induct {motive : RoseTree α → Prop}
    (node : ∀ a ts, (∀ t ∈ ts, motive t) → motive (node a ts)) : ∀ t, motive t
  | .node a ts => node a ts fun t _ => induct node t
decreasing_by
  have := List.sizeOf_lt_of_mem ‹t ∈ ts›
  simp only [RoseTree.node.sizeOf_spec]
  omega

/-- The first tree is the second or a part of it. -/
def Within (t r : RoseTree α) : Prop := Relation.ReflTransGen (fun r t => t ∈ r.children) r t

section
variable [DecidableEq κ] (key : α → κ)

mutual

/-- `emit` may fail, which ends the walk. -/
def visit (emit : σ → RoseTree α → Except ε σ) : RoseTree α → List κ × σ → Except ε (List κ × σ)
  | node a ts, (seen, out) =>
    if key a ∈ seen then .ok (seen, out)
    else do
      let (seen, out) ← visitAll emit ts (key a :: seen, out)
      .ok (seen, ← emit out (node a ts))

def visitAll (emit : σ → RoseTree α → Except ε σ) :
    List (RoseTree α) → List κ × σ → Except ε (List κ × σ)
  | [], s => .ok s
  | t :: ts, s => do visitAll emit ts (← visit emit t s)

end

mutual

/-- The keys that are marked after the walk, and the trees in the order of their emission. -/
def postorder : RoseTree α → List κ → List κ × List (RoseTree α)
  | node a ts, seen =>
    if key a ∈ seen then (seen, [])
    else
      let (seen, out) := postorderAll ts (key a :: seen)
      (seen, out ++ [node a ts])

def postorderAll : List (RoseTree α) → List κ → List κ × List (RoseTree α)
  | [], seen => (seen, [])
  | t :: ts, seen =>
    let (seen, out) := postorder t seen
    let (seen, rest) := postorderAll ts seen
    (seen, out ++ rest)

end

/-! ## The walk emits in that order -/

section
variable {key} {emit : σ → RoseTree α → Except ε σ}

theorem visitAll_eq_of_forall {ts : List (RoseTree α)}
    (each : ∀ t ∈ ts, ∀ seen out, visit key emit t (seen, out) =
      ((postorder key t seen).2.foldlM emit out).map ((postorder key t seen).1, ·))
    (seen : List κ) (out : σ) :
    visitAll key emit ts (seen, out) =
      ((postorderAll key ts seen).2.foldlM emit out).map ((postorderAll key ts seen).1, ·) := by
  induction ts generalizing seen out with
  | nil => rfl
  | cons t ts ih =>
    obtain ⟨first, rest⟩ := List.forall_mem_cons.mp each
    rw [visitAll, first, postorderAll]
    simp only [List.foldlM_append]
    cases (postorder key t seen).2.foldlM emit out with
    | error err => rfl
    | ok mid => exact ih rest _ mid

theorem visit_eq (t : RoseTree α) (seen : List κ) (out : σ) :
    visit key emit t (seen, out) =
      ((postorder key t seen).2.foldlM emit out).map ((postorder key t seen).1, ·) := by
  induction t using induct generalizing seen out with
  | node a ts ih =>
    rw [visit, postorder]
    split
    · rfl
    · rw [visitAll_eq_of_forall ih]
      simp only [List.foldlM_append]
      cases (postorderAll key ts (key a :: seen)).2.foldlM emit out with
      | error err => rfl
      | ok mid =>
        cases next : emit mid (.node a ts) with
        | error err => simp [Except.map, bind, Except.bind, next]
        | ok last => simp [Except.map, bind, Except.bind, next, pure, Except.pure]

/-- The walk is the plain order, with `emit` for each. -/
theorem visitAll_eq (ts : List (RoseTree α)) (seen : List κ) (out : σ) :
    visitAll key emit ts (seen, out) =
      ((postorderAll key ts seen).2.foldlM emit out).map ((postorderAll key ts seen).1, ·) :=
  visitAll_eq_of_forall (fun t _ => visit_eq t) seen out

end
end

/-! ## The order -/

section
variable {key : α → κ} {world : RoseTree α → Prop}

/-- The trees of a set that is closed under children are known by their keys. -/
structure Identified (key : α → κ) (world : RoseTree α → Prop) : Prop where
  closed : ∀ t, world t → ∀ c ∈ t.children, world c
  eq : ∀ t u, world t → world u → key t.label = key u.label → t = u

/-- Whatever is in the list has its children before it. -/
def ChildrenFirst (out : List (RoseTree α)) : Prop :=
  ∀ before t behind, out = before ++ t :: behind → ∀ c ∈ t.children, c ∈ before

theorem ChildrenFirst.concat {out : List (RoseTree α)} {t : RoseTree α} (h : ChildrenFirst out)
    (children : ∀ c ∈ t.children, c ∈ out) : ChildrenFirst (out ++ [t]) := by
  intro before u behind eq c mem
  obtain rfl | ⟨behind, last, rfl⟩ := List.eq_nil_or_concat behind
  · obtain ⟨rfl, same⟩ := List.append_inj' eq rfl
    cases same
    exact children c mem
  · have eq : out ++ [t] = (before ++ u :: behind) ++ [last] := by simpa using eq
    obtain ⟨rfl, -⟩ := List.append_inj' eq rfl
    exact h before u behind rfl c mem

/-- The state of the walk: `done` is emitted, and the children of `opened` are being visited. -/
structure Walking (key : α → κ) (world : RoseTree α → Prop) (seen : List κ)
    (opened done : List (RoseTree α)) : Prop where
  seen : ∀ k, k ∈ seen ↔ k ∈ done.map (key ·.label) ∨ k ∈ opened.map (key ·.label)
  opens : ∀ t ∈ opened, world t
  known : ∀ t ∈ done, world t
  distinct : ((done ++ opened).map (key ·.label)).Nodup
  sorted : ChildrenFirst done

/-- A tree is smaller than those whose children are being visited, so it is none of them. -/
theorem Walking.mem_done (ident : Identified key world) {seen : List κ}
    {opened done : List (RoseTree α)} (h : Walking key world seen opened done) {t : RoseTree α}
    (here : world t) (smaller : ∀ o ∈ opened, sizeOf t < sizeOf o)
    (marked : key t.label ∈ seen) : t ∈ done := by
  obtain mem | mem := (h.seen _).mp marked
  · obtain ⟨u, mem, same⟩ := List.mem_map.mp mem
    rwa [ident.eq t u here (h.known u mem) same.symm]
  · obtain ⟨o, mem, same⟩ := List.mem_map.mp mem
    have eq := ident.eq t o here (h.opens o mem) same.symm
    have := smaller o mem
    rw [eq] at this
    exact absurd this (Nat.lt_irrefl _)

theorem Walking.open {seen : List κ} {opened done : List (RoseTree α)}
    (h : Walking key world seen opened done) {t : RoseTree α} (here : world t)
    (fresh : key t.label ∉ seen) :
    Walking key world (key t.label :: seen) (t :: opened) done := by
  refine ⟨fun k => ?_, ?_, h.known, ?_, h.sorted⟩
  · simp only [List.mem_cons, h.seen, List.map_cons]
    tauto
  · simpa using ⟨here, h.opens⟩
  · have apart : key t.label ∉ (done ++ opened).map (key ·.label) := by
      rw [List.map_append, List.mem_append]
      exact fun mem => fresh ((h.seen _).mpr mem)
    have := List.nodup_cons.mpr ⟨apart, h.distinct⟩
    refine (List.Perm.nodup_iff ?_).mpr this
    simp

theorem Walking.close {seen : List κ} {opened done : List (RoseTree α)} {t : RoseTree α}
    (h : Walking key world seen (t :: opened) done) (children : ∀ c ∈ t.children, c ∈ done) :
    Walking key world seen opened (done ++ [t]) := by
  refine ⟨fun k => ?_, ?_, ?_, ?_, h.sorted.concat children⟩
  · simp only [h.seen, List.map_cons, List.mem_cons, List.map_append, List.mem_append,
      List.map_nil, List.not_mem_nil, or_false]
    tauto
  · exact fun o mem => h.opens o (List.mem_cons_of_mem _ mem)
  · intro u mem
    obtain mem | mem := List.mem_append.mp mem
    · exact h.known u mem
    · exact h.opens u (by simp [List.mem_singleton.mp mem])
  · simpa using h.distinct

variable [DecidableEq κ]

/-- What a visit does, as far as the walk goes on from there. -/
def Visits (key : α → κ) (world : RoseTree α → Prop) (opened : List (RoseTree α))
    (t : RoseTree α) : Prop :=
  ∀ seen done, Walking key world seen opened done →
    Walking key world (postorder key t seen).1 opened (done ++ (postorder key t seen).2) ∧
      t ∈ done ++ (postorder key t seen).2

theorem postorderAll_visits {opened : List (RoseTree α)} {ts : List (RoseTree α)}
    (each : ∀ t ∈ ts, Visits key world opened t) (seen : List κ) (done : List (RoseTree α))
    (h : Walking key world seen opened done) :
    Walking key world (postorderAll key ts seen).1 opened
        (done ++ (postorderAll key ts seen).2) ∧
      ∀ t ∈ ts, t ∈ done ++ (postorderAll key ts seen).2 := by
  induction ts generalizing seen done with
  | nil => simpa [postorderAll] using h
  | cons t ts ih =>
    obtain ⟨first, rest⟩ := List.forall_mem_cons.mp each
    obtain ⟨walking, mem⟩ := first seen done h
    obtain ⟨walking', all⟩ := ih rest _ _ walking
    rw [postorderAll]
    simp only [← List.append_assoc]
    refine ⟨walking', fun u listed => ?_⟩
    obtain rfl | listed := List.mem_cons.mp listed
    · exact List.mem_append_left _ mem
    · exact all u listed

theorem postorder_visits (ident : Identified key world) (t : RoseTree α) (here : world t)
    (opened : List (RoseTree α)) (smaller : ∀ o ∈ opened, sizeOf t < sizeOf o) :
    Visits key world opened t := by
  induction t using induct generalizing opened with
  | node a ts ih =>
    intro seen done h
    rw [postorder]
    split
    · next marked =>
      rw [List.append_nil]
      exact ⟨h, h.mem_done ident here smaller marked⟩
    · next fresh =>
      have below : ∀ c ∈ ts, Visits key world (.node a ts :: opened) c := by
        intro c mem
        refine ih c mem (ident.closed _ here c mem) _ fun o listed => ?_
        have less : sizeOf c < sizeOf (RoseTree.node a ts) := sizeOf_lt_of_mem mem
        obtain rfl | listed := List.mem_cons.mp listed
        · exact less
        · exact Nat.lt_trans less (smaller o listed)
      obtain ⟨walking, all⟩ := postorderAll_visits below _ done (h.open here fresh)
      simp only [← List.append_assoc]
      exact ⟨walking.close all, by simp⟩

/-- From the roots on, everything within them comes once, children first. -/
theorem postorderAll_spec {roots : List (RoseTree α)}
    (ident : Identified key fun t => ∃ r ∈ roots, t.Within r) :
    ((postorderAll key roots []).2.map (key ·.label)).Nodup ∧
      (∀ t, t ∈ (postorderAll key roots []).2 ↔ ∃ r ∈ roots, t.Within r) ∧
      ChildrenFirst (postorderAll key roots []).2 := by
  have start : Walking key (fun t => ∃ r ∈ roots, t.Within r) [] [] [] :=
    ⟨by simp, by simp, by simp, by simp, fun before _ _ eq => by simp at eq⟩
  have each : ∀ t ∈ roots, Visits key (fun t => ∃ r ∈ roots, t.Within r) [] t := fun t mem =>
    postorder_visits ident t ⟨t, mem, .refl⟩ [] (by simp)
  obtain ⟨walking, all⟩ := postorderAll_visits each [] [] start
  rw [List.nil_append] at walking all
  refine ⟨by simpa using walking.distinct, fun t => ⟨walking.known t, ?_⟩, walking.sorted⟩
  rintro ⟨r, mem, within⟩
  induction within with
  | refl => exact all r mem
  | tail _ child ih =>
    obtain ⟨before, behind, eq⟩ := List.append_of_mem ih
    rw [eq]
    exact List.mem_append_left _ (walking.sorted before _ behind eq _ child)

end

end RoseTree
end Protobus.Library
