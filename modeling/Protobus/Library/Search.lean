import Mathlib.Data.Fintype.Card
import Mathlib.Logic.Relation

/-!
# Depth-first search by key

A search of a graph for a node of a given key. It marks the keys it has met, not the nodes, in one
set that all branches share, and stops at the first hit. On a finite graph it always returns, and
where keys identify nodes it finds the goal exactly if that can be reached.
-/
namespace Protobus.Library.Search

variable {ι κ : Type}

/-- Visit some nodes one after the other until one of the visits is a hit. -/
def visitAll (visit : ι → List κ → Option (Bool × List κ)) :
    List ι → List κ → Option (Bool × List κ)
  | [], seen => some (false, seen)
  | d :: ds, seen => (visit d seen).bind fun (hit, seen) =>
      if hit then some (true, seen) else visitAll visit ds seen

def walk [DecidableEq κ] (key : ι → κ) (goal : κ) (succs : ι → List ι) :
    Nat → ι → List κ → Option (Bool × List κ)
  | 0, _, _ => none
  | fuel + 1, d, seen =>
    if key d = goal then some (true, seen)
    else if key d ∈ seen then some (false, seen)
    else visitAll (walk key goal succs fuel) (succs d) (key d :: seen)

/-- Some node of the goal's key can be reached. -/
def Reaches (key : ι → κ) (goal : κ) (succs : ι → List ι) (d : ι) : Prop :=
  ∃ e, Relation.ReflTransGen (fun a b => b ∈ succs a) d e ∧ key e = goal

variable {key : ι → κ} {goal : κ} {succs : ι → List ι}

theorem Reaches.head {d e : ι} (edge : e ∈ succs d) (reaches : Reaches key goal succs e) :
    Reaches key goal succs d := by
  obtain ⟨f, path, hit⟩ := reaches
  exact ⟨f, path.head edge, hit⟩

theorem visitAll_cons {visit : ι → List κ → Option (Bool × List κ)} {d : ι} {ds : List ι}
    {seen seen' : List κ} {hit : Bool} (h : visitAll visit (d :: ds) seen = some (hit, seen')) :
    (hit = true ∧ visit d seen = some (true, seen')) ∨
      ∃ mid, visit d seen = some (false, mid) ∧ visitAll visit ds mid = some (hit, seen') := by
  obtain ⟨⟨first, mid⟩, visited, rest⟩ := Option.bind_eq_some_iff.mp h
  cases first with
  | true =>
    cases rest
    exact .inl ⟨rfl, visited⟩
  | false => exact .inr ⟨mid, visited, rest⟩

/-! ## What a visit of several nodes finds -/

theorem visitAll_sound {visit : ι → List κ → Option (Bool × List κ)} {ds : List ι}
    {seen seen' : List κ} (h : visitAll visit ds seen = some (true, seen')) :
    ∃ d ∈ ds, ∃ before, visit d before = some (true, seen') := by
  induction ds generalizing seen with
  | nil => cases h
  | cons d ds ih =>
    rcases visitAll_cons h with ⟨-, visited⟩ | ⟨mid, -, rest⟩
    · exact ⟨d, List.mem_cons_self, seen, visited⟩
    · obtain ⟨e, mem, found⟩ := ih rest
      exact ⟨e, List.mem_cons_of_mem _ mem, found⟩

/-- After a miss, what was newly marked has its successors marked too, and is not the goal. -/
structure Closed (key : ι → κ) (goal : κ) (succs : ι → List ι) (seen seen' : List κ) : Prop where
  grows : seen ⊆ seen'
  closed : ∀ e, key e ∈ seen' → key e ∈ seen ∨
    (key e ≠ goal ∧ ∀ next ∈ succs e, key next ∈ seen')

theorem Closed.refl (seen : List κ) : Closed key goal succs seen seen :=
  ⟨List.Subset.refl _, fun _ mem => .inl mem⟩

theorem Closed.trans {seen mid seen' : List κ} (first : Closed key goal succs seen mid)
    (second : Closed key goal succs mid seen') : Closed key goal succs seen seen' := by
  refine ⟨List.Subset.trans first.grows second.grows, fun e mem => ?_⟩
  rcases second.closed e mem with mem | new
  · refine (first.closed e mem).imp_right fun ⟨miss, next⟩ => ⟨miss, fun f edge => ?_⟩
    exact second.grows (next f edge)
  · exact .inr new

theorem visitAll_closed {visit : ι → List κ → Option (Bool × List κ)}
    (each : ∀ d seen seen', visit d seen = some (false, seen') →
      Closed key goal succs seen seen' ∧ key d ∈ seen') {ds : List ι} {seen seen' : List κ}
    (h : visitAll visit ds seen = some (false, seen')) :
    Closed key goal succs seen seen' ∧ ∀ d ∈ ds, key d ∈ seen' := by
  induction ds generalizing seen with
  | nil =>
    cases h
    exact ⟨.refl _, by simp⟩
  | cons d ds ih =>
    rcases visitAll_cons h with ⟨⟨⟩, -⟩ | ⟨mid, visited, rest⟩
    obtain ⟨first, marked⟩ := each d seen mid visited
    obtain ⟨second, others⟩ := ih rest
    refine ⟨first.trans second, fun e mem => ?_⟩
    rcases List.mem_cons.mp mem with rfl | mem
    · exact second.grows marked
    · exact others e mem

/-- A set that is closed under successors and does not hold the goal hides it from all its nodes. -/
theorem Closed.not_reaches {seen : List κ} (closed : Closed key goal succs [] seen) {d : ι}
    (mem : key d ∈ seen) : ¬ Reaches key goal succs d := by
  rintro ⟨e, path, hit⟩
  have marked : key e ∈ seen := by
    clear hit
    induction path with
    | refl => exact mem
    | tail path edge ih => exact ((closed.closed _ ih).resolve_left (by simp)).2 _ edge
  exact ((closed.closed e marked).resolve_left (by simp)).1 hit

/-! ## It returns -/

variable [DecidableEq κ]

/-- How many keys of the graph are not marked. -/
def unseen [Fintype ι] (key : ι → κ) (seen : List κ) : Nat :=
  (Finset.univ.image key \ seen.toFinset).card

theorem unseen_le [Fintype ι] {seen seen' : List κ} (sub : seen ⊆ seen') :
    unseen key seen' ≤ unseen key seen := by
  refine Finset.card_le_card (Finset.sdiff_subset_sdiff (Finset.Subset.refl _) fun k mem => ?_)
  exact List.mem_toFinset.mpr (sub (List.mem_toFinset.mp mem))

theorem unseen_cons_lt [Fintype ι] {seen : List κ} {d : ι} (new : key d ∉ seen) :
    unseen key (key d :: seen) < unseen key seen := by
  apply Finset.card_lt_card
  refine ⟨?_, fun sub => ?_⟩
  · refine Finset.sdiff_subset_sdiff (Finset.Subset.refl _) fun k mem => ?_
    exact List.mem_toFinset.mpr (List.mem_cons_of_mem _ (List.mem_toFinset.mp mem))
  · have mem : key d ∈ Finset.univ.image key \ seen.toFinset := by simp [new]
    simpa using sub mem

theorem visitAll_returns [Fintype ι] {visit : ι → List κ → Option (Bool × List κ)} {bound : Nat}
    (each : ∀ d seen, unseen key seen < bound →
      ∃ hit seen', visit d seen = some (hit, seen') ∧ seen ⊆ seen') (ds : List ι)
    {seen : List κ} (room : unseen key seen < bound) :
    ∃ hit seen', visitAll visit ds seen = some (hit, seen') ∧ seen ⊆ seen' := by
  induction ds generalizing seen with
  | nil => exact ⟨false, seen, rfl, List.Subset.refl _⟩
  | cons d ds ih =>
    obtain ⟨hit, mid, visited, sub⟩ := each d seen room
    cases hit with
    | true => exact ⟨true, mid, by simp [visitAll, visited], sub⟩
    | false =>
      obtain ⟨hit, seen', rest, sub'⟩ := ih (Nat.lt_of_le_of_lt (unseen_le sub) room)
      exact ⟨hit, seen', by simp [visitAll, visited, rest], List.Subset.trans sub sub'⟩

/-- Each level of the recursion marks a key, so there are no more levels than keys. -/
theorem walk_returns [Fintype ι] {fuel : Nat} (d : ι) {seen : List κ}
    (room : unseen key seen < fuel) :
    ∃ hit seen', walk key goal succs fuel d seen = some (hit, seen') ∧ seen ⊆ seen' := by
  induction fuel generalizing d seen with
  | zero => cases room
  | succ fuel ih =>
    rw [walk]
    split
    · exact ⟨true, seen, rfl, List.Subset.refl _⟩
    · split
      · exact ⟨false, seen, rfl, List.Subset.refl _⟩
      · next new =>
        have less := unseen_cons_lt new
        obtain ⟨hit, seen', visited, sub⟩ :=
          visitAll_returns (fun d seen => ih d) (succs d)
            (show unseen key (key d :: seen) < fuel by omega)
        exact ⟨hit, seen', visited, fun k mem => sub (List.mem_cons_of_mem _ mem)⟩

theorem unseen_le_card [Fintype ι] (seen : List κ) : unseen key seen ≤ Fintype.card ι :=
  (Finset.card_le_card Finset.sdiff_subset).trans Finset.card_image_le

/-! ## It is right -/

theorem walk_sound {fuel : Nat} {d : ι} {seen seen' : List κ}
    (h : walk key goal succs fuel d seen = some (true, seen')) : Reaches key goal succs d := by
  induction fuel generalizing d seen with
  | zero => cases h
  | succ fuel ih =>
    rw [walk] at h
    split at h
    · next hit => exact ⟨d, .refl, hit⟩
    · split at h
      · cases h
      · obtain ⟨e, edge, before, found⟩ := visitAll_sound h
        exact (ih found).head edge

theorem walk_closed (injective : Function.Injective key) {fuel : Nat} {d : ι}
    {seen seen' : List κ} (h : walk key goal succs fuel d seen = some (false, seen')) :
    Closed key goal succs seen seen' ∧ key d ∈ seen' := by
  induction fuel generalizing d seen seen' with
  | zero => cases h
  | succ fuel ih =>
    rw [walk] at h
    split at h
    · cases h
    · next miss =>
      split at h
      · next marked =>
        cases h
        exact ⟨.refl _, marked⟩
      · obtain ⟨inner, next⟩ := visitAll_closed (fun d seen seen' => ih) h
        have marked := inner.grows List.mem_cons_self
        refine ⟨⟨fun k mem => inner.grows (List.mem_cons_of_mem _ mem), fun e mem => ?_⟩, marked⟩
        rcases inner.closed e mem with mem | new
        · rcases List.mem_cons.mp mem with same | mem
          · rw [injective same]
            exact .inr ⟨miss, next⟩
          · exact .inl mem
        · exact .inr new

theorem walk_eq_true_iff (injective : Function.Injective key) {fuel : Nat} {d : ι} {hit : Bool}
    {seen : List κ} (h : walk key goal succs fuel d [] = some (hit, seen)) :
    hit = true ↔ Reaches key goal succs d := by
  cases hit with
  | true => exact iff_of_true rfl (walk_sound h)
  | false =>
    obtain ⟨closed, mem⟩ := walk_closed injective h
    exact iff_of_false (by decide) (closed.not_reaches mem)

end Protobus.Library.Search
