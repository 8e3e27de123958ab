import Mathlib.Data.List.Basic

/-!
# Lexers

A lexer cuts a text into pieces, from left to right. A piece is read letter by letter and may end
after a letter or before one, so that where it ends depends on the text up to the letter behind it
and on nothing further. Hence a text may be spliced in behind a piece that ends by itself, and into
a piece if it leads from the state there back to that state.
-/
namespace Protobus.Library

/-- What a letter does to the piece being read: it belongs to it, it is its last one, it stands
behind it, or it cannot come here. -/
inductive Move (σ : Type)
  | take (q : σ)
  | last
  | stop
  | fail

/-- `atEnd` says in which states a piece may end with the text. -/
structure Lexer (α σ : Type) where
  start : α → Move σ
  move : σ → α → Move σ
  atEnd : σ → Bool

namespace Lexer
variable {α σ : Type} (L : Lexer α σ)

/-- The rest of a piece, and what follows. -/
def scan : σ → List α → Option (List α × List α)
  | q, [] => if L.atEnd q then some ([], []) else none
  | q, a :: s => match L.move q a with
    | .take q => (scan q s).map fun p => (a :: p.1, p.2)
    | .last => some ([a], s)
    | .stop => some ([], a :: s)
    | .fail => none

/-- The state behind a text that belongs to the piece as a whole. -/
def run : σ → List α → Option σ
  | q, [] => some q
  | q, a :: s => match L.move q a with
    | .take q => run q s
    | .last | .stop | .fail => none

def next : List α → Option (List α × List α)
  | [] => none
  | a :: s => match L.start a with
    | .take q => (L.scan q s).map fun p => (a :: p.1, p.2)
    | .last => some ([a], s)
    | .stop | .fail => none

def lexWith : Nat → List α → Option (List (List α))
  | _, [] => some []
  | 0, _ :: _ => none
  | fuel + 1, s => (L.next s).bind fun p => (lexWith fuel p.2).map fun ps => p.1 :: ps

/-- The pieces of a text, or none if it cannot be cut. -/
def lex (s : List α) : Option (List (List α)) := L.lexWith s.length s

/-- A list of pieces as the lexer cuts them out of their own text. -/
def Pieces : List (List α) → Prop
  | [] => True
  | t :: ts => L.next (t ++ ts.flatten) = some (t, ts.flatten) ∧ Pieces ts

/-- A piece that ends by itself. -/
def Closed (t : List α) : Prop := ∀ s, L.next (t ++ s) = some (t, s)

variable {L}

/-! ## One piece -/

theorem scan_append {q : σ} {s t rest : List α} (h : L.scan q s = some (t, rest)) :
    s = t ++ rest := by
  induction s generalizing q t with
  | nil =>
    rw [scan] at h
    split at h
    · cases h
      rfl
    · cases h
  | cons a s ih =>
    rw [scan] at h
    split at h
    · obtain ⟨⟨u, r⟩, scanned, ⟨⟩⟩ := Option.map_eq_some_iff.mp h
      rw [List.cons_append, ← ih scanned]
    · cases h
      rfl
    · cases h
      rfl
    · cases h

theorem scan_run {q q' : σ} {t : List α} (h : L.run q t = some q') (s : List α) :
    L.scan q (t ++ s) = (L.scan q' s).map fun p => (t ++ p.1, p.2) := by
  induction t generalizing q with
  | nil =>
    cases h
    simp
  | cons a t ih =>
    rw [run] at h
    split at h
    · next q₁ moved =>
      rw [List.cons_append, scan, moved]
      simp [ih h, Function.comp_def]
    · cases h
    · cases h
    · cases h

theorem next_append {s t rest : List α} (h : L.next s = some (t, rest)) :
    s = t ++ rest ∧ t ≠ [] := by
  cases s with
  | nil => cases h
  | cons a s =>
    rw [next] at h
    split at h
    · obtain ⟨⟨u, r⟩, scanned, ⟨⟩⟩ := Option.map_eq_some_iff.mp h
      exact ⟨by rw [List.cons_append, ← scan_append scanned], by simp⟩
    · cases h
      exact ⟨rfl, by simp⟩
    · cases h
    · cases h

/-- Only the first letter behind a piece matters to it. -/
theorem scan_head {q : σ} {t s s' : List α} (h : L.scan q (t ++ s) = some (t, s))
    (head : s'.head? = s.head?) : L.scan q (t ++ s') = some (t, s') := by
  induction t generalizing q with
  | nil =>
    rw [List.nil_append] at h ⊢
    cases s with
    | nil =>
      have empty : s' = [] := by simpa using head
      rw [empty]
      exact h
    | cons a s =>
      obtain ⟨r, rfl⟩ : ∃ r, s' = a :: r := by
        cases s' with
        | nil => cases head
        | cons b r =>
          cases head
          exact ⟨r, rfl⟩
      rw [scan] at h ⊢
      split at h
      · obtain ⟨_, _, ⟨⟩⟩ := Option.map_eq_some_iff.mp h
      · cases h
      · rfl
      · cases h
  | cons a t ih =>
    rw [List.cons_append, scan] at h ⊢
    split at h
    · obtain ⟨⟨u, r⟩, scanned, ⟨⟩⟩ := Option.map_eq_some_iff.mp h
      rw [ih scanned]
      rfl
    · simp only [Option.some.injEq, Prod.mk.injEq, List.cons.injEq, true_and] at h
      obtain ⟨rfl, -⟩ := h
      rfl
    · cases h
    · cases h

theorem next_head {t s s' : List α} (h : L.next (t ++ s) = some (t, s))
    (head : s'.head? = s.head?) : L.next (t ++ s') = some (t, s') := by
  cases t with
  | nil => exact absurd rfl (next_append h).2
  | cons a t =>
    rw [List.cons_append, next] at h ⊢
    split at h
    · obtain ⟨⟨u, r⟩, scanned, ⟨⟩⟩ := Option.map_eq_some_iff.mp h
      rw [scan_head scanned head]
      rfl
    · simp only [Option.some.injEq, Prod.mk.injEq, List.cons.injEq, true_and] at h
      obtain ⟨rfl, -⟩ := h
      rfl
    · cases h
    · cases h

/-! ## All pieces -/

theorem lexWith_sound {fuel : Nat} {s : List α} {ps : List (List α)}
    (h : L.lexWith fuel s = some ps) : ps.flatten = s ∧ L.Pieces ps := by
  induction fuel generalizing s ps with
  | zero =>
    cases s with
    | nil =>
      cases h
      exact ⟨rfl, trivial⟩
    | cons a s => cases h
  | succ fuel ih =>
    cases s with
    | nil =>
      cases h
      exact ⟨rfl, trivial⟩
    | cons a s =>
      obtain ⟨⟨t, rest⟩, cut, others⟩ := Option.bind_eq_some_iff.mp h
      obtain ⟨qs, lexed, rfl⟩ := Option.map_eq_some_iff.mp others
      obtain ⟨rfl, pieces⟩ := ih lexed
      have whole := (next_append cut).1
      rw [whole] at cut
      exact ⟨whole.symm, cut, pieces⟩

theorem Pieces.lexWith {ps : List (List α)} (pieces : L.Pieces ps) {fuel : Nat}
    (enough : ps.flatten.length ≤ fuel) : L.lexWith fuel ps.flatten = some ps := by
  induction ps generalizing fuel with
  | nil => cases fuel <;> rfl
  | cons t ts ih =>
    obtain ⟨cut, others⟩ := pieces
    have nonempty := (next_append cut).2
    obtain ⟨a, u, rfl⟩ := List.exists_cons_of_ne_nil nonempty
    cases fuel with
    | zero => simp at enough
    | succ fuel =>
      have room : ts.flatten.length ≤ fuel := by
        simp at enough
        simp
        omega
      change (L.next ((a :: u) ++ ts.flatten)).bind _ = _
      rw [cut, Option.bind_some, ih others room]
      rfl

theorem lex_eq_some_iff {s : List α} {ps : List (List α)} :
    L.lex s = some ps ↔ ps.flatten = s ∧ L.Pieces ps := by
  refine ⟨lexWith_sound, ?_⟩
  rintro ⟨rfl, pieces⟩
  exact pieces.lexWith (Nat.le_refl _)

theorem Pieces.ne_nil {ps : List (List α)} (pieces : L.Pieces ps) : ∀ t ∈ ps, t ≠ [] := by
  induction ps with
  | nil => simp
  | cons t ts ih =>
    intro u mem
    rcases List.mem_cons.mp mem with rfl | mem
    · exact (next_append pieces.1).2
    · exact ih pieces.2 u mem

/-- The pieces before a letter do not depend on what follows it. -/
theorem Pieces.replace {before after after' : List (List α)} {a : α} {t t' : List α}
    (pieces : L.Pieces (before ++ (a :: t) :: after)) (behind : L.Pieces ((a :: t') :: after')) :
    L.Pieces (before ++ (a :: t') :: after') := by
  induction before with
  | nil => exact behind
  | cons u us ih =>
    refine ⟨next_head pieces.1 ?_, ih pieces.2⟩
    cases flat : us.flatten <;> simp [flat]

/-- Behind a piece that ends by itself the text may be any other. -/
theorem Pieces.splice {before after after' : List (List α)} {t : List α}
    (pieces : L.Pieces (before ++ t :: after)) (closed : L.Closed t) (nonempty : t ≠ [])
    (behind : L.Pieces after') : L.Pieces (before ++ t :: after') := by
  obtain ⟨a, v, rfl⟩ := List.exists_cons_of_ne_nil nonempty
  exact pieces.replace ⟨closed _, behind⟩

theorem Pieces.tail {before after : List (List α)} (pieces : L.Pieces (before ++ after)) :
    L.Pieces after := by
  induction before with
  | nil => exact pieces
  | cons u us ih => exact ih pieces.2

/-- The piece a place of the text is in, or the one it is behind. -/
theorem exists_piece {ps : List (List α)} {x y : List α} (flat : ps.flatten = x ++ y)
    (nonempty : x ≠ []) : ∃ before c c' after, ps = before ++ (c ++ c') :: after ∧
      x = before.flatten ++ c ∧ y = c' ++ after.flatten ∧ c ≠ [] := by
  induction ps generalizing x with
  | nil => simp_all
  | cons t ts ih =>
    rcases List.append_eq_append_iff.mp flat with ⟨x', rfl, eq⟩ | ⟨c', rfl, eq⟩
    · by_cases done : x' = []
      · subst done
        exact ⟨[], t, [], ts, by simp, by simp, by simpa using eq.symm, by simpa using nonempty⟩
      · obtain ⟨before, c, c', after, rfl, rfl, rfl, some⟩ := ih eq done
        exact ⟨t :: before, c, c', after, rfl, by simp, rfl, some⟩
    · exact ⟨[], x, c', ts, rfl, rfl, eq, nonempty⟩

/-- A place has one such piece. -/
theorem piece_unique {before before' after after' : List (List α)} {c c' d d' : List α}
    (same : before ++ (c ++ c') :: after = before' ++ (d ++ d') :: after')
    (place : before.flatten ++ c = before'.flatten ++ d) (some : c ≠ []) (some' : d ≠ []) :
    before = before' ∧ c = d ∧ c' = d' := by
  have apart : ∀ {front back rest : List (List α)} {u u' v v' : List α},
      front ++ (u ++ u') :: back = (v ++ v') :: rest → u ≠ [] → front.flatten ++ u = v →
      front = [] := by
    intro front back rest u u' v v' eq some place
    cases front with
    | nil => rfl
    | cons t ts =>
      simp only [List.cons_append, List.cons.injEq] at eq
      have length := congrArg List.length place
      have piece := congrArg List.length eq.1
      have := List.length_pos_iff.mpr some
      simp only [List.flatten_cons, List.length_append] at length piece
      omega
  rcases List.append_eq_append_iff.mp same with ⟨more, rfl, eq⟩ | ⟨more, rfl, eq⟩
  · have text : c = more.flatten ++ d := by simpa using place
    have none := apart eq.symm some' text.symm
    subst none
    simp_all
  · have text : more.flatten ++ c = d := by simpa using place
    have none := apart eq.symm some text
    subst none
    simp_all

end Lexer
end Protobus.Library
