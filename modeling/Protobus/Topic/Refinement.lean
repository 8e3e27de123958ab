import Protobus.Library.FirstOccurrence
import Protobus.Topic.Trie

/-!
# The trie refines a list of subscriptions

The abstract trie is the list of `Add` calls. `valuesAt` reads a concrete node at a
pattern, `addEntry` changes it at exactly one pattern, and `collect` finds exactly the
entries at the patterns that match, possibly several times each. Sorting and
deduplication then leave every matching value once, in the order of the calls.
-/
namespace Protobus.Topic
open Library

variable {T : Type}

namespace Node

/-- The entries registered below `n` under a pattern. -/
def valuesAt : List Bytes → Node T → List (Entry T)
  | [], n => n.values
  | w :: p, n => match n.child? w with
    | none => []
    | some c => valuesAt p c

@[simp] theorem valuesAt_empty (p : List Bytes) : valuesAt p (empty : Node T) = [] := by
  cases p with
  | nil => rfl
  | cons w p => simp [valuesAt, child?, literal?, empty, starNode, hashNode, children]

theorem mem_valuesAt_cons {e : Entry T} {w : Bytes} {p : List Bytes} {n : Node T} :
    e ∈ valuesAt (w :: p) n ↔ ∃ c, n.child? w = some c ∧ e ∈ valuesAt p c := by
  rw [valuesAt]
  cases n.child? w <;> simp

theorem valuesAt_child (n : Node T) (w : Bytes) (p : List Bytes) :
    valuesAt p (n.child w) = valuesAt (w :: p) n := by
  rw [valuesAt, child]
  cases n.child? w <;> simp

theorem lookup_put (w u : Literal) (c : Node T) (l : List (Literal × Node T)) :
    (put w c l).lookup u = if u = w then some c else l.lookup u := by
  induction l with
  | nil =>
    by_cases h : u = w
    · simp [put, h]
    · have h' : (u == w) = false := beq_false_of_ne h
      simp [put, List.lookup_cons, h, h']
  | cons x l ih =>
    obtain ⟨v, n⟩ := x
    by_cases hv : v = w
    · subst hv
      by_cases h : u = v
      · simp [put, h]
      · have h' : (u == v) = false := beq_false_of_ne h
        simp [put, List.lookup_cons, h, h']
    · by_cases h : u = v
      · subst h
        simp [put, hv]
      · have h' : (u == v) = false := beq_false_of_ne h
        simp [put, List.lookup_cons, hv, h', ih]

theorem literal?_setChild (n c : Node T) {w : Bytes} (hs : w ≠ star) (hh : w ≠ hash)
    (u : Bytes) : (n.setChild w c).literal? u = if u = w then some c else n.literal? u := by
  by_cases hu : u ≠ star ∧ u ≠ hash
  · have eq : (⟨u, hu⟩ : Literal) = ⟨w, hs, hh⟩ ↔ u = w := Subtype.mk_eq_mk
    simp only [literal?, hu, ne_eq, not_false_eq_true, and_self, ↓reduceDIte, setChild, hs, hh,
      children, lookup_put, eq]
  · have ne : u ≠ w := by rintro rfl; exact hu ⟨hs, hh⟩
    simp only [literal?, hu, ↓reduceDIte, ne, ↓reduceIte]

theorem child?_setChild (n c : Node T) (w u : Bytes) :
    (n.setChild w c).child? u = if u = w then some c else n.child? u := by
  by_cases hs : w = star
  · subst hs
    by_cases h : u = star <;> simp [setChild, child?, starNode, hashNode, literal?, children, h]
  · by_cases hh : w = hash
    · subst hh
      by_cases h : u = hash
      · simp [setChild, child?, hashNode, h]
      · by_cases h' : u = star <;>
          simp [setChild, child?, starNode, literal?, children, h, h']
    · unfold child?
      rw [literal?_setChild n c hs hh]
      by_cases h : u = star
      · simp [setChild, starNode, hs, hh, h, Ne.symm hs]
      · by_cases h' : u = hash
        · simp [setChild, hashNode, hs, hh, h', Ne.symm hh]
        · simp [h, h']

@[simp] theorem values_setChild (n c : Node T) (w : Bytes) :
    (n.setChild w c).values = n.values := by
  unfold setChild
  split_ifs <;> rfl

/-- Adding an entry changes the values of its own pattern and of no other. -/
theorem valuesAt_addEntry (q : List Bytes) (e : Entry T) (n : Node T) (p : List Bytes) :
    valuesAt p (addEntry q e n) = valuesAt p n ++ if p = q then [e] else [] := by
  induction q generalizing n p with
  | nil =>
    cases p with
    | nil => simp [addEntry, valuesAt, values]
    | cons u p => simp [addEntry, valuesAt, child?, literal?, starNode, hashNode, children]
  | cons w q ih =>
    cases p with
    | nil => simp [addEntry, valuesAt]
    | cons u p =>
      rw [addEntry, valuesAt, child?_setChild]
      by_cases h : u = w
      · subst h
        simp [ih, valuesAt_child]
      · simp [h, valuesAt]

theorem mem_collect_nil {n : Node T} {e : Entry T} :
    e ∈ n.collect [] ↔ e ∈ n.values ∨ ∃ c, n.hashNode = some c ∧ e ∈ c.collect [] := by
  rw [collect, List.mem_append]
  split <;> simp_all

theorem mem_collect_cons {n : Node T} {w : Bytes} {ws : List Bytes} {e : Entry T} :
    e ∈ n.collect (w :: ws) ↔
      (∃ c, n.literal? w = some c ∧ e ∈ c.collect ws) ∨
      (∃ c, n.starNode = some c ∧ e ∈ c.collect ws) ∨
      ∃ c, n.hashNode = some c ∧
        ∃ i ≤ (w :: ws).length, e ∈ c.collect ((w :: ws).drop i) := by
  rw [collect, List.mem_append, List.mem_append, or_assoc]
  refine or_congr ?_ (or_congr ?_ ?_)
  · split <;> simp_all
  · split <;> simp_all
  · split
    · simp_all
    · next c found =>
      simp only [List.mem_flatMap, List.mem_range, Nat.lt_succ_iff, found, Option.some.injEq,
        exists_eq_left']

/-- A step down from `n` by one word of a pattern. -/
theorem mem_valuesAt_below {n c : Node T} {w : Bytes} {p : List Bytes} {e : Entry T}
    (hc : n.child? w = some c) (he : e ∈ valuesAt p c) : e ∈ valuesAt (w :: p) n :=
  mem_valuesAt_cons.mpr ⟨c, hc, he⟩

/-- Every entry `collect` finds is registered under a matching pattern. The induction is on
the node: whatever words a `#` absorbs, the recursive calls go down. -/
theorem exists_of_mem_collect (n : Node T) (words : List Bytes) (e : Entry T)
    (he : e ∈ n.collect words) : ∃ p, e ∈ valuesAt p n ∧ topicMatch p words = true := by
  induction hk : sizeOf n using Nat.strong_induction_on generalizing n words with
  | h k ih =>
    subst hk
    cases words with
    | nil =>
      rcases mem_collect_nil.mp he with hv | ⟨c, hc, he⟩
      · exact ⟨[], hv, by simp⟩
      · obtain ⟨p, hp, hm⟩ := ih _ (sizeOf_hashNode_lt hc) c [] he rfl
        exact ⟨hash :: p, mem_valuesAt_below (by simp [child?, hc]) hp, by simpa using hm⟩
    | cons u words =>
      rcases mem_collect_cons.mp he with ⟨c, hc, he⟩ | ⟨c, hc, he⟩ | ⟨c, hc, i, hi, he⟩
      · obtain ⟨p, hp, hm⟩ := ih _ (sizeOf_literal_lt hc) c words he rfl
        have hu : u ≠ star ∧ u ≠ hash := by
          by_contra hu
          simp [literal?, hu] at hc
        exact ⟨u :: p, mem_valuesAt_below (by simp [child?, hu.1, hu.2, hc]) hp,
          (topicMatch_word_cons hu.2 u p words).mpr ⟨.inr rfl, hm⟩⟩
      · obtain ⟨p, hp, hm⟩ := ih _ (sizeOf_starNode_lt hc) c words he rfl
        exact ⟨star :: p, mem_valuesAt_below (by simp [child?, hc]) hp,
          (topicMatch_word_cons star_ne_hash u p words).mpr ⟨.inl rfl, hm⟩⟩
      · obtain ⟨p, hp, hm⟩ := ih _ (sizeOf_hashNode_lt hc) c _ he rfl
        exact ⟨hash :: p, mem_valuesAt_below (by simp [child?, hc]) hp,
          (topicMatch_hash p _).mpr ⟨i, hi, hm⟩⟩

/-- Conversely every entry under a matching pattern is found, by following the pattern. -/
theorem mem_collect_of_topicMatch (p : List Bytes) (n : Node T) (words : List Bytes)
    (e : Entry T) (he : e ∈ valuesAt p n) (hm : topicMatch p words = true) :
    e ∈ n.collect words := by
  induction p generalizing n words with
  | nil =>
    have : words = [] := by simpa using hm
    subst this
    exact mem_collect_nil.mpr (.inl he)
  | cons w p ih =>
    obtain ⟨c, hc, below⟩ := mem_valuesAt_cons.mp he
    by_cases hw : w = hash
    · subst hw
      have hc : n.hashNode = some c := by simpa [child?] using hc
      obtain ⟨i, hi, rest⟩ := (topicMatch_hash p words).mp hm
      cases words with
      | nil => exact mem_collect_nil.mpr (.inr ⟨c, hc, ih c [] below (by simpa using rest)⟩)
      | cons u words =>
        exact mem_collect_cons.mpr (.inr (.inr ⟨c, hc, i, hi, ih c _ below rest⟩))
    · cases words with
      | nil => simp [topicMatch_word_nil hw] at hm
      | cons u words =>
        obtain ⟨hwu, rest⟩ := (topicMatch_word_cons hw u p words).mp hm
        by_cases hs : w = star
        · subst hs
          have hc : n.starNode = some c := by simpa [child?] using hc
          exact mem_collect_cons.mpr (.inr (.inl ⟨c, hc, ih c words below rest⟩))
        · have hwu : w = u := hwu.resolve_left hs
          subst hwu
          have hc : n.literal? w = some c := by simpa [child?, hs, hw] using hc
          exact mem_collect_cons.mpr (.inl ⟨c, hc, ih c words below rest⟩)

theorem mem_collect (n : Node T) (words : List Bytes) (e : Entry T) :
    e ∈ n.collect words ↔ ∃ p, e ∈ valuesAt p n ∧ topicMatch p words = true :=
  ⟨exists_of_mem_collect n words e,
    fun ⟨p, he, hm⟩ => mem_collect_of_topicMatch p n words e he hm⟩

end Node

namespace Trie

/-- The trie that a sequence of `Add(pattern, v)` calls leaves behind. -/
def ofAdds (adds : List (Bytes × T)) : Trie T := adds.foldl (fun t a => t.add a.1 a.2) new

/-- What the calls register: the `i`-th call, counted from zero, has sequence number
`i + 1`. -/
def entries (adds : List (Bytes × T)) : List (Bytes × Entry T) :=
  adds.zipIdx.map (fun a => (a.1.1, ⟨a.1.2, a.2 + 1⟩))

theorem ofAdds_concat (adds : List (Bytes × T)) (a : Bytes × T) :
    ofAdds (adds ++ [a]) = (ofAdds adds).add a.1 a.2 := by simp [ofAdds]

theorem entries_concat (adds : List (Bytes × T)) (a : Bytes × T) :
    entries (adds ++ [a]) = entries adds ++ [(a.1, ⟨a.2, adds.length + 1⟩)] := by
  simp [entries, List.zipIdx_append]

theorem ofAdds_seq (adds : List (Bytes × T)) : (ofAdds adds).seq = adds.length := by
  induction adds using List.reverseRecOn with
  | nil => rfl
  | append_singleton adds a ih => simp [ofAdds_concat, add, ih]

/-- The refinement relation: a node holds under each pattern what was added under it. -/
theorem mem_valuesAt_ofAdds (adds : List (Bytes × T)) (p : List Bytes) (e : Entry T) :
    e ∈ (ofAdds adds).root.valuesAt p ↔
      ∃ pattern, (pattern, e) ∈ entries adds ∧ splitDots pattern = p := by
  induction adds using List.reverseRecOn with
  | nil => simp [ofAdds, new, entries]
  | append_singleton adds a ih =>
    rw [ofAdds_concat, entries_concat, add, Node.valuesAt_addEntry, List.mem_append, ih, ofAdds_seq]
    constructor
    · rintro (⟨q, hq, rfl⟩ | he)
      · exact ⟨q, List.mem_append_left _ hq, rfl⟩
      · split_ifs at he with h
        · rw [List.mem_singleton.mp he]
          exact ⟨a.1, by simp, h.symm⟩
        · cases he
    · rintro ⟨q, hq, rfl⟩
      rcases List.mem_append.mp hq with hq | hq
      · exact .inl ⟨q, hq, rfl⟩
      · obtain ⟨rfl, rfl⟩ : q = a.1 ∧ e = ⟨a.2, adds.length + 1⟩ := by simpa using hq
        exact .inr (by simp)

theorem entries_sorted (adds : List (Bytes × T)) :
    (entries adds).Pairwise (fun a b => a.2.seq < b.2.seq) := by
  induction adds using List.reverseRecOn with
  | nil => simp [entries]
  | append_singleton adds a ih =>
    rw [entries_concat, List.pairwise_append]
    refine ⟨ih, List.pairwise_singleton _ _, ?_⟩
    intro x hx y hy
    rw [List.mem_singleton.mp hy]
    obtain ⟨z, hz, rfl⟩ := List.mem_map.mp hx
    have := List.snd_lt_of_mem_zipIdx hz
    simp
    omega

/-- The values of the calls whose pattern matches, in the order of the calls. -/
def matching (adds : List (Bytes × T)) (topic : Bytes) : List T :=
  (adds.filter (fun a => topicMatch (splitDots a.1) (splitDots topic))).map Prod.snd

/-- The entries of those calls. -/
def matchingEntries (adds : List (Bytes × T)) (topic : Bytes) : List (Entry T) :=
  ((entries adds).filter (fun a => topicMatch (splitDots a.1) (splitDots topic))).map Prod.snd

theorem matching_eq_entries (adds : List (Bytes × T)) (topic : Bytes) :
    matching adds topic = (matchingEntries adds topic).map Entry.v := by
  induction adds using List.reverseRecOn with
  | nil => simp [matching, matchingEntries, entries]
  | append_singleton adds a ih =>
    rw [matching, matchingEntries] at ih ⊢
    rw [entries_concat, List.filter_append, List.filter_append, List.map_append, List.map_append,
      List.map_append, ih]
    by_cases h : topicMatch (splitDots a.1) (splitDots topic) = true <;> simp [h]

theorem matchingEntries_sorted (adds : List (Bytes × T)) (topic : Bytes) :
    (matchingEntries adds topic).Pairwise (fun a b => a.seq < b.seq) := by
  rw [matchingEntries, List.pairwise_map]
  exact (entries_sorted adds).sublist List.filter_sublist

/-- The walk finds the entries of the matching calls, each at least once. -/
theorem mem_collect_ofAdds (adds : List (Bytes × T)) (topic : Bytes) (e : Entry T) :
    e ∈ (ofAdds adds).root.collect (splitDots topic) ↔ e ∈ matchingEntries adds topic := by
  rw [Node.mem_collect]
  simp only [mem_valuesAt_ofAdds, matchingEntries, List.mem_map, List.mem_filter]
  constructor
  · rintro ⟨p, ⟨q, hq, rfl⟩, hm⟩
    exact ⟨(q, e), ⟨hq, hm⟩, rfl⟩
  · rintro ⟨⟨q, e⟩, ⟨hq, hm⟩, rfl⟩
    exact ⟨_, ⟨q, hq, rfl⟩, hm⟩

theorem pairwise_mergeSort_seq (found : List (Entry T)) :
    (found.mergeSort (fun a b => decide (a.seq ≤ b.seq))).Pairwise (fun a b => a.seq ≤ b.seq) := by
  have trans (a b c : Entry T) (ab : decide (a.seq ≤ b.seq) = true)
      (bc : decide (b.seq ≤ c.seq) = true) : decide (a.seq ≤ c.seq) = true := by
    simp only [decide_eq_true_eq] at *
    omega
  have total (a b : Entry T) : (decide (a.seq ≤ b.seq) || decide (b.seq ≤ a.seq)) = true := by
    simp only [Bool.or_eq_true, decide_eq_true_eq]
    omega
  simpa using List.pairwise_mergeSort trans total found

/-- The loop of `Match`: sorted by call and cleared of repetitions, what the walk found is the
list of matching calls. -/
theorem foldl_collect_ofAdds [DecidableEq T] (adds : List (Bytes × T)) (topic : Bytes)
    (dst : List T) :
    (((ofAdds adds).root.collect (splitDots topic)).mergeSort
        (fun a b => decide (a.seq ≤ b.seq))).foldl
      (fun acc e => if (acc.drop dst.length).contains e.v then acc else acc ++ [e.v]) dst =
      dst ++ (matching adds topic).eraseDups := by
  let found := (ofAdds adds).root.collect (splitDots topic)
  let sorted := found.mergeSort (fun a b => decide (a.seq ≤ b.seq))
  have mem (e : Entry T) : e ∈ sorted ↔ e ∈ matchingEntries adds topic :=
    List.mem_mergeSort.trans (mem_collect_ofAdds adds topic e)
  have once : sorted.eraseDups = matchingEntries adds topic :=
    eraseDups_eq_of_sorted Entry.seq (pairwise_mergeSort_seq found)
      (matchingEntries_sorted adds topic) mem
  have values : (sorted.map Entry.v).eraseDups = (matching adds topic).eraseDups := by
    rw [← eraseDups_map_eraseDups, once, matching_eq_entries]
  change sorted.foldl _ dst = _
  rw [← values, ← foldl_append_unless_mem, List.foldl_map]

/-- Without a match the loop would do nothing. -/
theorem matchTopic_eq_foldl [DecidableEq T] (t : Trie T) (topic : Bytes) (dst : List T) :
    t.matchTopic topic dst = ((t.root.collect (splitDots topic)).mergeSort
        (fun a b => decide (a.seq ≤ b.seq))).foldl
      (fun acc e => if (acc.drop dst.length).contains e.v then acc else acc ++ [e.v]) dst := by
  rw [matchTopic]
  split_ifs with none
  · rw [List.length_eq_zero_iff.mp none, List.mergeSort_nil, List.foldl_nil]
  · rfl

/-- Which values `Match` returns, without their order. -/
theorem mem_matchTopic_ofAdds [DecidableEq T] {adds : List (Bytes × T)} {topic : Bytes}
    {dst : List T} {v : T} :
    v ∈ (ofAdds adds).matchTopic topic dst ↔ v ∈ dst ∨ v ∈ matching adds topic := by
  rw [matchTopic_eq_foldl, foldl_collect_ofAdds, List.mem_append, List.mem_eraseDups]

/-- Values that were added once each. -/
theorem matchTopic_of_nodup [DecidableEq T] {adds : List (Bytes × T)} {topic : Bytes}
    (once : (adds.map Prod.snd).Nodup) (dst : List T) :
    (ofAdds adds).matchTopic topic dst = dst ++ matching adds topic := by
  have nodup : (matching adds topic).Nodup := once.sublist (List.filter_sublist.map Prod.snd)
  rw [matchTopic_eq_foldl, foldl_collect_ofAdds, eraseDups_of_nodup nodup]

/-- The topic trie implements AMQP topic matching: `Match` leaves `dst` in front and
appends, once each and in the order of the first contributing call, the values of the
calls whose pattern matches. -/
theorem matchTopic_ofAdds [DecidableEq T] (adds : List (Bytes × T)) (topic : Bytes)
    (dst : List T) :
    (ofAdds adds).matchTopic topic dst = dst ++ (matching adds topic).eraseDups := by
  rw [matchTopic_eq_foldl, foldl_collect_ofAdds]

end Trie
end Protobus.Topic
