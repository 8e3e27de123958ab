import Protobus.Topic.Match

/-!
# The subscription trie

A node has one child per literal word and at most one each for `*` and `#`; the values
of a pattern sit on the node where the pattern ends. Every `add` retains an entry, so the
sequence counter can never reach the end of a 64-bit integer and is a natural number here.
-/
namespace Protobus.Topic
open Library

structure Entry (T : Type) where
  v : T
  seq : Nat
deriving DecidableEq

/-- A word that a pattern takes literally. Only such words ever become keys of
`children`: `child` sends the two wildcards elsewhere. -/
abbrev Literal := { w : Bytes // w ≠ star ∧ w ≠ hash }

/-- `children` is Go's map from words to nodes, and `star` and `hash` are its two pointers,
which may be nil. -/
inductive Node (T : Type) where
  | mk (children : List (Literal × Node T)) (star hash : Option (Node T))
      (values : List (Entry T))

namespace Node
variable {T : Type}

def empty : Node T := ⟨[], none, none, []⟩
def children : Node T → List (Literal × Node T) | ⟨c, _, _, _⟩ => c
def starNode : Node T → Option (Node T) | ⟨_, s, _, _⟩ => s
def hashNode : Node T → Option (Node T) | ⟨_, _, h, _⟩ => h
def values : Node T → List (Entry T) | ⟨_, _, _, v⟩ => v

/-- Go's `n.children[word]`, for any word: a wildcard is not a key of the map. -/
def literal? (n : Node T) (word : Bytes) : Option (Node T) :=
  if h : word ≠ star ∧ word ≠ hash then n.children.lookup ⟨word, h⟩ else none

/-- The node below `n` that `word` of a pattern leads to, if there is one. -/
def child? (n : Node T) (word : Bytes) : Option (Node T) :=
  if word = star then n.starNode
  else if word = hash then n.hashNode
  else n.literal? word

/-- Go's `child`: the node `word` leads to, made on the spot when there is none. -/
def child (n : Node T) (word : Bytes) : Node T := (n.child? word).getD empty

/-- Store under a key of an association list, in place when the key is there. -/
def put (word : Literal) (c : Node T) : List (Literal × Node T) → List (Literal × Node T)
  | [] => [(word, c)]
  | (w, n) :: rest => if w = word then (w, c) :: rest else (w, n) :: put word c rest

/-- Write back the node that `child` returned a pointer to. -/
def setChild (n : Node T) (word : Bytes) (c : Node T) : Node T :=
  if hs : word = star then ⟨n.children, some c, n.hashNode, n.values⟩
  else if hh : word = hash then ⟨n.children, n.starNode, some c, n.values⟩
  else ⟨put ⟨word, hs, hh⟩ c n.children, n.starNode, n.hashNode, n.values⟩

/-- The walk of `Add` from a node, down to the append at the end of the pattern. -/
def addEntry : List Bytes → Entry T → Node T → Node T
  | [], e, n => ⟨n.children, n.starNode, n.hashNode, n.values ++ [e]⟩
  | word :: words, e, n => n.setChild word (addEntry words e (n.child word))

theorem sizeOf_starNode_lt {n c : Node T} (h : n.starNode = some c) : sizeOf c < sizeOf n := by
  obtain ⟨k, s, g, v⟩ := n
  change s = some c at h
  subst h
  simp
  omega

theorem sizeOf_hashNode_lt {n c : Node T} (h : n.hashNode = some c) : sizeOf c < sizeOf n := by
  obtain ⟨k, s, g, v⟩ := n
  change g = some c at h
  subst h
  simp
  omega

theorem sizeOf_lookup_lt {w : Literal} {c : Node T} {l : List (Literal × Node T)}
    (h : l.lookup w = some c) : sizeOf c < sizeOf l := by
  induction l with
  | nil => simp at h
  | cons x l ih =>
    obtain ⟨u, n⟩ := x
    rw [List.lookup_cons] at h
    split at h
    · cases h
      simp
      omega
    · have := ih h
      simp
      omega

theorem sizeOf_literal_lt {n c : Node T} {w : Bytes} (h : n.literal? w = some c) :
    sizeOf c < sizeOf n := by
  obtain ⟨k, s, g, v⟩ := n
  unfold literal? at h
  split at h
  · have : sizeOf c < sizeOf k := sizeOf_lookup_lt h
    simp
    omega
  · cases h

/-- What `collect` appends to `found`, in the order it appends it. -/
def collect (n : Node T) (words : List Bytes) : List (Entry T) :=
  match words with
  | [] =>
    -- a trailing `#` matches zero further words
    n.values ++ (match h : n.hashNode with
      | none => []
      | some c =>
        have := sizeOf_hashNode_lt h
        c.collect [])
  | w :: ws =>
    (match h : n.literal? w with
      | none => []
      | some c =>
        have := sizeOf_literal_lt h
        c.collect ws) ++
    (match h : n.starNode with
      | none => []
      | some c =>
        have := sizeOf_starNode_lt h
        c.collect ws) ++
    (match h : n.hashNode with
      | none => []
      | some c =>
        have := sizeOf_hashNode_lt h
        (List.range ((w :: ws).length + 1)).flatMap (fun i => c.collect ((w :: ws).drop i)))
termination_by sizeOf n

end Node

structure Trie (T : Type) where
  root : Node T
  seq : Nat

namespace Trie
variable {T : Type}

def new : Trie T := ⟨.empty, 0⟩

def add (t : Trie T) (pattern : Bytes) (v : T) : Trie T :=
  ⟨Node.addEntry (splitDots pattern) ⟨v, t.seq + 1⟩ t.root, t.seq + 1⟩

/-- `Match`. Entries with equal sequence numbers are the same entry, reached by several
splits at a `#`, so it does not matter that Go's sort is not stable. -/
def matchTopic [DecidableEq T] (t : Trie T) (topic : Bytes) (dst : List T) : List T :=
  let found := t.root.collect (splitDots topic)
  if found.length = 0 then dst
  else
    (found.mergeSort (fun a b => decide (a.seq ≤ b.seq))).foldl
      (fun acc e => if (acc.drop dst.length).contains e.v then acc else acc ++ [e.v]) dst

end Trie
end Protobus.Topic
