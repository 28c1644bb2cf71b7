/-
AsyncVault/Lib/MerkleTree.lean

Binary hash trees built level by level, over an arbitrary node function.

A level is paired off from the left, an odd last entry with itself, and the
pairs' nodes are the next level; the root is the single entry of the last one.
A proof is the list of siblings met on the way up from a leaf, and climbing
folds the node function over it.

* `climb_path` — for a commutative node function every leaf of a level has a
  path, and climbing it gives the root;
* `length_levels_le` — at most `2 ^ k` leaves make at most `k + 1` levels;
* `mem_of_climb` — *soundness*: a climb of any length that ends inside the tree
  started at one of its leaves.  The node function is asked to be injective (up
  to the order of its arguments) only on the pairs that were really joined, and
  leaves not to be nodes; `joins` and `climbs` list those pairs.
-/
import Mathlib.Algebra.Group.Nat.Defs
import Mathlib.Data.List.Basic
import Mathlib.Data.List.Induction
import Mathlib.Data.Prod.Basic
import Mathlib.Tactic.Common

namespace MerkleTree

variable {D E : Type*} {node : D → D → D} {level : List D} {a : D} {i k fuel : ℕ}

/-! ### Levels -/

/-- The entries two by two; an odd last one is paired with itself. -/
def pairs : List D → List (D × D)
  | [] => []
  | [a] => [(a, a)]
  | a :: b :: rest => (a, b) :: pairs rest

def nextLevel (node : D → D → D) (level : List D) : List D :=
  (pairs level).map fun p => node p.1 p.2

/-- All levels from `level` up, while there is more than one entry. -/
def levels (node : D → D → D) : ℕ → List D → List (List D)
  | 0, level => [level]
  | fuel + 1, level =>
    if 1 < level.length then level :: levels node fuel (nextLevel node level) else [level]

/-- The first entry of the last level. -/
def rootOf (levels : List (List D)) : Option D := levels.getLast?.bind List.head?

theorem length_pairs (level : List D) : (pairs level).length = (level.length + 1) / 2 := by
  induction level using pairs.induct with
  | case1 => simp [pairs]
  | case2 a => simp [pairs]
  | case3 a b rest ih =>
    simp only [pairs, List.length_cons, ih]
    omega

@[simp] theorem length_nextLevel (node : D → D → D) (level : List D) :
    (nextLevel node level).length = (level.length + 1) / 2 := by
  rw [nextLevel, List.length_map, length_pairs]

theorem levels_ne_nil (node : D → D → D) (fuel : ℕ) (level : List D) :
    levels node fuel level ≠ [] := by
  cases fuel with
  | zero => simp [levels]
  | succ fuel =>
    rw [levels]
    split <;> simp

theorem levels_of_one_lt (h : 1 < level.length) :
    levels node (fuel + 1) level = level :: levels node fuel (nextLevel node level) := by
  rw [levels, if_pos h]

theorem levels_of_le_one (h : level.length ≤ 1) : levels node fuel level = [level] := by
  cases fuel with
  | zero => rfl
  | succ fuel => rw [levels, if_neg (by omega)]

theorem dropLast_cons_levels :
    (level :: levels node fuel (nextLevel node level)).dropLast
      = level :: (levels node fuel (nextLevel node level)).dropLast :=
  List.dropLast_cons_of_ne_nil (levels_ne_nil node fuel (nextLevel node level))

theorem rootOf_cons_levels :
    rootOf (level :: levels node fuel (nextLevel node level))
      = rootOf (levels node fuel (nextLevel node level)) := by
  rw [rootOf, rootOf, List.getLast?_cons]
  obtain ⟨l, hl⟩ := Option.ne_none_iff_exists'.1
    (mt List.getLast?_eq_none_iff.1 (levels_ne_nil node fuel (nextLevel node level)))
  rw [hl]
  rfl

/-- At most `2 ^ k` leaves make at most `k + 1` levels. -/
theorem length_levels_le (h : level.length ≤ 2 ^ k) :
    (levels node fuel level).length ≤ k + 1 := by
  induction fuel generalizing level k with
  | zero => simp [levels]
  | succ fuel ih =>
    by_cases hone : 1 < level.length
    · obtain ⟨j, rfl⟩ : ∃ j, k = j + 1 := by
        cases k with
        | zero => simp at h; omega
        | succ j => exact ⟨j, rfl⟩
      rw [levels_of_one_lt hone, List.length_cons, Nat.add_le_add_iff_right]
      apply ih
      rw [length_nextLevel]
      rw [Nat.pow_succ] at h
      omega
    · rw [levels_of_le_one (by omega)]
      simp

/-! ### Paths -/

/-- The entry paired with the `i`-th of a level. -/
def sibling (level : List D) (i : ℕ) : Option D :=
  if i % 2 = 0 then level[i]?.map fun own => level[i + 1]?.getD own else level[i - 1]?

/-- The siblings on the way up from the `i`-th entry through the given levels. -/
def path : List (List D) → ℕ → Option (List D)
  | [], _ => some []
  | level :: rest, i => do
    let s ← sibling level i
    let p ← path rest (i / 2)
    pure (s :: p)

theorem length_of_path {ls : List (List D)} {p : List D} (h : path ls i = some p) :
    p.length = ls.length := by
  induction ls generalizing i p with
  | nil =>
    obtain rfl : [] = p := by simpa [path] using h
    rfl
  | cons level rest ih =>
    simp only [path, Option.bind_eq_bind, Option.bind_eq_some_iff, Option.pure_def,
      Option.some.injEq] at h
    obtain ⟨s, -, q, hq, rfl⟩ := h
    rw [List.length_cons, List.length_cons, ih hq]

/-- The parent of an entry joins it with its sibling, on one side or the other. -/
theorem exists_sibling (h : level[i]? = some a) :
    ∃ s, sibling level i = some s ∧ ((pairs level)[i / 2]? = some (a, s) ∨
      (pairs level)[i / 2]? = some (s, a)) := by
  induction level using pairs.induct generalizing i with
  | case1 => simp at h
  -- a last entry without a partner is its own sibling
  | case2 b =>
    obtain rfl : i = 0 := by
      have := (List.getElem?_eq_some_iff.1 h).1
      simpa using this
    obtain rfl : b = a := by simpa using h
    exact ⟨b, rfl, .inl rfl⟩
  | case3 b c rest ih =>
    match i with
    | 0 =>
      obtain rfl : b = a := by simpa using h
      exact ⟨c, rfl, .inl rfl⟩
    | 1 =>
      obtain rfl : c = a := by simpa using h
      exact ⟨b, rfl, .inr rfl⟩
    | i + 2 =>
      -- further on, the pairs of the rest are one place down
      obtain ⟨s, hs, hpair⟩ := ih h
      have hhalf : (i + 2) / 2 = i / 2 + 1 := by omega
      refine ⟨s, ?_, ?_⟩
      · rw [← hs]
        by_cases hi : i % 2 = 0
        · simp [sibling, hi]
        · obtain ⟨j, rfl⟩ : ∃ j, i = j + 1 := ⟨i - 1, by omega⟩
          have : (j + 1 + 2) % 2 ≠ 0 := by omega
          simp [sibling, hi]
      · rw [hhalf]
        exact hpair

/-- **Every leaf has a path, and climbing it gives the root.** -/
theorem climb_path (comm : ∀ a b, node a b = node b a) (hfuel : level.length ≤ fuel + 1)
    (h : level[i]? = some a) :
    ∃ p, path (levels node fuel level).dropLast i = some p ∧
      rootOf (levels node fuel level) = some (p.foldl node a) := by
  induction fuel generalizing level i a with
  | zero =>
    have hlen : level.length = 1 := by
      have := (List.getElem?_eq_some_iff.1 h).1
      omega
    obtain ⟨b, rfl⟩ := List.length_eq_one_iff.1 hlen
    obtain rfl : i = 0 := by
      have := (List.getElem?_eq_some_iff.1 h).1
      simpa using this
    obtain rfl : b = a := by simpa using h
    exact ⟨[], rfl, rfl⟩
  | succ fuel ih =>
    by_cases hone : 1 < level.length
    · obtain ⟨s, hs, hpair⟩ := exists_sibling h
      -- whichever side the entry is on, its parent is the node of the two
      have hparent : (nextLevel node level)[i / 2]? = some (node a s) := by
        rw [nextLevel, List.getElem?_map]
        rcases hpair with hp | hp
        · rw [hp]
          rfl
        · rw [hp, Option.map_some, comm]
      obtain ⟨p, hp, hroot⟩ := ih (by rw [length_nextLevel]; omega) hparent
      refine ⟨s :: p, ?_, ?_⟩
      · rw [levels_of_one_lt hone, dropLast_cons_levels]
        simp [path, hs, hp]
      · rw [levels_of_one_lt hone, rootOf_cons_levels, hroot]
        rfl
    · have hlen : level.length = 1 := by
        have := (List.getElem?_eq_some_iff.1 h).1
        omega
      obtain ⟨b, rfl⟩ := List.length_eq_one_iff.1 hlen
      obtain rfl : i = 0 := by
        have := (List.getElem?_eq_some_iff.1 h).1
        simpa using this
      obtain rfl : b = a := by simpa using h
      rw [levels_of_le_one (by simp)]
      exact ⟨[], rfl, rfl⟩

/-! ### Soundness -/

/-- The pairs joined while the tree is built. -/
def joins (node : D → D → D) (fuel : ℕ) (level : List D) : List (D × D) :=
  (levels node fuel level).dropLast.flatMap pairs

/-- The pairs joined while climbing a proof from a leaf. -/
def climbs (node : D → D → D) : D → List D → List (D × D)
  | _, [] => []
  | a, s :: p => (a, s) :: climbs node (node a s) p

theorem climbs_append (node : D → D → D) (a s : D) (p : List D) :
    climbs node a (p ++ [s]) = climbs node a p ++ [(p.foldl node a, s)] := by
  induction p generalizing a with
  | nil => rfl
  | cons t p ih =>
    show (a, t) :: climbs node (node a t) (p ++ [s]) = _
    rw [ih]
    rfl

theorem mem_of_mem_pairs {p : D × D} (h : p ∈ pairs level) : p.1 ∈ level ∧ p.2 ∈ level := by
  induction level using pairs.induct with
  | case1 => simp [pairs] at h
  | case2 a => simp_all [pairs]
  | case3 a b rest ih =>
    rcases List.mem_cons.1 h with rfl | h
    · simp
    · exact ⟨by simp [(ih h).1], by simp [(ih h).2]⟩

/-- An entry of the tree is a leaf, or the node of a joined pair whose two sides are entries. -/
theorem mem_levels {l : List D} (hl : l ∈ levels node fuel level) (ha : a ∈ l) :
    a ∈ level ∨ ∃ p ∈ joins node fuel level, a = node p.1 p.2 := by
  induction fuel generalizing level with
  | zero =>
    obtain rfl : l = level := by simpa [levels] using hl
    exact .inl ha
  | succ fuel ih =>
    by_cases hone : 1 < level.length
    · rw [levels_of_one_lt hone] at hl
      rw [joins, levels_of_one_lt hone, dropLast_cons_levels, List.flatMap_cons]
      rcases List.mem_cons.1 hl with rfl | hl
      · exact .inl ha
      · rcases ih hl with hnext | ⟨p, hp, rfl⟩
        · obtain ⟨p, hp, rfl⟩ := List.mem_map.1 hnext
          exact .inr ⟨p, List.mem_append_left _ hp, rfl⟩
        · exact .inr ⟨p, List.mem_append_right _ hp, rfl⟩
    · rw [levels_of_le_one (by omega)] at hl
      obtain rfl : l = level := by simpa using hl
      exact .inl ha

theorem mem_of_mem_joins {p : D × D} (hp : p ∈ joins node fuel level) :
    ∃ l ∈ levels node fuel level, p.1 ∈ l ∧ p.2 ∈ l := by
  obtain ⟨l, hl, hp⟩ := List.mem_flatMap.1 hp
  exact ⟨l, List.dropLast_subset _ hl, mem_of_mem_pairs hp⟩

theorem mem_of_rootOf {r : D} (h : rootOf (levels node fuel level) = some r) :
    ∃ l ∈ levels node fuel level, r ∈ l := by
  obtain ⟨l, hl, hr⟩ := Option.bind_eq_some_iff.1 h
  exact ⟨l, List.mem_of_getLast? hl, List.mem_of_head? hr⟩

/-- **A climb that ends inside the tree started at a leaf of it.** -/
theorem mem_of_climb {proof : List D}
    (hleaf : ∀ q ∈ joins node fuel level, a ≠ node q.1 q.2)
    (hleaves : ∀ b ∈ level, ∀ p ∈ climbs node a proof, b ≠ node p.1 p.2)
    (hinj : ∀ p ∈ climbs node a proof, ∀ q ∈ joins node fuel level,
      node p.1 p.2 = node q.1 q.2 → p = q ∨ p = q.swap)
    (hend : ∃ l ∈ levels node fuel level, proof.foldl node a ∈ l) : a ∈ level := by
  -- the last step of the climb is undone first: its node must have been joined in the tree
  induction proof using List.reverseRecOn with
  | nil =>
    obtain ⟨l, hl, ha⟩ := hend
    rcases mem_levels hl ha with h | ⟨q, hq, e⟩
    · exact h
    · exact absurd e (hleaf q hq)
  | append_singleton proof s ih =>
    rw [climbs_append] at hleaves hinj
    obtain ⟨l, hl, ha⟩ := hend
    rw [List.foldl_append] at ha
    have hlast : (proof.foldl node a, s) ∈ climbs node a proof ++ [(proof.foldl node a, s)] := by
      simp
    apply ih
    · intro b hb p hp
      exact hleaves b hb p (List.mem_append_left _ hp)
    · intro p hp
      exact hinj p (List.mem_append_left _ hp)
    · rcases mem_levels hl ha with h | ⟨q, hq, e⟩
      · exact absurd rfl (hleaves _ h _ hlast)
      · obtain ⟨l', hl', h₁, h₂⟩ := mem_of_mem_joins hq
        refine ⟨l', hl', ?_⟩
        rcases hinj _ hlast q hq e with hpq | hpq
        · rw [show proof.foldl node a = q.1 from congrArg Prod.fst hpq]
          exact h₁
        · rw [show proof.foldl node a = q.2 from congrArg Prod.fst hpq]
          exact h₂

/-! ### Representations -/

variable {f : D → E} {node' : E → E → E}

theorem pairs_map (f : D → E) (level : List D) :
    pairs (level.map f) = (pairs level).map (Prod.map f f) := by
  induction level using pairs.induct with
  | case1 => rfl
  | case2 a => rfl
  | case3 a b rest ih =>
    show (f a, f b) :: pairs (rest.map f) = _
    rw [ih]
    rfl

theorem sibling_map (f : D → E) (level : List D) (i : ℕ) :
    sibling (level.map f) i = (sibling level i).map f := by
  rw [sibling, sibling]
  split
  · rw [List.getElem?_map, List.getElem?_map]
    cases level[i]? with
    | none => rfl
    | some own => cases level[i + 1]? <;> rfl
  · rw [List.getElem?_map]

theorem path_map (f : D → E) (ls : List (List D)) (i : ℕ) :
    path (ls.map (List.map f)) i = (path ls i).map (List.map f) := by
  induction ls generalizing i with
  | nil => rfl
  | cons level rest ih =>
    rw [List.map_cons, path, path, sibling_map, ih]
    cases sibling level i with
    | none => rfl
    | some s => cases path rest (i / 2) <;> rfl

theorem rootOf_map (f : D → E) (ls : List (List D)) :
    rootOf (ls.map (List.map f)) = (rootOf ls).map f := by
  rw [rootOf, rootOf, List.getLast?_map]
  cases ls.getLast? with
  | none => rfl
  | some last => exact List.head?_map

end MerkleTree
