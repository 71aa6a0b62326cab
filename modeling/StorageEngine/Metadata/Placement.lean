import Mathlib.Algebra.BigOperators.Group.Finset.Basic
import Mathlib.Algebra.Order.Monoid.NatCast
import StorageEngine.Lib.RoundRobin
import StorageEngine.Lib.SortedPrefix
import StorageEngine.Metadata.Selection

/-!
# Where chunks are placed

What the three strategies of `select_nodes` achieve.

* `selectNodes_sound`: least-used and random selection pick distinct online nodes, as many
  as there are up to the count, and those of least-used selection have the fewest chunks.
* `roundRobin_fair`: over any calls, one after another, round robin picks every online node
  equally often, up to one.
* `selectNodes_covers` and `selectNodes_different`: how many different nodes a selection has,
  whatever the strategy.
-/

namespace StorageEngine.MetadataStore

open Lib

section Taken

variable {s : MetadataStore} {order : NodeOrder} {count : UInt32}
  {strategy : LoadBalanceStrategy}

/-- The node is registered and online. -/
def Online (s : MetadataStore) (node : NodeInfo) : Prop :=
  s.nodes.find node.id = some node ∧ node.online = true

theorem mem_arranged (h : order.Possible s strategy) {node : NodeInfo} :
    node ∈ order.arranged ↔ s.Online node := by
  rw [h.perm.mem_iff, List.mem_filter, h.visits.2]
  rfl

/-- No other choice of so many online nodes has fewer chunks. -/
theorem selectNodes_least (h : order.Possible s .leastUsed) (other : Finset NodeInfo)
    (honline : ∀ node ∈ other, s.Online node)
    (hcard : other.card = (selectNodes order s count .leastUsed).1.length) :
    ((selectNodes order s count .leastUsed).1.map fun node => node.chunkCount.toNat).sum ≤
      ∑ node ∈ other, node.chunkCount.toNat := by
  have hsorted : order.arranged.Pairwise fun a b => a.chunkCount.toNat ≤ b.chunkCount.toNat :=
    (h.sorted rfl).imp UInt64.le_iff_toNat_le.mp
  have hchosen : other.toList.Subperm order.arranged := by
    apply List.subperm_of_subset other.nodup_toList
    intro node hnode
    rw [mem_arranged h]
    exact honline node (Finset.mem_toList.mp hnode)
  have htake : (selectNodes order s count .leastUsed).1 =
      order.arranged.take other.toList.length := by
    rw [Finset.length_toList, hcard, selectNodes_taken h (by simp), List.length_take,
      ← List.take_eq_take_min]
  rw [htake, ← Finset.sum_map_toList]
  exact sum_take_le hsorted hchosen

/-- Least-used and random selection return as many nodes as are asked for, or all that are
online.  They are distinct and online, and under least-used no other choice of so many
online nodes has fewer chunks. -/
theorem selectNodes_sound (h : order.Possible s strategy) (hstrategy : strategy ≠ .roundRobin) :
    let selected := (selectNodes order s count strategy).1
    selected.length = min count.toNat s.nodes.onlineIds.card ∧
      (selected.map NodeInfo.id).Nodup ∧ (∀ node ∈ selected, s.Online node) ∧
      (strategy = .leastUsed → ∀ other : Finset NodeInfo, (∀ node ∈ other, s.Online node) →
        other.card = selected.length →
        (selected.map fun node => node.chunkCount.toNat).sum ≤
          ∑ node ∈ other, node.chunkCount.toNat) := by
  refine ⟨selectNodes_length h hstrategy, selectNodes_ids_nodup h (absurd · hstrategy),
    fun node hnode => selectNodes_online h hnode, ?_⟩
  intro hleast
  subst hleast
  exact selectNodes_least h

end Taken

/-- Two nodes, of which the second has fewer chunks. -/
private def twoNodes : MetadataStore :=
  { nodes := (NodeTable.empty.set { id := str "n1", online := true, chunkCount := 5 }).set
      { id := str "n2", online := true, chunkCount := 2 } }

private theorem twoNodes_online :
    twoNodes.Online { id := str "n2", online := true, chunkCount := 2 } :=
  ⟨by simp [twoNodes], rfl⟩

/-- Of two nodes with five and two chunks, the one with two is selected. -/
theorem selectNodes_sound_two_nodes : ∃ s order, order.Possible s .leastUsed ∧
    s.nodes.onlineIds.card = 2 ∧
    ((selectNodes order s 1 .leastUsed).1.map fun node => node.chunkCount.toNat).sum ≤ 2 := by
  obtain ⟨order, horder⟩ := exists_possible twoNodes .leastUsed
  have hcard : twoNodes.nodes.onlineIds.card = 2 := by decide
  obtain ⟨hlength, -, -, hleast⟩ := @selectNodes_sound _ _ 1 _ horder (by simp)
  have hbest := hleast rfl {{ id := str "n2", online := true, chunkCount := 2 }}
  rw [hlength, hcard, Finset.card_singleton, Finset.sum_singleton] at hbest
  refine ⟨twoNodes, order, horder, hcard, hbest ?_ rfl⟩
  simp [twoNodes_online]

/-! ## Round robin -/

section RoundRobin

variable {s : MetadataStore} {order : NodeOrder}

/-- Calls with these counts, one after another.  The table does not change, so every loop
over it meets the nodes in the same order. -/
def selectRounds (order : NodeOrder) : List UInt32 → MetadataStore → List NodeInfo × MetadataStore
  | [], s => ([], s)
  | count :: counts, s =>
    let first := selectNodes order s count .roundRobin
    let rest := selectRounds order counts first.2
    (first.1 ++ rest.1, rest.2)

/-- The picks of one call, as long as the counter does not wrap around. -/
theorem roundRobinPick_eq_goRound (online : List NodeInfo) {n : ℕ} {index : UInt64}
    (hwrap : index.toNat + n ≤ 2 ^ 64) :
    roundRobinPick online n index = goRound online {} index.toNat n := by
  rw [roundRobinPick_eq, goRound]
  apply List.map_congr_left
  intro i hi
  rw [List.mem_range] at hi
  rw [Nat.mod_eq_of_lt (show index.toNat + i < 2 ^ 64 by omega)]

/-- The counter carries over from one call to the next, so the calls pick like one loop. -/
theorem selectRounds_eq (hne : order.visited.filter NodeInfo.online ≠ []) (counts : List UInt32)
    (hwrap : s.roundRobinIndex.toNat + (counts.map UInt32.toNat).sum ≤ 2 ^ 64) :
    (selectRounds order counts s).1 =
      goRound (order.visited.filter NodeInfo.online) {} s.roundRobinIndex.toNat
        (counts.map UInt32.toNat).sum := by
  induction counts generalizing s with
  | nil => rfl
  | cons count counts ih =>
    simp only [List.map_cons, List.sum_cons] at hwrap ⊢
    simp only [selectRounds, selectNodes, if_neg hne]
    have hindex : (s.roundRobinIndex + count.toUInt64).toNat =
        (s.roundRobinIndex.toNat + count.toNat) % 2 ^ 64 := by
      rw [UInt64.toNat_add, UInt32.toNat_toUInt64]
    have hrest := @ih { s with roundRobinIndex := s.roundRobinIndex + count.toUInt64 }
    rw [roundRobinPick_eq_goRound _ (by omega), ← goRound_append]
    congr 1
    rw [hrest (by dsimp only; omega)]
    dsimp only
    rcases Nat.lt_or_ge (s.roundRobinIndex.toNat + count.toNat) (2 ^ 64) with hlt | hge
    · rw [hindex, Nat.mod_eq_of_lt hlt]
    · -- the counter is at its end, and nothing more is picked
      have hnone : (counts.map UInt32.toNat).sum = 0 := by omega
      rw [hnone]
      rfl

theorem selectRounds_none (hnil : order.visited.filter NodeInfo.online = [])
    (counts : List UInt32) : (selectRounds order counts s).1 = [] := by
  induction counts generalizing s with
  | nil => rfl
  | cons count counts ih =>
    simp only [selectRounds, selectNodes, hnil, if_true]
    exact ih

/-- Over any calls, one after another, two online nodes are picked equally often, up to
one, and no other node is picked. -/
theorem roundRobin_fair (horder : order.Possible s .roundRobin) (counts : List UInt32)
    (hwrap : s.roundRobinIndex.toNat + (counts.map UInt32.toNat).sum ≤ 2 ^ 64) :
    let selected := (selectRounds order counts s).1
    (∀ node ∈ selected, s.Online node) ∧
      ∀ a b, s.Online a → s.Online b → selected.count a ≤ selected.count b + 1 := by
  have hmem : ∀ node, node ∈ order.visited.filter NodeInfo.online ↔ s.Online node := by
    intro node
    rw [List.mem_filter, horder.visits.2]
    rfl
  dsimp only
  by_cases hnil : order.visited.filter NodeInfo.online = []
  · rw [selectRounds_none hnil]
    simp
  · rw [selectRounds_eq hnil counts hwrap]
    constructor
    · intro node hnode
      exact (hmem node).mp (goRound_subset hnil _ _ _ hnode)
    · intro a b ha hb
      exact goRound_fair (horder.visits.1.filter _) _ _ _ ((hmem a).mpr ha) ((hmem b).mpr hb)

/-- Two nodes, and calls for one, two and two nodes: no node is selected more than once more
often than the other. -/
theorem roundRobin_fair_two_nodes : ∃ s order a b, order.Possible s .roundRobin ∧
    a ≠ b ∧ s.Online a ∧ s.Online b ∧
    (selectRounds order [1, 2, 2] s).1.count a ≤
      (selectRounds order [1, 2, 2] s).1.count b + 1 := by
  obtain ⟨order, horder⟩ := exists_possible twoNodes .roundRobin
  have honline : twoNodes.Online { id := str "n1", online := true, chunkCount := 5 } :=
    ⟨by decide, rfl⟩
  exact ⟨twoNodes, order, _, _, horder, by decide, honline, twoNodes_online,
    (roundRobin_fair horder [1, 2, 2] (by decide)).2 _ _ honline twoNodes_online⟩

end RoundRobin

/-! ## How many different nodes -/

section Different

variable {s : MetadataStore} {order : NodeOrder} {count : UInt32} {strategy : LoadBalanceStrategy}

/-- Round robin goes round the online nodes. -/
theorem selectNodes_round (hne : order.visited.filter NodeInfo.online ≠ [])
    (hwrap : s.roundRobinIndex.toNat + count.toNat ≤ 2 ^ 64) :
    (selectNodes order s count .roundRobin).1 =
      goRound (order.visited.filter NodeInfo.online) {} s.roundRobinIndex.toNat count.toNat := by
  rw [selectNodes]
  simp only [if_neg hne]
  exact roundRobinPick_eq_goRound _ hwrap

/-- Different nodes of a selection have different ids. -/
theorem nodup_ids_of_sublist (h : order.Possible s strategy) {part : List NodeInfo}
    (hsub : part.Sublist (selectNodes order s count strategy).1) (hnodup : part.Nodup) :
    (part.map NodeInfo.id).Nodup := by
  apply List.Nodup.map_on _ hnodup
  intro a ha b hb hid
  have hfind := (selectNodes_online h (hsub.subset ha)).1
  rw [hid, (selectNodes_online h (hsub.subset hb)).1] at hfind
  exact (Option.some.inj hfind).symm

/-- Some of the selected nodes are different, as many as there are online up to the count. -/
theorem exists_different (h : order.Possible s strategy)
    (hwrap : strategy = .roundRobin → s.roundRobinIndex.toNat + count.toNat ≤ 2 ^ 64) :
    ∃ part : List NodeInfo, part.Sublist (selectNodes order s count strategy).1 ∧
      part.Nodup ∧ part.length = min count.toNat s.nodes.onlineIds.card := by
  have hvisited : (order.visited.filter NodeInfo.online).Nodup := h.visits.1.filter _
  by_cases hstrategy : strategy = .roundRobin
  · subst hstrategy
    have hcard := h.visits.length_online
    by_cases hnil : order.visited.filter NodeInfo.online = []
    · rw [hnil, List.length_nil] at hcard
      exact ⟨[], List.nil_sublist _, List.nodup_nil, by simp [← hcard]⟩
    · rw [selectNodes_round hnil (hwrap rfl)]
      -- the first picks, up to one round
      let first := min count.toNat s.nodes.onlineIds.card
      have hsplit := goRound_append (order.visited.filter NodeInfo.online) {}
        s.roundRobinIndex.toNat first (count.toNat - first)
      rw [Nat.add_sub_cancel' (Nat.min_le_left _ _)] at hsplit
      refine ⟨goRound (order.visited.filter NodeInfo.online) {} s.roundRobinIndex.toNat first,
        ?_, goRound_nodup hvisited _ _ (hcard ▸ Nat.min_le_right _ _), by simp [goRound, first]⟩
      rw [← hsplit]
      exact List.sublist_append_left _ _
  · refine ⟨_, List.Sublist.refl _, ?_, selectNodes_length h hstrategy⟩
    rw [selectNodes_taken h hstrategy]
    exact (h.perm.nodup_iff.mpr hvisited).sublist (List.take_sublist _ _)

theorem selectNodes_covers (h : order.Possible s strategy)
    (hwrap : strategy = .roundRobin → s.roundRobinIndex.toNat + count.toNat ≤ 2 ^ 64) :
    min count.toNat s.nodes.onlineIds.card ≤
      ((selectNodes order s count strategy).1.map NodeInfo.id).toFinset.card := by
  obtain ⟨part, hsub, hnodup, hlength⟩ := exists_different h hwrap
  have hids := nodup_ids_of_sublist h hsub hnodup
  rw [← hlength, ← List.length_map (f := NodeInfo.id), ← List.toFinset_card_of_nodup hids]
  apply Finset.card_le_card
  intro id hid
  rw [List.mem_toFinset] at hid ⊢
  exact (hsub.map _).subset hid

/-- A selection of no more nodes than there are has no node twice. -/
theorem selectNodes_different (h : order.Possible s strategy)
    (hwrap : strategy = .roundRobin → s.roundRobinIndex.toNat + count.toNat ≤ 2 ^ 64)
    (hcount : strategy = .roundRobin → count.toNat ≤ s.nodes.onlineIds.card) :
    ((selectNodes order s count strategy).1.map NodeInfo.id).Nodup := by
  obtain ⟨part, hsub, hnodup, hlength⟩ := exists_different h hwrap
  have hwhole : part = (selectNodes order s count strategy).1 := by
    apply hsub.eq_of_length_le
    rw [hlength]
    by_cases hstrategy : strategy = .roundRobin
    · rw [Nat.min_eq_left (hcount hstrategy)]
      exact selectNodes_length_le
    · exact Nat.le_of_eq (selectNodes_length h hstrategy)
  rw [← hwhole]
  exact nodup_ids_of_sublist h hsub hnodup

/-- A selection moves the round-robin counter by its count at most. -/
theorem selectNodes_index_le (order : NodeOrder) (s : MetadataStore) (count : UInt32)
    (strategy : LoadBalanceStrategy) :
    (selectNodes order s count strategy).2.roundRobinIndex.toNat ≤
      s.roundRobinIndex.toNat + count.toNat := by
  unfold selectNodes
  dsimp only
  split
  · exact Nat.le_add_right _ _
  · cases strategy with
    | roundRobin =>
      rw [UInt64.toNat_add, UInt32.toNat_toUInt64]
      exact Nat.mod_le _ _
    | leastUsed => simp
    | random => simp

end Different

end StorageEngine.MetadataStore
