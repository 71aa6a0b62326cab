import StorageEngine.Metadata.Store
import Mathlib.Data.Finset.Card
import Mathlib.Data.List.Nodup
import Mathlib.Data.List.Perm.Subperm

/-!
# Which nodes are selected

`select_nodes` picks from the online nodes.  Under least-used and random a node
is picked at most once.  The round-robin loop goes round: it picks a node again
when it is asked for more nodes than are online, and also when its 64-bit
counter wraps around at a number of nodes that does not divide `2 ^ 64`.

* `roundRobinPick_nodup_iff`: when the loop picks distinct nodes, whatever its
  counter.
* `selectNodes_online` and `selectNodes_ids_nodup`: the nodes that a call
  selects.
* `exists_possible`: there is an order that a call can meet.
-/

namespace StorageEngine

/-! ## The online nodes -/

/-- The ids of the nodes that are online. -/
def NodeTable.onlineIds (t : NodeTable) : Finset Str :=
  t.entries.keys.filter fun id => ∃ node, t.find id = some node ∧ node.online = true

namespace NodeTable

theorem mem_onlineIds {t : NodeTable} {id : Str} :
    id ∈ t.onlineIds ↔ ∃ node, t.find id = some node ∧ node.online = true := by
  rw [onlineIds, Finset.mem_filter, Finmap.mem_keys]
  refine ⟨And.right, fun h => ⟨?_, h⟩⟩
  obtain ⟨node, hfind, -⟩ := h
  exact Finmap.mem_of_lookup_eq_some hfind

/-- A loop over the table meets as many online nodes as there are. -/
theorem Visits.length_online {t : NodeTable} {visited : List NodeInfo} (h : t.Visits visited) :
    (visited.filter NodeInfo.online).length = t.onlineIds.card := by
  have hnodup : ((visited.filter NodeInfo.online).map NodeInfo.id).Nodup :=
    h.ids_nodup.sublist (List.filter_sublist.map _)
  have hids : ((visited.filter NodeInfo.online).map NodeInfo.id).toFinset = t.onlineIds := by
    ext id
    rw [List.mem_toFinset, mem_onlineIds, List.mem_map]
    constructor
    · rintro ⟨node, hnode, rfl⟩
      obtain ⟨hvisited, honline⟩ := List.mem_filter.mp hnode
      exact ⟨node, (h.2 node).mp hvisited, honline⟩
    · rintro ⟨node, hfind, honline⟩
      have hid := find_id hfind
      refine ⟨node, List.mem_filter.mpr ⟨(h.2 node).mpr ?_, honline⟩, hid⟩
      rw [hid]
      exact hfind
  rw [← hids, List.toFinset_card_of_nodup hnodup, List.length_map]

/-- There is an order for a loop over the table. -/
theorem exists_visits (t : NodeTable) : ∃ visited, t.Visits visited := by
  have hkey : ∀ id ∈ t.entries.keys.toList, ∃ node, t.find id = some node := fun id hid =>
    Finmap.mem_iff.mp (Finmap.mem_keys.mp (Finset.mem_toList.mp hid))
  refine ⟨t.entries.keys.toList.filterMap t.find, ?_, fun node => ?_⟩
  · refine (Finset.nodup_toList _).filterMap fun a b node ha hb => ?_
    rw [← find_id ha, ← find_id hb]
  · rw [List.mem_filterMap]
    constructor
    · rintro ⟨id, -, hfind⟩
      rw [find_id hfind]
      exact hfind
    · intro hfind
      exact ⟨node.id, Finset.mem_toList.mpr (Finmap.mem_keys.mpr
        (Finmap.mem_of_lookup_eq_some hfind)), hfind⟩

end NodeTable

namespace MetadataStore

/-- There is an order for every call of `select_nodes`. -/
theorem exists_possible (s : MetadataStore) (strategy : LoadBalanceStrategy) :
    ∃ order : NodeOrder, order.Possible s strategy := by
  obtain ⟨visited, hvisits⟩ := s.nodes.exists_visits
  let byUse : NodeInfo → NodeInfo → Bool := fun a b => decide (a.chunkCount ≤ b.chunkCount)
  refine ⟨⟨visited, (visited.filter NodeInfo.online).mergeSort byUse⟩, hvisits,
    List.mergeSort_perm _ _, fun _ => ?_⟩
  have hsorted := @List.pairwise_mergeSort NodeInfo byUse
    (fun a b c hab hbc => decide_eq_true (UInt64.le_trans (of_decide_eq_true hab)
      (of_decide_eq_true hbc)))
    (fun a b => by simpa [byUse] using UInt64.le_total a.chunkCount b.chunkCount)
    (visited.filter NodeInfo.online)
  exact hsorted.imp fun h => of_decide_eq_true h

/-! ## Round robin -/

private theorem getD_of_lt {online : List NodeInfo} {k : ℕ} (hk : k < online.length) :
    online.getD k {} = online[k] := by
  rw [List.getD_eq_getElem?_getD, List.getElem?_eq_getElem hk]
  rfl

/-- The picks of the round-robin loop, by their positions. -/
theorem roundRobinPick_eq (online : List NodeInfo) (n : ℕ) (index : UInt64) :
    roundRobinPick online n index = (List.range n).map fun i =>
      online.getD ((index.toNat + i) % 2 ^ 64 % online.length) {} := by
  induction n generalizing index with
  | zero => rfl
  | succ n ih =>
    rw [roundRobinPick, ih, List.range_succ_eq_map, List.map_cons, List.map_map]
    have hindex : (index.toNat + 0) % 2 ^ 64 = index.toNat :=
      Nat.mod_eq_of_lt (UInt64.toNat_lt index)
    rw [hindex]
    refine congrArg _ (List.map_congr_left fun i _ => ?_)
    have hnext : (index + 1).toNat = (index.toNat + 1) % 2 ^ 64 := UInt64.toNat_add index 1
    have hsum : ((index + 1).toNat + i) % 2 ^ 64 = (index.toNat + (i + 1)) % 2 ^ 64 := by
      rw [hnext, Nat.mod_add_mod, Nat.add_right_comm, Nat.add_assoc]
    simp only [Function.comp_apply, hsum]

theorem roundRobinPick_length (online : List NodeInfo) (n : ℕ) (index : UInt64) :
    (roundRobinPick online n index).length = n := by
  rw [roundRobinPick_eq, List.length_map, List.length_range]

theorem roundRobinPick_subset {online : List NodeInfo} (hne : online ≠ []) (n : ℕ)
    (index : UInt64) : roundRobinPick online n index ⊆ online := by
  intro node hnode
  rw [roundRobinPick_eq, List.mem_map] at hnode
  obtain ⟨i, -, rfl⟩ := hnode
  have hlt := Nat.mod_lt ((index.toNat + i) % 2 ^ 64) (List.length_pos_of_ne_nil hne)
  rw [getD_of_lt hlt]
  exact List.getElem_mem hlt

/-- Two turns of the loop that are less than `n` apart pick different positions. -/
private theorem position_ne {N n : ℕ} (hn : n ≤ N)
    (hwrap : 2 ^ 64 % N = 0 ∨ n ≤ 2 ^ 64 % N) {c i j : ℕ} (hc : c < 2 ^ 64) (hij : i < j)
    (hj : j < n) (hsmall : n ≤ 2 ^ 64) :
    (c + i) % 2 ^ 64 % N ≠ (c + j) % 2 ^ 64 % N := by
  intro heq
  have hdiff : ∀ a b : ℕ, a ≤ b → b - a = j - i → a % N ≠ b % N := by
    intro a b hab hba hmod
    have hdvd := (Nat.modEq_iff_dvd' hab).mp hmod
    have hle := Nat.le_of_dvd (by omega) hdvd
    omega
  by_cases hi : c + i < 2 ^ 64
  · rw [Nat.mod_eq_of_lt hi] at heq
    by_cases hj' : c + j < 2 ^ 64
    · rw [Nat.mod_eq_of_lt hj'] at heq
      exact hdiff _ _ (by omega) (by omega) heq
    · -- the counter wraps around between the two turns
      rw [Nat.mod_eq_sub_mod (a := c + j) (by omega),
        Nat.mod_eq_of_lt (show c + j - 2 ^ 64 < 2 ^ 64 by omega)] at heq
      rcases hwrap with hzero | hle
      · have hshift : (c + j - 2 ^ 64) % N = (c + j) % N := by
          have hsum : c + j = c + j - 2 ^ 64 + 2 ^ 64 := by omega
          rw [hsum, Nat.add_mod, hzero, Nat.add_zero, Nat.mod_mod, ← hsum]
        rw [hshift] at heq
        exact hdiff _ _ (by omega) (by omega) heq
      · have hquot := Nat.div_add_mod (2 ^ 64) N
        have hbefore : (c + i) % N = 2 ^ 64 % N - (2 ^ 64 - (c + i)) := by
          have hsum : c + i = (2 ^ 64 % N - (2 ^ 64 - (c + i))) + N * (2 ^ 64 / N) := by omega
          have hlt : 2 ^ 64 % N - (2 ^ 64 - (c + i)) < N := by
            have := Nat.mod_lt (2 ^ 64) (show 0 < N by omega)
            omega
          rw [hsum, Nat.add_mul_mod_self_left, Nat.mod_eq_of_lt (by omega)]
          omega
        rw [hbefore, Nat.mod_eq_of_lt (show c + j - 2 ^ 64 < N by omega)] at heq
        omega
  · rw [Nat.mod_eq_sub_mod (a := c + i) (by omega), Nat.mod_eq_sub_mod (a := c + j) (by omega),
      Nat.mod_eq_of_lt (show c + i - 2 ^ 64 < 2 ^ 64 by omega),
      Nat.mod_eq_of_lt (show c + j - 2 ^ 64 < 2 ^ 64 by omega)] at heq
    exact hdiff _ _ (by omega) (by omega) heq

private theorem getD_inj {online : List NodeInfo} (hnodup : online.Nodup) {a b : ℕ}
    (ha : a < online.length) (hb : b < online.length)
    (h : online.getD a {} = online.getD b {}) : a = b := by
  rw [getD_of_lt ha, getD_of_lt hb] at h
  exact hnodup.getElem_inj_iff.mp h

/-- The round-robin loop picks distinct nodes from every counter value if and only if
there are enough nodes, and enough of them after the last full round before the
counter wraps around. -/
theorem roundRobinPick_nodup_iff {online : List NodeInfo} (hnodup : online.Nodup)
    (hne : online ≠ []) {n : ℕ} (hn : n ≤ 2 ^ 64) :
    (∀ index, (roundRobinPick online n index).Nodup) ↔
      n ≤ online.length ∧ (2 ^ 64 % online.length = 0 ∨ n ≤ 2 ^ 64 % online.length) := by
  have hpos := List.length_pos_of_ne_nil hne
  constructor
  · intro h
    refine ⟨?_, ?_⟩
    · have hsub := List.subperm_of_subset (h 0) (roundRobinPick_subset hne n 0)
      rw [← roundRobinPick_length online n 0]
      exact hsub.length_le
    · by_contra hwrap
      rw [not_or, Nat.not_le] at hwrap
      obtain ⟨hr, hlt⟩ := hwrap
      -- the turn at counter `2 ^ 64 - r` and the first one after the wrap pick position 0
      have hquot := Nat.div_add_mod (2 ^ 64) online.length
      have hfirst := h (UInt64.ofNat (2 ^ 64 - 2 ^ 64 % online.length))
      have hr64 : 2 ^ 64 - 2 ^ 64 % online.length < 2 ^ 64 := by omega
      rw [roundRobinPick_eq, UInt64.toNat_ofNat_of_lt' hr64] at hfirst
      have hinj := List.inj_on_of_nodup_map hfirst (List.mem_range.mpr (by omega : 0 < n))
        (List.mem_range.mpr hlt) ?_
      · exact hr hinj.symm
      · have hsum : 2 ^ 64 - 2 ^ 64 % online.length + 2 ^ 64 % online.length = 2 ^ 64 := by omega
        have hround :
            2 ^ 64 - 2 ^ 64 % online.length = online.length * (2 ^ 64 / online.length) := by
          omega
        rw [hsum, Nat.mod_self, Nat.zero_mod, Nat.add_zero, Nat.mod_eq_of_lt hr64, hround,
          Nat.mul_mod_right]
  · rintro ⟨hle, hwrap⟩ index
    rw [roundRobinPick_eq]
    refine List.Nodup.map_on (fun i hi j hj heq => ?_) List.nodup_range
    have hpos' := getD_inj hnodup (Nat.mod_lt _ hpos) (Nat.mod_lt _ hpos) heq
    have hc := UInt64.toNat_lt index
    rcases Nat.lt_trichotomy i j with hij | hij | hij
    · exact absurd hpos' (position_ne hle hwrap hc hij (List.mem_range.mp hj) hn)
    · exact hij
    · exact absurd hpos'.symm (position_ne hle hwrap hc hij (List.mem_range.mp hi) hn)

/-! ## The selected nodes -/

section Selected

variable {s : MetadataStore} {order : NodeOrder} {count : UInt32}
  {strategy : LoadBalanceStrategy}

/-- A selected node is registered and online. -/
theorem selectNodes_online (h : order.Possible s strategy) {node : NodeInfo}
    (hnode : node ∈ (selectNodes order s count strategy).1) :
    s.nodes.find node.id = some node ∧ node.online = true := by
  have hvisited : node ∈ order.visited.filter NodeInfo.online := by
    unfold selectNodes at hnode
    dsimp only at hnode
    split at hnode
    · cases hnode
    · next hne =>
      cases strategy with
      | roundRobin => exact roundRobinPick_subset hne _ _ hnode
      | leastUsed => exact h.perm.subset (List.mem_of_mem_take hnode)
      | random => exact h.perm.subset (List.mem_of_mem_take hnode)
  obtain ⟨hmem, honline⟩ := List.mem_filter.mp hvisited
  exact ⟨(h.visits.2 node).mp hmem, honline⟩

/-- No more nodes are selected than asked for. -/
theorem selectNodes_length_le : (selectNodes order s count strategy).1.length ≤ count.toNat := by
  unfold selectNodes
  dsimp only
  split
  · exact Nat.zero_le _
  · cases strategy with
    | roundRobin => exact Nat.le_of_eq (roundRobinPick_length _ _ _)
    | leastUsed => exact List.length_take_le _ _
    | random => exact List.length_take_le _ _

theorem arranged_length (h : order.Possible s strategy) :
    order.arranged.length = s.nodes.onlineIds.card := by
  rw [h.perm.length_eq, h.visits.length_online]

/-- Least-used and random selection take the first of the arranged nodes. -/
theorem selectNodes_taken (h : order.Possible s strategy) (hstrategy : strategy ≠ .roundRobin) :
    (selectNodes order s count strategy).1 = order.arranged.take count.toNat := by
  unfold selectNodes
  dsimp only
  split
  · next hnone =>
    have hlength := h.perm.length_eq
    rw [hnone, List.length_nil, List.length_eq_zero_iff] at hlength
    rw [hlength, List.take_nil]
  · cases strategy with
    | roundRobin => exact absurd rfl hstrategy
    | leastUsed => rfl
    | random => rfl

/-- Least-used and random selection take as many nodes as there are, up to the count. -/
theorem selectNodes_length (h : order.Possible s strategy) (hstrategy : strategy ≠ .roundRobin) :
    (selectNodes order s count strategy).1.length =
      min count.toNat s.nodes.onlineIds.card := by
  rw [selectNodes_taken h hstrategy, List.length_take, arranged_length h]

theorem selectNodes_leastUsed_length (h : order.Possible s .leastUsed) :
    (selectNodes order s count .leastUsed).1.length =
      min count.toNat s.nodes.onlineIds.card :=
  selectNodes_length h (by simp)

/-- Least-used selection leaves the store. -/
theorem selectNodes_leastUsed_store (order : NodeOrder) (s : MetadataStore) (count : UInt32) :
    (selectNodes order s count .leastUsed).2 = s := by
  unfold selectNodes
  dsimp only
  split <;> rfl

/-- Without online nodes none is selected. -/
theorem selectNodes_of_none_online (h : order.Possible s strategy)
    (hnone : s.nodes.onlineIds.card = 0) : (selectNodes order s count strategy).1 = [] := by
  have hlength := h.visits.length_online
  rw [hnone, List.length_eq_zero_iff] at hlength
  simp only [selectNodes, hlength, if_true]

private theorem ids_nodup_of_nodup {nodes : List NodeInfo} {t : NodeTable}
    (hfind : ∀ node ∈ nodes, t.find node.id = some node) (h : nodes.Nodup) :
    (nodes.map NodeInfo.id).Nodup := by
  refine List.Nodup.map_on (fun a ha b hb hid => ?_) h
  have hfound := hfind a ha
  rw [hid, hfind b hb] at hfound
  exact (Option.some.inj hfound).symm

/-- The selected nodes have distinct ids, under round robin if the loop picks
distinct nodes. -/
theorem selectNodes_ids_nodup (h : order.Possible s strategy)
    (hrounds : strategy = .roundRobin → count.toNat ≤ s.nodes.onlineIds.card ∧
      (2 ^ 64 % s.nodes.onlineIds.card = 0 ∨
        count.toNat ≤ 2 ^ 64 % s.nodes.onlineIds.card)) :
    ((selectNodes order s count strategy).1.map NodeInfo.id).Nodup := by
  refine ids_nodup_of_nodup (fun node hnode => (selectNodes_online h hnode).1) ?_
  have hvisited : (order.visited.filter NodeInfo.online).Nodup := h.visits.1.filter _
  unfold selectNodes
  dsimp only
  split
  · exact List.nodup_nil
  · next hne =>
    cases strategy with
    | roundRobin =>
      have hcount := UInt32.toNat_lt count
      rw [← h.visits.length_online] at hrounds
      exact (roundRobinPick_nodup_iff hvisited hne (by omega)).mpr (hrounds rfl) _
    | leastUsed => exact (h.perm.nodup_iff.mpr hvisited).sublist (List.take_sublist _ _)
    | random => exact (h.perm.nodup_iff.mpr hvisited).sublist (List.take_sublist _ _)

/-- Otherwise round robin picks a node twice, from some counter value. -/
theorem selectNodes_repeats (h : order.Possible s .roundRobin)
    (hsome : s.nodes.onlineIds.card ≠ 0)
    (hrounds : ¬(count.toNat ≤ s.nodes.onlineIds.card ∧
      (2 ^ 64 % s.nodes.onlineIds.card = 0 ∨
        count.toNat ≤ 2 ^ 64 % s.nodes.onlineIds.card))) :
    ∃ index, ¬(selectNodes order { s with roundRobinIndex := index } count
        .roundRobin).1.Nodup ∧
      (selectNodes order { s with roundRobinIndex := index } count
        .roundRobin).1.length = count.toNat := by
  have hvisited : (order.visited.filter NodeInfo.online).Nodup := h.visits.1.filter _
  have hne : order.visited.filter NodeInfo.online ≠ [] := by
    rw [← List.length_pos_iff, h.visits.length_online]
    omega
  have hcount := UInt32.toNat_lt count
  rw [← h.visits.length_online] at hrounds
  have hsome := mt (roundRobinPick_nodup_iff hvisited hne (by omega)).mp hrounds
  rw [not_forall] at hsome
  obtain ⟨index, hindex⟩ := hsome
  refine ⟨index, ?_, ?_⟩
  · simpa only [selectNodes, if_neg hne] using hindex
  · simpa only [selectNodes, if_neg hne] using roundRobinPick_length _ _ _

end Selected

end MetadataStore

end StorageEngine
