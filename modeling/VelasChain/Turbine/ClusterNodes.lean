import Mathlib

/-!
# The turbine retransmit tree

A leader sends each shred into a tree over the cluster's nodes (`core/src/cluster_nodes.rs`).
Every node shuffles the node list with `WeightedShuffle` on a seed of the shred and the slot
leader, so that all of them see one order; index 0 is the root, the next `fanout` nodes are the
first layer, and `get_retransmit_peers` computes the nodes a node forwards to from its index
alone. The leader picks the root with `WeightedShuffle::first` and sends it the shred, and also
the root's children when the root's contact info is stale or its address not valid.

`WeightedShuffle` is modelled by the weights its tree of cumulative sums holds, and `search` by
what it returns: the first index whose cumulative weight exceeds the sample. The random number
generator is a parameter, sampled as `sample_single` samples it.

With `drop_redundant_turbine_path` active, a node `c ≥ 1` is the peer of exactly one node, its
parent `parentIndex fanout c < c` (`mem_getRetransmitPeers`), so the forwarding graph is a tree
rooted at index 0. `WeightedShuffle::first` is the head of the shuffle on the same seed
(`first_eq_head_shuffle`), and the leader's sends together with the retransmissions reach every
node of the list whose contact infos are all there and valid (`reaches_of_contactInfo`); a node
without one cuts off its whole subtree.
-/

namespace VelasChain.Turbine

variable {α : Type*}

/-- `Iterator::while_some`: the values up to the first `None`. -/
def whileSome : List (Option α) → List α
  | [] => []
  | none :: _ => []
  | some a :: l => a :: whileSome l

/-! ### The tree layout -/

/-- `get_retransmit_peers`, with `drop_redundant_turbine_path` active: the root sends to the first
layer, and a node at `offset` in its neighbourhood to the nodes at that offset in `fanout`
neighbourhoods of the next layer. -/
def getRetransmitPeers (fanout index : ℕ) (nodes : List α) : List α :=
  -- `index.saturating_sub(1)` is `index - 1` on naturals
  let offset := (index - 1) % fanout
  let anchor := index - offset
  let step := if index = 0 then 1 else fanout
  whileSome ((List.range' (anchor * fanout + offset + 1) fanout step).map fun i => nodes[i]?)

/-- `compute_retransmit_peers`, the layout without `drop_redundant_turbine_path`: the
neighbourhood of a node, and its children. -/
def computeRetransmitPeers (fanout index : ℕ) (nodes : List α) : List α × List α :=
  let offset := index % fanout
  let anchor := index - offset
  (whileSome ((List.range' anchor fanout).map fun i => nodes[i]?),
    whileSome ((List.range' ((anchor + 1) * fanout + offset) fanout fanout).map fun i => nodes[i]?))

/-- The node that forwards to node `c`: the root for the first layer; past it, `c - 1` is
`fanout * (fanout * q + 1 + k) + r` for the parent `fanout * q + r + 1`. -/
def parentIndex (fanout c : ℕ) : ℕ :=
  if c ≤ fanout then 0 else ((c - 1) / fanout - 1) / fanout * fanout + (c - 1) % fanout + 1

/-- `root_distance` in `ClusterNodes::get_retransmit_peers`. -/
def rootDistance (dropRedundantTurbinePath : Bool) (fanout selfIndex : ℕ) : ℕ :=
  if selfIndex = 0 then 0
  else if (if dropRedundantTurbinePath then selfIndex ≤ fanout else selfIndex < fanout) then 1
  else 2

/-- Over an increasing list of indexes, `while_some` keeps the nodes at the indexes in range. -/
lemma mem_whileSome_map_getElem? {nodes : List α} {x : α} :
    ∀ {l : List ℕ}, l.Pairwise (· < ·) →
      (x ∈ whileSome (l.map fun i => nodes[i]?) ↔ ∃ c ∈ l, nodes[c]? = some x)
  | [], _ => by simp [whileSome]
  | c :: l, hl => by
    rw [List.map_cons]
    rcases hc : nodes[c]? with _ | y
    · -- past the end of the nodes: so is every later index
      have hlen : nodes.length ≤ c := List.getElem?_eq_none_iff.mp hc
      simp only [whileSome, List.not_mem_nil, false_iff, not_exists, not_and, List.mem_cons]
      rintro c' (rfl | hc') hx
      · rw [hc] at hx
        cases hx
      · have := List.rel_of_pairwise_cons hl hc'
        rw [List.getElem?_eq_none_iff.mpr (by omega)] at hx
        cases hx
    · rw [whileSome, List.mem_cons, mem_whileSome_map_getElem? hl.of_cons]
      constructor
      · rintro (rfl | ⟨c', hc', hx⟩)
        · exact ⟨c, List.mem_cons_self, hc⟩
        · exact ⟨c', List.mem_cons_of_mem _ hc', hx⟩
      · rintro ⟨c', hc', hx⟩
        rcases List.mem_cons.mp hc' with rfl | hc'
        · rw [hc] at hx
          exact .inl (Option.some.inj hx).symm
        · exact .inr ⟨c', hc', hx⟩

section Layout

variable {fanout : ℕ} (hf : 0 < fanout)
include hf

lemma parentIndex_lt {c : ℕ} (hc : 1 ≤ c) : parentIndex fanout c < c := by
  unfold parentIndex
  split_ifs with hle
  · exact hc
  · -- the parent's index is below `(c - 1) / fanout`, which is at most `c - 1`
    have hq : ((c - 1) / fanout - 1) / fanout * fanout ≤ (c - 1) / fanout - 1 :=
      Nat.div_mul_le_self _ _
    have hdiv := Nat.div_add_mod (c - 1) fanout
    have hmod := Nat.mod_lt (c - 1) hf
    have hF : 1 ≤ (c - 1) / fanout := (Nat.one_le_div_iff hf).mpr (by omega)
    have hmul : (c - 1) / fanout ≤ fanout * ((c - 1) / fanout) :=
      Nat.le_mul_of_pos_left _ hf
    omega

omit hf in
/-- The indexes the root sends to are the first layer. -/
lemma mem_range'_zero {c : ℕ} :
    c ∈ List.range' (0 * fanout + 0 % fanout + 1) fanout 1 ↔ 1 ≤ c ∧ parentIndex fanout c = 0 := by
  rw [List.mem_range'_1, Nat.zero_mod, Nat.zero_mul]
  unfold parentIndex
  constructor
  · rintro ⟨hc, hcf⟩
    exact ⟨hc, if_pos (by omega)⟩
  · rintro ⟨hc, hparent⟩
    split_ifs at hparent with hle
    exact ⟨hc, by omega⟩

/-- The indexes node `i ≥ 1` sends to are the nodes whose parent it is. -/
lemma mem_range'_pos {i c : ℕ} (hi : 1 ≤ i) :
    c ∈ List.range' ((i - (i - 1) % fanout) * fanout + (i - 1) % fanout + 1) fanout fanout ↔
      1 ≤ c ∧ parentIndex fanout c = i := by
  -- `i - 1 = fanout * q + r`
  have hi' := Nat.div_add_mod (i - 1) fanout
  have hr := Nat.mod_lt (i - 1) hf
  set q := (i - 1) / fanout
  set r := (i - 1) % fanout
  have hanchor : i - r = fanout * q + 1 := by omega
  rw [List.mem_range', hanchor]
  constructor
  · rintro ⟨k, hk, rfl⟩
    -- `c - 1 = fanout * (fanout * q + 1 + k) + r`
    have hc : (fanout * q + 1) * fanout + r + 1 + fanout * k - 1 =
        r + fanout * (fanout * q + 1 + k) := by ring_nf; omega
    obtain ⟨hdiv, hmod⟩ := (Nat.div_mod_unique hf).mpr ⟨hc.symm, hr⟩
    obtain ⟨hdiv', -⟩ := (Nat.div_mod_unique hf).mpr
      (⟨by omega, hk⟩ : k + fanout * q = fanout * q + 1 + k - 1 ∧ k < fanout)
    have hgt : fanout < (fanout * q + 1) * fanout + r + 1 + fanout * k := by
      have : fanout ≤ (fanout * q + 1) * fanout := Nat.le_mul_of_pos_left _ (by omega)
      omega
    refine ⟨by omega, ?_⟩
    unfold parentIndex
    rw [if_neg (by omega), hdiv, hmod, hdiv']
    rw [Nat.mul_comm] at hi'
    omega
  · rintro ⟨hc, hparent⟩
    unfold parentIndex at hparent
    split_ifs at hparent with hle
    · omega
    -- `c - 1 = fanout * F + r'` and `F - 1 = fanout * q' + k`
    have hc' := Nat.div_add_mod (c - 1) fanout
    have hr' := Nat.mod_lt (c - 1) hf
    have hF : 1 ≤ (c - 1) / fanout := (Nat.one_le_div_iff hf).mpr (by omega)
    have hF' := Nat.div_add_mod ((c - 1) / fanout - 1) fanout
    have hk := Nat.mod_lt ((c - 1) / fanout - 1) hf
    -- the parent's index fixes its quotient and remainder
    obtain ⟨hq, hrr⟩ := (Nat.div_mod_unique hf).mpr
      (⟨by rw [Nat.mul_comm]; omega, hr'⟩ :
        (c - 1) % fanout + fanout * (((c - 1) / fanout - 1) / fanout) = i - 1 ∧
          (c - 1) % fanout < fanout)
    refine ⟨((c - 1) / fanout - 1) % fanout, hk, ?_⟩
    have hq' : q = ((c - 1) / fanout - 1) / fanout := hq
    have hrr' : r = (c - 1) % fanout := hrr
    -- `c = fanout * F + r' + 1` with `F = fanout * q' + 1 + k`
    have hmul : fanout * ((c - 1) / fanout) =
        (fanout * (((c - 1) / fanout - 1) / fanout) + 1) * fanout +
          fanout * (((c - 1) / fanout - 1) % fanout) := by
      have hsplit : (c - 1) / fanout =
          fanout * (((c - 1) / fanout - 1) / fanout) + 1 + ((c - 1) / fanout - 1) % fanout := by
        omega
      conv_lhs => rw [hsplit]
      ring
    rw [hq', hrr']
    omega

/-- A node is a peer of node `i` exactly when it sits at an index `c ≥ 1` whose parent is `i`. -/
theorem mem_getRetransmitPeers_iff {nodes : List α} {i : ℕ} {x : α} :
    x ∈ getRetransmitPeers fanout i nodes ↔
      ∃ c, 1 ≤ c ∧ parentIndex fanout c = i ∧ nodes[c]? = some x := by
  unfold getRetransmitPeers
  dsimp only
  have hstep : 0 < if i = 0 then 1 else fanout := by split_ifs <;> omega
  -- the indexes the node steps through are exactly the nodes it is the parent of
  have hrange : ∀ c, c ∈ List.range' ((i - (i - 1) % fanout) * fanout + (i - 1) % fanout + 1)
      fanout (if i = 0 then 1 else fanout) ↔ 1 ≤ c ∧ parentIndex fanout c = i := by
    intro c
    by_cases hi : i = 0
    · subst hi
      rw [if_pos rfl]
      exact mem_range'_zero
    · rw [if_neg hi]
      exact mem_range'_pos hf (by omega)
  rw [mem_whileSome_map_getElem? (List.pairwise_lt_range' _ hstep)]
  simp only [hrange, and_assoc]

/-- Over the indexes themselves: node `c` is a peer of node `i` exactly when `c ≥ 1`, `c` is in
range and `i` is its parent. -/
theorem mem_getRetransmitPeers {n i c : ℕ} :
    c ∈ getRetransmitPeers fanout i (List.range n) ↔ 1 ≤ c ∧ c < n ∧ parentIndex fanout c = i := by
  rw [mem_getRetransmitPeers_iff hf]
  simp only [List.getElem?_eq_some_iff, List.length_range, List.getElem_range]
  constructor
  · rintro ⟨c', h1, h2, hlt, rfl⟩
    exact ⟨h1, hlt, h2⟩
  · rintro ⟨h1, hlt, h2⟩
    exact ⟨c, h1, h2, hlt, rfl⟩

/-- A peer is further from the root than the node that sends to it. -/
lemma lt_of_mem_getRetransmitPeers {n i c : ℕ}
    (h : c ∈ getRetransmitPeers fanout i (List.range n)) : i < c := by
  obtain ⟨hc, -, rfl⟩ := (mem_getRetransmitPeers hf).mp h
  exact parentIndex_lt hf hc

/-- No node has two parents. -/
lemma eq_of_mem_getRetransmitPeers {n i i' c : ℕ}
    (h : c ∈ getRetransmitPeers fanout i (List.range n))
    (h' : c ∈ getRetransmitPeers fanout i' (List.range n)) : i = i' := by
  obtain ⟨-, -, rfl⟩ := (mem_getRetransmitPeers hf).mp h
  obtain ⟨-, -, rfl⟩ := (mem_getRetransmitPeers hf).mp h'
  rfl

/-- Every node but the root is the peer of a node of the list. -/
lemma exists_mem_getRetransmitPeers {n c : ℕ} :
    (∃ i < n, c ∈ getRetransmitPeers fanout i (List.range n)) ↔ 1 ≤ c ∧ c < n := by
  constructor
  · rintro ⟨i, -, h⟩
    obtain ⟨hc, hcn, -⟩ := (mem_getRetransmitPeers hf).mp h
    exact ⟨hc, hcn⟩
  · rintro ⟨hc, hcn⟩
    exact ⟨parentIndex fanout c, lt_trans (parentIndex_lt hf hc) hcn,
      (mem_getRetransmitPeers hf).mpr ⟨hc, hcn, rfl⟩⟩

end Layout

/-- With `drop_redundant_turbine_path`, the distance is 1 exactly on the nodes the root sends
to. -/
lemma rootDistance_eq_one {fanout i : ℕ} :
    rootDistance true fanout i = 1 ↔ 1 ≤ i ∧ parentIndex fanout i = 0 := by
  simp only [rootDistance, parentIndex, if_true]
  by_cases h0 : i = 0
  · simp [h0]
  · by_cases hle : i ≤ fanout
    · simp only [h0, hle, if_false, if_true, and_true, true_iff]
      omega
    · simp only [h0, hle, if_false]
      omega

/-! ### The weighted shuffle -/

/-- `WeightedShuffle`, by the weights its tree of cumulative sums holds (the weight of index `k`
at position `k`, zero once drawn), and the indexes of weight zero. -/
structure WeightedShuffle where
  weights : List ℕ
  zeros : List ℕ
  deriving DecidableEq, Repr

/-- `Vec::swap_remove`: the last element takes the place of the one removed. -/
def swapRemove (l : List ℕ) (index : ℕ) : List ℕ :=
  (l.set index (l.getLast?.getD 0)).dropLast

namespace WeightedShuffle

/-- The total weight, `self.sum`. -/
def sum (ws : WeightedShuffle) : ℕ := ws.weights.sum

/-- `search`: the smallest index `k ≥ 1` whose cumulative weight exceeds `val`, with the
weight of index `k - 1`. -/
def search (ws : WeightedShuffle) (val : ℕ) : ℕ × ℕ := go ws.weights 1 0
where
  go : List ℕ → ℕ → ℕ → ℕ × ℕ
    | [], k, _ => (k, 0)
    | w :: weights, k, cumsum => if val < cumsum + w then (k, w) else go weights (k + 1) (cumsum + w)

/-- `remove`: the weight at index `k` (from one) is taken out. -/
def remove (ws : WeightedShuffle) (k weight : ℕ) : WeightedShuffle :=
  { ws with weights := ws.weights.modify (k - 1) (· - weight) }

variable {R : Type*} (sampleSingle : R → ℕ → ℕ → ℕ × R)

/-- `WeightedShuffle::first`. -/
def first (ws : WeightedShuffle) (rng : R) : Option ℕ :=
  if 0 < ws.sum then
    let sample := (sampleSingle rng 0 ws.sum).1
    some ((ws.search sample).1 - 1)
  else if ws.zeros = [] then none
  else ws.zeros[(sampleSingle rng 0 ws.zeros.length).1]?

/-- One item of `WeightedShuffle::shuffle`: the index drawn, and the shuffle and the generator
after it. -/
def next (ws : WeightedShuffle) (rng : R) : Option (ℕ × WeightedShuffle × R) :=
  if 0 < ws.sum then
    let (sample, rng) := sampleSingle rng 0 ws.sum
    let (index, weight) := ws.search sample
    some (index - 1, ws.remove index weight, rng)
  else if ws.zeros = [] then none
  else
    let (index, rng) := sampleSingle rng 0 ws.zeros.length
    ws.zeros[index]?.map fun z => (z, { ws with zeros := swapRemove ws.zeros index }, rng)

/-- `WeightedShuffle::shuffle`, collected: each item draws a positive weight or a zero, so
`fuel` items are enough when `fuel` counts the weights and the zeros. -/
def shuffle : ℕ → WeightedShuffle → R → List ℕ
  | 0, _, _ => []
  | fuel + 1, ws, rng =>
    match ws.next sampleSingle rng with
    | none => []
    | some (index, ws, rng) => index :: shuffle fuel ws rng

/-- The index `first` draws is the one the shuffle on the same generator draws first. -/
theorem first_eq_head_shuffle (ws : WeightedShuffle) (rng : R) (fuel : ℕ) :
    ws.first sampleSingle rng = (ws.shuffle sampleSingle (fuel + 1) rng).head? := by
  unfold first shuffle next
  split_ifs with hsum hzeros
  · rfl
  · rfl
  · -- a zero is drawn at the same sample as `first` reads
    generalize sampleSingle rng 0 ws.zeros.length = draw
    obtain ⟨index, rng'⟩ := draw
    dsimp only
    cases ws.zeros[index]? <;> rfl

end WeightedShuffle

/-! ### Sending a shred -/

/-- The fields of a `ContactInfo` turbine reads. -/
structure ContactInfo (Addr : Type*) where
  wallclock : ℕ
  tvu : Addr
  tvuForwards : Addr
  deriving DecidableEq, Repr

/-- A `Node` of the cluster, with its contact info where gossip has one. -/
structure Node (Key Addr : Type*) where
  pubkey : Key
  contactInfo : Option (ContactInfo Addr)
  deriving DecidableEq, Repr

/-- `MAX_CONTACT_INFO_AGE`, two minutes, in milliseconds. -/
def maxContactInfoAge : ℕ := 2 * 60 * 1000

section Send

variable {Key Addr R : Type*} [DecidableEq Key] (sampleSingle : R → ℕ → ℕ → ℕ × R)
  (isValidAddress : Addr → Bool)

/-- The `tvu` addresses of the nodes that have a contact info. -/
def tvuAddrs (nodes : List (Node Key Addr)) : List Addr :=
  nodes.filterMap fun node => node.contactInfo.map (·.tvu)

/-- `ClusterNodes<BroadcastStage>::get_broadcast_addrs`: the leader's sends, for the shuffle
`ws` of `nodes` on the generator `rng` seeded by the shred, at time `now`. -/
def getBroadcastAddrs (nodes : List (Node Key Addr)) (ws : WeightedShuffle) (rng : R)
    (now fanout : ℕ) (dropRedundantTurbinePath : Bool) : List Addr :=
  match ws.first sampleSingle rng with
  | none => []
  | some index =>
    -- the root alone, when its contact info is fresh and its address valid
    let fresh := ((nodes[index]?).bind Node.contactInfo).bind fun node =>
      if now - node.wallclock < maxContactInfoAge ∧ isValidAddress node.tvu = true then some node.tvu
      else none
    match fresh with
    | some tvu => [tvu]
    | none =>
      let shuffled := (ws.shuffle sampleSingle (ws.weights.length + ws.zeros.length) rng).filterMap
        fun index => nodes[index]?
      match shuffled with
      | [] => []
      | root :: _ =>
        if dropRedundantTurbinePath then
          (tvuAddrs (root :: getRetransmitPeers fanout 0 shuffled)).filter isValidAddress
        else
          let (neighbors, children) := computeRetransmitPeers fanout 0 shuffled
          (tvuAddrs (neighbors.take 1) ++
              (neighbors.drop 1).filterMap (fun node => node.contactInfo.map (·.tvuForwards)) ++
              tvuAddrs children).filter isValidAddress

/-- `ClusterNodes<RetransmitStage>::get_retransmit_addrs` for the node at `selfIndex` of the
shuffled list: its distance from the root, and the addresses it forwards the shred to. -/
def getRetransmitAddrs (nodes : List (Node Key Addr)) (selfIndex fanout : ℕ)
    (dropRedundantTurbinePath : Bool) : ℕ × List Addr :=
  if dropRedundantTurbinePath then
    (rootDistance true fanout selfIndex, tvuAddrs (getRetransmitPeers fanout selfIndex nodes))
  else
    let (neighbors, children) := computeRetransmitPeers fanout selfIndex nodes
    let forwards := fun (peers : List (Node Key Addr)) =>
      peers.filterMap fun node => node.contactInfo.map (·.tvuForwards)
    (rootDistance false fanout selfIndex,
      if neighbors = [] then tvuAddrs children
      -- off the critical path: only the children, on their forwarding socket
      else if (neighbors.head?.map (·.pubkey)) ≠ (nodes[selfIndex]?).map (·.pubkey) then
        forwards children
      else forwards (neighbors.drop 1) ++ tvuAddrs children)

/-- The indexes of the shuffled list a shred reaches: the nodes whose `tvu` the leader sends to,
then those whose `tvu` a reached node sends to. -/
inductive Reaches (leaderAddrs : List Addr) (sends : ℕ → List Addr) (nodes : List (Node Key Addr)) :
    ℕ → Prop
  | leader {i : ℕ} {node : Node Key Addr} {ci : ContactInfo Addr} :
      nodes[i]? = some node → node.contactInfo = some ci → ci.tvu ∈ leaderAddrs →
        Reaches leaderAddrs sends nodes i
  | retransmit {i j : ℕ} {node : Node Key Addr} {ci : ContactInfo Addr} :
      Reaches leaderAddrs sends nodes i → nodes[j]? = some node → node.contactInfo = some ci →
        ci.tvu ∈ sends i → Reaches leaderAddrs sends nodes j

omit [DecidableEq Key] in
lemma mem_tvuAddrs {nodes : List (Node Key Addr)} {node : Node Key Addr} {ci : ContactInfo Addr}
    (hnode : node ∈ nodes) (hci : node.contactInfo = some ci) : ci.tvu ∈ tvuAddrs nodes :=
  List.mem_filterMap.mpr ⟨node, hnode, by rw [hci]; rfl⟩

omit [DecidableEq Key] in
/-- The leader sends the shred to the root, the first node of the shuffle, whenever the root has
a contact info with a valid address: alone when the contact info is fresh, with its children
otherwise. -/
lemma root_mem_getBroadcastAddrs {nodes : List (Node Key Addr)} {ws : WeightedShuffle} {rng : R}
    {now fanout index : ℕ} {rest : List ℕ} {root : Node Key Addr} {ci : ContactInfo Addr}
    (horder : ws.shuffle sampleSingle (ws.weights.length + ws.zeros.length) rng = index :: rest)
    (hroot : nodes[index]? = some root) (hci : root.contactInfo = some ci)
    (hvalid : isValidAddress ci.tvu = true) :
    ci.tvu ∈ getBroadcastAddrs sampleSingle isValidAddress nodes ws rng now fanout true := by
  -- a nonempty shuffle had fuel, and `first` drew its head
  obtain ⟨fuel, hfuel⟩ : ∃ fuel, ws.weights.length + ws.zeros.length = fuel + 1 := by
    rcases h : ws.weights.length + ws.zeros.length with _ | fuel
    · rw [h] at horder
      cases horder
    · exact ⟨fuel, rfl⟩
  have hfirst : ws.first sampleSingle rng = some index := by
    rw [WeightedShuffle.first_eq_head_shuffle sampleSingle ws rng fuel, ← hfuel, horder]
    rfl
  unfold getBroadcastAddrs
  rw [hfirst]
  simp only [hroot, hci, Option.bind_some]
  split_ifs with hfresh
  · exact List.mem_singleton_self _
  · rw [horder, List.filterMap_cons_some hroot]
    exact List.mem_filter.mpr ⟨mem_tvuAddrs List.mem_cons_self hci, hvalid⟩

/-- Where every node of the shuffled list has a contact info with a valid address, the leader's
sends and the retransmissions along the tree reach every node of the list. -/
theorem reaches_of_contactInfo {fanout : ℕ} (hf : 0 < fanout) {nodes : List (Node Key Addr)}
    {ws : WeightedShuffle} {rng : R} {now : ℕ} {order : List ℕ}
    (horder : ws.shuffle sampleSingle (ws.weights.length + ws.zeros.length) rng = order)
    (hrange : ∀ i ∈ order, i < nodes.length)
    (hcontact : ∀ node ∈ order.filterMap (fun i => nodes[i]?),
      ∃ ci, node.contactInfo = some ci ∧ isValidAddress ci.tvu = true) :
    ∀ j < (order.filterMap fun i => nodes[i]?).length,
      Reaches (getBroadcastAddrs sampleSingle isValidAddress nodes ws rng now fanout true)
        (fun i => (getRetransmitAddrs (order.filterMap fun i => nodes[i]?) i fanout true).2)
        (order.filterMap fun i => nodes[i]?) j := by
  set shuffled := order.filterMap fun i => nodes[i]?
  intro j hj
  -- by strong induction on the index: the parent of a node comes before it
  induction j using Nat.strong_induction_on with
  | _ j ih =>
    obtain ⟨node, hnode⟩ : ∃ node, shuffled[j]? = some node := ⟨_, List.getElem?_eq_getElem hj⟩
    obtain ⟨ci, hci, hvalid⟩ := hcontact node (List.mem_of_getElem? hnode)
    by_cases hj0 : j = 0
    · -- the root: the head of the shuffle, which the leader sends to
      subst hj0
      obtain ⟨index, rest, rfl⟩ : ∃ index rest, order = index :: rest := by
        cases order with
        | nil => simp [shuffled] at hj
        | cons index rest => exact ⟨index, rest, rfl⟩
      have hroot : nodes[index]? = some node := by
        have hindex := hrange index List.mem_cons_self
        have hhead : shuffled[0]? = nodes[index]? := by
          simp only [shuffled, List.filterMap_cons_some (List.getElem?_eq_getElem hindex),
            List.getElem?_cons_zero, List.getElem?_eq_getElem hindex]
        rw [← hhead, hnode]
      exact .leader hnode hci (root_mem_getBroadcastAddrs sampleSingle isValidAddress horder hroot
        hci hvalid)
    · -- any other node: its parent reaches it
      have hparent := parentIndex_lt hf (Nat.one_le_iff_ne_zero.mpr hj0)
      refine .retransmit (ih _ hparent (lt_trans hparent hj)) hnode hci ?_
      exact mem_tvuAddrs ((mem_getRetransmitPeers_iff hf).mpr
        ⟨j, Nat.one_le_iff_ne_zero.mpr hj0, rfl, hnode⟩) hci

/-- The retransmit tree and the shreds it carries. Over a list of `n` nodes, each peer set lies
above its sender, no node is in two peer sets, and together the sets are `1, …, n - 1`. The root
is at distance 0, its children, the first `fanout` nodes, at distance 1, and every other node at
distance 2. The leader's root is the head of the shuffle on the same generator. And where every
node of the shuffled list has a contact info with a valid address, the leader's sends and the
retransmissions reach every node of the list. -/
theorem retransmit_tree_reaches_nodes_with_contact_info {fanout : ℕ} (hf : 0 < fanout)
    {nodes : List (Node Key Addr)} {ws : WeightedShuffle} {rng : R} {now : ℕ} {order : List ℕ}
    (horder : ws.shuffle sampleSingle (ws.weights.length + ws.zeros.length) rng = order)
    (hrange : ∀ i ∈ order, i < nodes.length)
    (hcontact : ∀ node ∈ order.filterMap (fun i => nodes[i]?),
      ∃ ci, node.contactInfo = some ci ∧ isValidAddress ci.tvu = true) :
    (∀ n i c, c ∈ getRetransmitPeers fanout i (List.range n) → i < c) ∧
    (∀ n i i' c, c ∈ getRetransmitPeers fanout i (List.range n) →
      c ∈ getRetransmitPeers fanout i' (List.range n) → i = i') ∧
    (∀ n c, (∃ i < n, c ∈ getRetransmitPeers fanout i (List.range n)) ↔ 1 ≤ c ∧ c < n) ∧
    (∀ i, rootDistance true fanout i = 0 ↔ i = 0) ∧
    (∀ i, rootDistance true fanout i = 1 ↔ 1 ≤ i ∧ i ≤ fanout) ∧
    (∀ i, rootDistance true fanout i = 1 ↔ 1 ≤ i ∧ parentIndex fanout i = 0) ∧
    (∀ i, rootDistance true fanout i = 2 ↔ fanout < i) ∧
    (∀ fuel, ws.first sampleSingle rng = (ws.shuffle sampleSingle (fuel + 1) rng).head?) ∧
    ∀ j < (order.filterMap fun i => nodes[i]?).length,
      Reaches (getBroadcastAddrs sampleSingle isValidAddress nodes ws rng now fanout true)
        (fun i => (getRetransmitAddrs (order.filterMap fun i => nodes[i]?) i fanout true).2)
        (order.filterMap fun i => nodes[i]?) j := by
  refine ⟨fun _ _ _ => lt_of_mem_getRetransmitPeers hf, fun _ _ _ _ => eq_of_mem_getRetransmitPeers hf,
    fun _ _ => exists_mem_getRetransmitPeers hf, ?_, ?_, fun _ => rootDistance_eq_one, ?_,
    WeightedShuffle.first_eq_head_shuffle sampleSingle ws rng,
    reaches_of_contactInfo sampleSingle isValidAddress hf horder hrange hcontact⟩
  -- the three distances, on which side of `fanout` the index lies
  all_goals
    intro i
    by_cases h0 : i = 0
    · simp [rootDistance, h0]
    · by_cases hle : i ≤ fanout <;> simp [rootDistance, h0, hle] <;> omega

end Send

/-! ### Three nodes -/

/-- A generator whose every draw is the smallest value of the range. -/
def drawLowest : Unit → ℕ → ℕ → ℕ × Unit := fun _ lo _ => (lo, ())

/-- Three nodes of stakes 3, 2 and 1, drawn in that order by `drawLowest`. -/
def stakesThreeTwoOne : WeightedShuffle := ⟨[3, 2, 1], []⟩

/-- The nodes of `stakesThreeTwoOne`, each with a contact info. -/
def nodesWithContact : List (Node ℕ ℕ) :=
  [⟨0, some ⟨0, 10, 20⟩⟩, ⟨1, some ⟨0, 11, 21⟩⟩, ⟨2, some ⟨0, 12, 22⟩⟩]

theorem retransmit_tree_reaches_three_nodes :
    Reaches (getBroadcastAddrs drawLowest (fun _ => true) nodesWithContact stakesThreeTwoOne () 0 1
        true)
      (fun i => (getRetransmitAddrs ([0, 1, 2].filterMap fun i => nodesWithContact[i]?) i 1 true).2)
      ([0, 1, 2].filterMap fun i => nodesWithContact[i]?) 2 :=
  (retransmit_tree_reaches_nodes_with_contact_info drawLowest (fun _ => true) Nat.one_pos
    (show stakesThreeTwoOne.shuffle drawLowest
      (stakesThreeTwoOne.weights.length + stakesThreeTwoOne.zeros.length) () = [0, 1, 2] from rfl)
    (by decide)
    (by
      intro node hnode
      simp only [nodesWithContact, List.filterMap_cons, List.getElem?_cons_zero,
        List.getElem?_cons_succ, List.filterMap_nil, List.mem_cons, List.not_mem_nil,
        or_false] at hnode
      rcases hnode with rfl | rfl | rfl <;> exact ⟨_, rfl, rfl⟩)).2.2.2.2.2.2.2.2 2 (by decide)

/-- The nodes of `stakesThreeTwoOne` where the second, staked but unknown to gossip, has no
contact info. -/
def nodesMissingContact : List (Node ℕ ℕ) :=
  [⟨0, some ⟨0, 10, 20⟩⟩, ⟨1, none⟩, ⟨2, some ⟨0, 12, 22⟩⟩]

/-- A node with no contact info receives nothing, and so forwards nothing: the third node, whose
contact info is fresh and valid, never receives the shred. -/
theorem retransmit_tree_misses_node_below_missing_contact :
    stakesThreeTwoOne.shuffle drawLowest 3 () = [0, 1, 2] ∧
    ([0, 1, 2].filterMap fun i => nodesMissingContact[i]?) = nodesMissingContact ∧
    getBroadcastAddrs drawLowest (fun _ => true) nodesMissingContact stakesThreeTwoOne () 0 1 true
      = [10] ∧
    (getRetransmitAddrs nodesMissingContact 0 1 true).2 = [] ∧
    nodesMissingContact[2]? = some ⟨2, some ⟨0, 12, 22⟩⟩ ∧
    ¬ Reaches (getBroadcastAddrs drawLowest (fun _ => true) nodesMissingContact stakesThreeTwoOne
        () 0 1 true)
      (fun i => (getRetransmitAddrs nodesMissingContact i 1 true).2) nodesMissingContact 2 := by
  refine ⟨by decide, by decide, by decide, by decide, by decide, ?_⟩
  -- only the root is reached: the leader sends to it alone, and it forwards to no address
  have hroot : ∀ j, Reaches (getBroadcastAddrs drawLowest (fun _ => true) nodesMissingContact
      stakesThreeTwoOne () 0 1 true) (fun i => (getRetransmitAddrs nodesMissingContact i 1 true).2)
      nodesMissingContact j → j = 0 := by
    intro j hj
    induction hj with
    | leader hnode hci hmem =>
      rename_i i node ci
      have hleader : getBroadcastAddrs drawLowest (fun _ => true) nodesMissingContact
          stakesThreeTwoOne () 0 1 true = [10] := by decide
      rw [hleader, List.mem_singleton] at hmem
      match i, hnode with
      | 0, _ => rfl
      | 1, hnode => cases hnode; cases hci
      | 2, hnode => cases hnode; cases hci; cases hmem
    | retransmit _ _ _ hmem ih =>
      subst ih
      have hsends : (getRetransmitAddrs nodesMissingContact 0 1 true).2 = [] := by decide
      rw [hsends] at hmem
      cases hmem
  intro h
  cases hroot 2 h

end VelasChain.Turbine
