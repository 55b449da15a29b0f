/-
  DatacenterNetworking.Htsim.FatTree

  The routes of the fat tree (`test_fat-tree_testbed.cpp`): four subtrees of two ToRs and
  two aggregation switches, 32 servers at a ToR, and for each aggregation switch two
  uplinks to the cores.  A link is a queue and the pipe behind it.

  `routes_shortest`: whatever is drawn, a route leads over links that exist from the source
  to another server, no way is shorter, and the reverse route goes back the same way.
  `shortest_generated`: every shortest way between any two servers is drawn, each pair of
  servers by one pair of draws out of `N_NODES * (N_NODES - 1)`, and a way over a core by one
  pair out of `N_UPLINK * N_AGG`.
-/

import DatacenterNetworking.Lib.Walk

namespace DatacenterNetworking
namespace Htsim
namespace FatTree

def N_SUBTREE : Nat := 4

/-- The ToRs of a subtree. -/
def N_TOR : Nat := 2

/-- The aggregation switches of a subtree. -/
def N_AGG : Nat := 2

/-- The uplinks of an aggregation switch to the cores. -/
def N_UPLINK : Nat := 2

/-- The servers of a ToR. -/
def N_SERVER : Nat := 32

def N_NODES : Nat := N_SUBTREE * N_TOR * N_SERVER

def N_NODES_SUBTREE : Nat := N_TOR * N_SERVER

/-- The servers and the switches. -/
inductive Node where
  | server (tree tor svr : Nat)
  | tor (tree tor : Nat)
  | agg (tree agg : Nat)
  | core (agg uplink : Nat)
  deriving DecidableEq, Repr

/-- The links, by the arrays that hold their queues and pipes, and their indices there. -/
inductive Link where
  | serverTor (tree tor svr : Nat)
  | torAgg (tree agg tor : Nat)
  | aggCore (tree agg uplink : Nat)
  | coreAgg (tree agg uplink : Nat)
  | aggTor (tree agg tor : Nat)
  | torServer (tree tor svr : Nat)
  deriving DecidableEq, Repr

namespace Link

/-- The indices are within the bounds of the arrays. -/
def Ok : Link → Prop
  | serverTor i j k => i < N_SUBTREE ∧ j < N_TOR ∧ k < N_SERVER
  | torAgg i j k => i < N_SUBTREE ∧ j < N_AGG ∧ k < N_TOR
  | aggCore i j k => i < N_SUBTREE ∧ j < N_AGG ∧ k < N_UPLINK
  | coreAgg i j k => i < N_SUBTREE ∧ j < N_AGG ∧ k < N_UPLINK
  | aggTor i j k => i < N_SUBTREE ∧ j < N_AGG ∧ k < N_TOR
  | torServer i j k => i < N_SUBTREE ∧ j < N_TOR ∧ k < N_SERVER

/-- The link the other way. -/
def opposite : Link → Link
  | serverTor i j k => torServer i j k
  | torAgg i j k => aggTor i j k
  | aggCore i j k => coreAgg i j k
  | coreAgg i j k => aggCore i j k
  | aggTor i j k => torAgg i j k
  | torServer i j k => serverTor i j k

/-- Up from the servers to the cores, and down again. -/
def rank : Link → Nat
  | serverTor _ _ _ => 0
  | torAgg _ _ _ => 1
  | aggCore _ _ _ => 2
  | coreAgg _ _ _ => 3
  | aggTor _ _ _ => 4
  | torServer _ _ _ => 5

end Link

/-- What the links join.  A core has one aggregation switch in each subtree. -/
def graph : LinkGraph Node Link where
  tail
    | .serverTor i j k => .server i j k
    | .torAgg i _ k => .tor i k
    | .aggCore i j _ => .agg i j
    | .coreAgg _ j k => .core j k
    | .aggTor i j _ => .agg i j
    | .torServer i j _ => .tor i j
  head
    | .serverTor i j _ => .tor i j
    | .torAgg i j _ => .agg i j
    | .aggCore _ j k => .core j k
    | .coreAgg i j _ => .agg i j
    | .aggTor i _ k => .tor i k
    | .torServer i j k => .server i j k

/-- Server number `n`. -/
def node (n : Nat) : Node :=
  .server (n / N_NODES_SUBTREE) (n / N_SERVER % N_TOR) (n % N_SERVER)

/-- What `generateRandomRoute` chooses. -/
structure Choice where
  src : Nat
  dst : Nat
  uplink : Nat
  agg : Nat

/-- The first part of `generateRandomRoute`.  The draws `r₁` and `r₂` are used where no server is
    asked for; the last two are for the uplink and the aggregation switch. -/
def choose (src dst r₁ r₂ r₃ r₄ : Nat) : Choice :=
  let dst := if dst ≠ 0 then dst % N_NODES else r₁ % N_NODES
  let src := if src ≠ 0 then src % (N_NODES - 1) else r₂ % (N_NODES - 1)
  { src := if dst ≤ src then src + 1 else src
    dst := dst
    uplink := r₃ % N_UPLINK
    agg := r₄ % N_AGG }

namespace Choice

variable (c : Choice)

def srcTree : Nat := c.src / N_NODES_SUBTREE
def dstTree : Nat := c.dst / N_NODES_SUBTREE
def srcTor : Nat := c.src / N_SERVER % N_TOR
def dstTor : Nat := c.dst / N_SERVER % N_TOR
def srcSvr : Nat := c.src % N_SERVER
def dstSvr : Nat := c.dst % N_SERVER

/-- `fwd`, without the queues and pipes. -/
def fwd : List Link :=
  [.serverTor c.srcTree c.srcTor c.srcSvr] ++
    (if c.srcTree ≠ c.dstTree ∨ c.srcTor ≠ c.dstTor then
      [.torAgg c.srcTree c.agg c.srcTor] ++
        (if c.srcTree ≠ c.dstTree then
          [.aggCore c.srcTree c.agg c.uplink, .coreAgg c.dstTree c.agg c.uplink]
        else []) ++
        [.aggTor c.dstTree c.agg c.dstTor]
    else []) ++
    [.torServer c.dstTree c.dstTor c.dstSvr]

/-- `rev`; `dst_agg` is `src_agg`. -/
def rev : List Link :=
  [.serverTor c.dstTree c.dstTor c.dstSvr] ++
    (if c.srcTree ≠ c.dstTree ∨ c.srcTor ≠ c.dstTor then
      [.torAgg c.dstTree c.agg c.dstTor] ++
        (if c.srcTree ≠ c.dstTree then
          [.aggCore c.dstTree c.agg c.uplink, .coreAgg c.srcTree c.agg c.uplink]
        else []) ++
        [.aggTor c.srcTree c.agg c.srcTor]
    else []) ++
    [.torServer c.srcTree c.srcTor c.srcSvr]

end Choice

/-- The elements of a route: the queue and the pipe of each link. -/
inductive Hop where
  | queue (l : Link)
  | pipe (l : Link)
  deriving DecidableEq, Repr

def hops (ls : List Link) : List Hop := ls.flatMap fun l => [.queue l, .pipe l]

/-- `generateRandomRoute`: the two routes and the servers. -/
def generateRandomRoute (src dst r₁ r₂ r₃ r₄ : Nat) : List Hop × List Hop × Nat × Nat :=
  let c := choose src dst r₁ r₂ r₃ r₄
  (hops c.fwd, hops c.rev, c.src, c.dst)

/-! ## Distances -/

/-- How many links it is to server `(tree, tor, svr)`. -/
def dist (tree tor svr : Nat) : Node → Nat
  | .server i j k =>
      if i = tree then
        if j = tor then if k = svr then 0 else 2 else 4
      else 6
  | .tor i j => if i = tree then if j = tor then 1 else 3 else 5
  | .agg i _ => if i = tree then 2 else 4
  | .core _ _ => 3

section Distance

variable {tree tor svr : Nat}

@[simp] theorem dist_self : dist tree tor svr (.server tree tor svr) = 0 := by
  simp [dist]

/-- No link leads closer by more than one. -/
theorem dist_tail_le (l : Link) :
    dist tree tor svr (graph.tail l) ≤ dist tree tor svr (graph.head l) + 1 := by
  cases l with
  | serverTor i j k => simp only [graph, dist]; split_ifs <;> omega
  | torAgg i j k => simp only [graph, dist]; split_ifs <;> omega
  | aggCore i j k => simp only [graph, dist]; split_ifs <;> omega
  | coreAgg i j k => simp only [graph, dist]; split_ifs <;> omega
  | aggTor i j k => simp only [graph, dist]; split_ifs <;> omega
  | torServer i j k => simp only [graph, dist]; split_ifs <;> omega

end Distance

theorem tail_opposite (l : Link) : graph.tail l.opposite = graph.head l := by
  cases l <;> rfl

theorem head_opposite (l : Link) : graph.head l.opposite = graph.tail l := by
  cases l <;> rfl

/-! ## One route -/

section Route

variable {c : Choice}

/-- A server is known by its tree, its ToR and its number there. -/
theorem node_inj {a b : Nat} (h : node a = node b) : a = b := by
  simp only [node, Node.server.injEq, N_NODES_SUBTREE, N_TOR, N_SERVER] at h
  omega

theorem isWalk_fwd (c : Choice) : graph.IsWalk (node c.src) c.fwd (node c.dst) := by
  simp only [Choice.fwd]
  split_ifs with hother htree
  · -- over a core
    exact ⟨rfl, rfl, rfl, rfl, rfl, rfl, rfl⟩
  · -- within the subtree
    have hsame : c.srcTree = c.dstTree := not_not.mp htree
    refine ⟨rfl, rfl, ?_, rfl, rfl⟩
    rw [hsame]
    rfl
  · have hsame : c.srcTree = c.dstTree ∧ c.srcTor = c.dstTor := by
      rw [not_or, not_not, not_not] at hother
      exact hother
    refine ⟨rfl, ?_, rfl⟩
    rw [hsame.1, hsame.2]
    rfl

theorem length_fwd (hne : c.src ≠ c.dst) :
    c.fwd.length = dist c.dstTree c.dstTor c.dstSvr (node c.src) := by
  have hnode : dist c.dstTree c.dstTor c.dstSvr (node c.src) =
      if c.srcTree = c.dstTree then
        if c.srcTor = c.dstTor then if c.srcSvr = c.dstSvr then 0 else 2 else 4
      else 6 := rfl
  rw [hnode]
  by_cases htree : c.srcTree = c.dstTree
  · by_cases htor : c.srcTor = c.dstTor
    · have hsvr : c.srcSvr ≠ c.dstSvr := by
        intro hsvr
        apply hne
        apply node_inj
        show Node.server c.srcTree c.srcTor c.srcSvr = Node.server c.dstTree c.dstTor c.dstSvr
        rw [htree, htor, hsvr]
      simp [Choice.fwd, htree, htor, hsvr]
    · simp [Choice.fwd, htree, htor]
  · simp [Choice.fwd, htree]

theorem shortest_fwd (hne : c.src ≠ c.dst) :
    graph.Shortest (node c.src) c.fwd (node c.dst) :=
  LinkGraph.shortest_of_length dist_tail_le (isWalk_fwd c) dist_self (length_fwd hne)

theorem rev_eq (c : Choice) : c.rev = c.fwd.reverse.map Link.opposite := by
  simp only [Choice.rev, Choice.fwd]
  split_ifs with hother htree
  · rfl
  · rfl
  · rfl

theorem rank_fwd (c : Choice) : c.fwd.Pairwise fun l l' => l.rank < l'.rank := by
  simp only [Choice.fwd]
  split_ifs
  all_goals simp [Link.rank]

/-- What is drawn is within its bounds. -/
structure Choice.InRange (c : Choice) : Prop where
  src : c.src < N_NODES
  dst : c.dst < N_NODES
  ne : c.src ≠ c.dst
  uplink : c.uplink < N_UPLINK
  agg : c.agg < N_AGG

theorem ok_fwd (h : c.InRange) : ∀ l ∈ c.fwd, l.Ok := by
  have hsrc := h.src
  have hdst := h.dst
  simp only [N_NODES, N_SUBTREE, N_TOR, N_SERVER] at hsrc hdst
  have hserver : ∀ n, n < 256 → n / N_NODES_SUBTREE < N_SUBTREE ∧ n / N_SERVER % N_TOR < N_TOR ∧
      n % N_SERVER < N_SERVER := by
    intro n hn
    simp only [N_NODES_SUBTREE, N_SUBTREE, N_TOR, N_SERVER]
    omega
  obtain ⟨hst, hsj, hsk⟩ := hserver c.src hsrc
  obtain ⟨hdt, hdj, hdk⟩ := hserver c.dst hdst
  intro l hl
  simp only [Choice.fwd] at hl
  split_ifs at hl
  all_goals
    simp only [List.cons_append, List.nil_append, List.mem_cons, List.not_mem_nil, or_false] at hl
  · rcases hl with rfl | rfl | rfl | rfl | rfl | rfl
    · exact ⟨hst, hsj, hsk⟩
    · exact ⟨hst, h.agg, hsj⟩
    · exact ⟨hst, h.agg, h.uplink⟩
    · exact ⟨hdt, h.agg, h.uplink⟩
    · exact ⟨hdt, h.agg, hdj⟩
    · exact ⟨hdt, hdj, hdk⟩
  · rcases hl with rfl | rfl | rfl | rfl
    · exact ⟨hst, hsj, hsk⟩
    · exact ⟨hst, h.agg, hsj⟩
    · exact ⟨hdt, h.agg, hdj⟩
    · exact ⟨hdt, hdj, hdk⟩
  · rcases hl with rfl | rfl
    · exact ⟨hst, hsj, hsk⟩
    · exact ⟨hdt, hdj, hdk⟩

end Route

theorem inRange_choose (src dst r₁ r₂ r₃ r₄ : Nat) : (choose src dst r₁ r₂ r₃ r₄).InRange := by
  have hdst : (if dst ≠ 0 then dst % N_NODES else r₁ % N_NODES) < N_NODES := by
    split_ifs
    all_goals exact Nat.mod_lt _ (by decide)
  have hsrc : (if src ≠ 0 then src % (N_NODES - 1) else r₂ % (N_NODES - 1)) < N_NODES - 1 := by
    split_ifs
    all_goals exact Nat.mod_lt _ (by decide)
  -- the source is drawn from the others, and moved up by one from the destination on
  have hskip : ∀ d x, d < N_NODES → x < N_NODES - 1 →
      (if d ≤ x then x + 1 else x) < N_NODES ∧ (if d ≤ x then x + 1 else x) ≠ d := by
    intro d x hd hx
    split_ifs <;> omega
  obtain ⟨hlt, hne⟩ := hskip _ _ hdst hsrc
  exact ⟨hlt, hdst, hne, Nat.mod_lt _ (by decide), Nat.mod_lt _ (by decide)⟩

/-! ### The three forms of a route -/

section Forms

variable {c : Choice}

theorem fwd_sameTor (htree : c.srcTree = c.dstTree) (htor : c.srcTor = c.dstTor) :
    c.fwd = [.serverTor c.srcTree c.srcTor c.srcSvr, .torServer c.dstTree c.dstTor c.dstSvr] := by
  simp [Choice.fwd, htree, htor]

theorem fwd_sameTree (htree : c.srcTree = c.dstTree) (htor : c.srcTor ≠ c.dstTor) :
    c.fwd = [.serverTor c.srcTree c.srcTor c.srcSvr, .torAgg c.srcTree c.agg c.srcTor,
      .aggTor c.dstTree c.agg c.dstTor, .torServer c.dstTree c.dstTor c.dstSvr] := by
  simp [Choice.fwd, htree, htor]

theorem fwd_overCore (htree : c.srcTree ≠ c.dstTree) :
    c.fwd = [.serverTor c.srcTree c.srcTor c.srcSvr, .torAgg c.srcTree c.agg c.srcTor,
      .aggCore c.srcTree c.agg c.uplink, .coreAgg c.dstTree c.agg c.uplink,
      .aggTor c.dstTree c.agg c.dstTor, .torServer c.dstTree c.dstTor c.dstSvr] := by
  simp [Choice.fwd, htree]

/-- The two routes have no link in common, and neither has one twice. -/
theorem nodup_links (hne : c.src ≠ c.dst) : (c.fwd ++ c.rev).Nodup := by
  by_cases htree : c.srcTree = c.dstTree
  · by_cases htor : c.srcTor = c.dstTor
    · have hsvr : c.srcSvr ≠ c.dstSvr := by
        intro hsvr
        apply hne
        apply node_inj
        show Node.server c.srcTree c.srcTor c.srcSvr = Node.server c.dstTree c.dstTor c.dstSvr
        rw [htree, htor, hsvr]
      rw [rev_eq, fwd_sameTor htree htor]
      simp [Link.opposite, htree, htor, hsvr, hsvr.symm]
    · rw [rev_eq, fwd_sameTree htree htor]
      simp [Link.opposite, htree, htor, Ne.symm htor]
  · rw [rev_eq, fwd_overCore htree]
    simp [Link.opposite, htree, Ne.symm htree]

end Forms

/-- The queues and pipes of different links are different. -/
theorem nodup_hops {ls : List Link} (h : ls.Nodup) : (hops ls).Nodup := by
  induction ls with
  | nil => exact List.nodup_nil
  | cons l ls ih =>
    obtain ⟨hl, hrest⟩ := List.nodup_cons.mp h
    have hmem : ∀ l', (Hop.queue l' ∈ hops ls → l' ∈ ls) ∧ (Hop.pipe l' ∈ hops ls → l' ∈ ls) := by
      intro l'
      simp [hops]
    rw [hops, List.flatMap_cons]
    refine List.nodup_append.mpr ⟨by simp, ih hrest, fun x hx y hy hxy => hl ?_⟩
    subst hxy
    rcases List.mem_cons.mp hx with rfl | hx
    · exact (hmem l).1 hy
    · rw [List.mem_singleton.mp hx] at hy
      exact (hmem l).2 hy

/-! ## All routes -/

/-- The routes lead over existing links from the source to the destination, another server, and
    back the same way; there is no shorter way; they lead up first and then down; and no queue or
    pipe is on them twice. -/
structure Routed (c : Choice) : Prop where
  inRange : c.InRange
  ok : ∀ l ∈ c.fwd, l.Ok
  shortest : graph.Shortest (node c.src) c.fwd (node c.dst)
  back : c.rev = c.fwd.reverse.map Link.opposite
  returns : graph.Shortest (node c.dst) c.rev (node c.src)
  upDown : c.fwd.Pairwise fun l l' => l.rank < l'.rank
  nodup : (hops c.fwd ++ hops c.rev).Nodup

theorem routed_of_inRange {c : Choice} (h : c.InRange) : Routed c := by
  have hshort := shortest_fwd h.ne
  refine ⟨h, ok_fwd h, hshort, rev_eq c, ⟨?_, fun ls hls => ?_⟩, rank_fwd c, ?_⟩
  · rw [rev_eq]
    exact hshort.1.reverse tail_opposite head_opposite
  · -- a shorter way back would be a shorter way there
    have hle := hshort.2 _ (hls.reverse tail_opposite head_opposite)
    rw [List.length_map, List.length_reverse] at hle
    rw [rev_eq, List.length_map, List.length_reverse]
    exact hle
  · have hlinks := nodup_hops (nodup_links h.ne)
    rw [hops, List.flatMap_append] at hlinks
    exact hlinks

/-- Whatever servers are asked for, and whatever is drawn. -/
theorem routes_shortest (src dst r₁ r₂ r₃ r₄ : Nat) :
    ∃ c, generateRandomRoute src dst r₁ r₂ r₃ r₄ = (hops c.fwd, hops c.rev, c.src, c.dst) ∧
      Routed c :=
  ⟨choose src dst r₁ r₂ r₃ r₄, rfl, routed_of_inRange (inRange_choose src dst r₁ r₂ r₃ r₄)⟩

/-! ## All shortest ways -/

section Complete

variable {tree tor svr : Nat}

/-- From a server there is one link. -/
theorem tail_eq_server {l : Link} {i j k : Nat} (h : graph.tail l = .server i j k) :
    l = .serverTor i j k := by
  cases l with
  | serverTor i' j' k' =>
    cases h
    rfl
  | torAgg _ _ _ => cases h
  | aggCore _ _ _ => cases h
  | coreAgg _ _ _ => cases h
  | aggTor _ _ _ => cases h
  | torServer _ _ _ => cases h

/-- At the ToR of the destination, the link to it. -/
theorem last_link {l : Link} (h : graph.tail l = .tor tree tor)
    (hd : dist tree tor svr (graph.head l) = 0) : l = .torServer tree tor svr := by
  cases l with
  | serverTor _ _ _ => cases h
  | torAgg i j k =>
    simp only [graph, dist] at hd
    split_ifs at hd
  | aggCore _ _ _ => cases h
  | coreAgg _ _ _ => cases h
  | aggTor _ _ _ => cases h
  | torServer i j k =>
    cases h
    simp only [graph, dist, if_true] at hd
    split_ifs at hd with hk
    rw [hk]

/-- From another ToR it goes up to an aggregation switch. -/
theorem up_link {l : Link} {i j : Nat} (h : graph.tail l = .tor i j)
    (hd : dist tree tor svr (graph.head l) = if i = tree then 2 else 4)
    (hother : i ≠ tree ∨ j ≠ tor) : ∃ m, l = .torAgg i m j := by
  cases l with
  | serverTor _ _ _ => cases h
  | torAgg i' m j' =>
    cases h
    exact ⟨m, rfl⟩
  | aggCore _ _ _ => cases h
  | coreAgg _ _ _ => cases h
  | aggTor _ _ _ => cases h
  | torServer i' j' k =>
    cases h
    simp only [graph, dist] at hd
    split_ifs at hd with hi hj
    · exact absurd hother (by simp [hi, hj])
    · cases hd
    · cases hd

/-- In the subtree of the destination it goes down. -/
theorem down_link {l : Link} {m : Nat} (h : graph.tail l = .agg tree m)
    (hd : dist tree tor svr (graph.head l) = 1) : l = .aggTor tree m tor := by
  cases l with
  | serverTor _ _ _ => cases h
  | torAgg _ _ _ => cases h
  | aggCore i j k =>
    simp only [graph, dist] at hd
    omega
  | coreAgg _ _ _ => cases h
  | aggTor i j k =>
    cases h
    simp only [graph, dist, if_true] at hd
    split_ifs at hd with hk
    · rw [hk]
    · cases hd
  | torServer _ _ _ => cases h

/-- In another subtree it goes on to a core. -/
theorem core_link {l : Link} {i m : Nat} (h : graph.tail l = .agg i m)
    (hd : dist tree tor svr (graph.head l) = 3) (hi : i ≠ tree) :
    ∃ u, l = .aggCore i m u := by
  cases l with
  | serverTor _ _ _ => cases h
  | torAgg _ _ _ => cases h
  | aggCore i' m' u =>
    cases h
    exact ⟨u, rfl⟩
  | coreAgg _ _ _ => cases h
  | aggTor i' m' k =>
    cases h
    simp only [graph, dist, if_neg hi] at hd
    omega
  | torServer _ _ _ => cases h

/-- From a core it goes down to the subtree of the destination. -/
theorem leave_core {l : Link} {m u : Nat} (h : graph.tail l = .core m u)
    (hd : dist tree tor svr (graph.head l) = 2) : l = .coreAgg tree m u := by
  cases l with
  | serverTor _ _ _ => cases h
  | torAgg _ _ _ => cases h
  | aggCore _ _ _ => cases h
  | coreAgg i j k =>
    cases h
    simp only [graph, dist] at hd
    split_ifs at hd with hi
    · rw [hi]
    · cases hd
  | aggTor _ _ _ => cases h
  | torServer _ _ _ => cases h

/-- The first link of a way that is as short as it can be. -/
theorem tight {u : Node} {l : Link} {ls : List Link}
    (h : graph.IsWalk u (l :: ls) (.server tree tor svr))
    (hlen : dist tree tor svr u = (l :: ls).length) :
    graph.tail l = u ∧ dist tree tor svr (graph.head l) = ls.length ∧
      graph.IsWalk (graph.head l) ls (.server tree tor svr) := by
  have htight := h.tight (d := dist tree tor svr) dist_tail_le (by rw [dist_self]; exact hlen)
  rw [dist_self] at htight
  exact htight

theorem walk_two {k : Nat} {ls : List Link}
    (h : graph.IsWalk (.server tree tor k) ls (.server tree tor svr))
    (hk : k ≠ svr) (hlen : ls.length = 2) :
    ls = [.serverTor tree tor k, .torServer tree tor svr] := by
  obtain ⟨l₁, l₂, rfl⟩ := List.length_eq_two.mp hlen
  obtain ⟨h₁, d₁, w₁⟩ := tight h (by simp [dist, hk])
  obtain rfl := tail_eq_server h₁
  obtain ⟨h₂, d₂, -⟩ := tight w₁ d₁
  rw [last_link h₂ d₂]

theorem walk_four {j k : Nat} {ls : List Link}
    (h : graph.IsWalk (.server tree j k) ls (.server tree tor svr)) (hj : j ≠ tor)
    (hlen : ls.length = 4) :
    ∃ m, ls = [.serverTor tree j k, .torAgg tree m j, .aggTor tree m tor,
      .torServer tree tor svr] := by
  obtain ⟨l₁, ls, rfl⟩ := List.exists_cons_of_length_eq_add_one hlen
  obtain ⟨h₁, d₁, w₁⟩ := tight h (by simpa [dist, hj] using hlen.symm)
  obtain rfl := tail_eq_server h₁
  have hlen₁ : ls.length = 3 := Nat.succ.inj hlen
  obtain ⟨l₂, l₃, l₄, rfl⟩ := List.length_eq_three.mp hlen₁
  obtain ⟨h₂, d₂, w₂⟩ := tight w₁ d₁
  obtain ⟨m, rfl⟩ := up_link h₂ (by rw [d₂, if_pos rfl]; rfl) (Or.inr hj)
  obtain ⟨h₃, d₃, w₃⟩ := tight w₂ d₂
  obtain rfl := down_link h₃ d₃
  obtain ⟨h₄, d₄, -⟩ := tight w₃ d₃
  exact ⟨m, by rw [last_link h₄ d₄]⟩

theorem walk_six {i j k : Nat} {ls : List Link}
    (h : graph.IsWalk (.server i j k) ls (.server tree tor svr)) (hi : i ≠ tree)
    (hlen : ls.length = 6) :
    ∃ m u, ls = [.serverTor i j k, .torAgg i m j, .aggCore i m u, .coreAgg tree m u,
      .aggTor tree m tor, .torServer tree tor svr] := by
  obtain ⟨l₁, ls, rfl⟩ := List.exists_cons_of_length_eq_add_one hlen
  obtain ⟨h₁, d₁, w₁⟩ := tight h (by simpa [dist, hi] using hlen.symm)
  obtain rfl := tail_eq_server h₁
  have hlen₁ : ls.length = 5 := Nat.succ.inj hlen
  obtain ⟨l₂, ls, rfl⟩ := List.exists_cons_of_length_eq_add_one hlen₁
  obtain ⟨h₂, d₂, w₂⟩ := tight w₁ d₁
  have hlen₂ : ls.length = 4 := Nat.succ.inj hlen₁
  obtain ⟨m, rfl⟩ := up_link h₂ (by rw [d₂, if_neg hi, hlen₂]) (Or.inl hi)
  obtain ⟨l₃, ls, rfl⟩ := List.exists_cons_of_length_eq_add_one hlen₂
  obtain ⟨h₃, d₃, w₃⟩ := tight w₂ d₂
  have hlen₃ : ls.length = 3 := Nat.succ.inj hlen₂
  obtain ⟨u, rfl⟩ := core_link h₃ (by rw [d₃, hlen₃]) hi
  obtain ⟨l₄, l₅, l₆, rfl⟩ := List.length_eq_three.mp hlen₃
  obtain ⟨h₄, d₄, w₄⟩ := tight w₃ d₃
  obtain rfl := leave_core h₄ d₄
  obtain ⟨h₅, d₅, w₅⟩ := tight w₄ d₄
  obtain rfl := down_link h₅ d₅
  obtain ⟨h₆, d₆, -⟩ := tight w₅ d₅
  exact ⟨m, u, by rw [last_link h₆ d₆]⟩

end Complete

/-- A shortest way takes the links of a route with some aggregation switch and uplink. -/
theorem fwd_of_shortest {c : Choice} (hne : c.src ≠ c.dst) {ls : List Link}
    (hls : graph.Shortest (node c.src) ls (node c.dst)) (hok : ∀ l ∈ ls, l.Ok) :
    ∃ m < N_AGG, ∃ u < N_UPLINK, ({ c with agg := m, uplink := u } : Choice).fwd = ls := by
  have hlen : ls.length = c.fwd.length := by
    have hle := hls.2 _ (isWalk_fwd c)
    have hge := (shortest_fwd hne).2 _ hls.1
    omega
  have hwalk : graph.IsWalk (.server c.srcTree c.srcTor c.srcSvr) ls
      (.server c.dstTree c.dstTor c.dstSvr) := hls.1
  by_cases htree : c.srcTree = c.dstTree
  · by_cases htor : c.srcTor = c.dstTor
    · have hsvr : c.srcSvr ≠ c.dstSvr := by
        intro hsvr
        apply hne
        apply node_inj
        show Node.server c.srcTree c.srcTor c.srcSvr = Node.server c.dstTree c.dstTor c.dstSvr
        rw [htree, htor, hsvr]
      have hlen₂ : ls.length = 2 := by rw [hlen, fwd_sameTor htree htor]; rfl
      rw [htree, htor] at hwalk
      refine ⟨0, by decide, 0, by decide, ?_⟩
      rw [walk_two hwalk hsvr hlen₂, fwd_sameTor (c := { c with agg := 0, uplink := 0 }) htree htor]
      show [Link.serverTor c.srcTree c.srcTor c.srcSvr,
        .torServer c.dstTree c.dstTor c.dstSvr] = _
      rw [htree, htor]
    · have hlen₄ : ls.length = 4 := by rw [hlen, fwd_sameTree htree htor]; rfl
      rw [htree] at hwalk
      obtain ⟨m, hm⟩ := walk_four hwalk htor hlen₄
      have hokm : Link.Ok (.torAgg c.dstTree m c.srcTor) := hok _ (by rw [hm]; simp)
      refine ⟨m, hokm.2.1, 0, by decide, ?_⟩
      rw [hm, fwd_sameTree (c := { c with agg := m, uplink := 0 }) htree htor]
      show [Link.serverTor c.srcTree c.srcTor c.srcSvr, .torAgg c.srcTree m c.srcTor,
        .aggTor c.dstTree m c.dstTor, .torServer c.dstTree c.dstTor c.dstSvr] = _
      rw [htree]
  · have hlen₆ : ls.length = 6 := by rw [hlen, fwd_overCore htree]; rfl
    obtain ⟨m, u, hmu⟩ := walk_six hwalk htree hlen₆
    have hokm : Link.Ok (.aggCore c.srcTree m u) := hok _ (by rw [hmu]; simp)
    refine ⟨m, hokm.2.1, u, hokm.2.2, ?_⟩
    rw [hmu, fwd_overCore (c := { c with agg := m, uplink := u }) htree]
    rfl

/-- Two servers are drawn by one pair of draws. -/
theorem draws_unique {a b : Nat} (ha : a < N_NODES) (hb : b < N_NODES) (hab : a ≠ b)
    (r₃ r₄ : Nat) :
    ∃! r : Nat × Nat, r.1 < N_NODES ∧ r.2 < N_NODES - 1 ∧
      (choose 0 0 r.1 r.2 r₃ r₄).src = a ∧ (choose 0 0 r.1 r.2 r₃ r₄).dst = b := by
  have hchoose : ∀ x y, x < N_NODES → y < N_NODES - 1 →
      (choose 0 0 x y r₃ r₄).dst = x ∧
        (choose 0 0 x y r₃ r₄).src = if x ≤ y then y + 1 else y := by
    intro x y hx hy
    simp only [choose, ne_eq, not_true, if_false, Nat.mod_eq_of_lt hx, Nat.mod_eq_of_lt hy]
    exact ⟨trivial, trivial⟩
  -- the source is counted without the destination
  have hy : (if b < a then a - 1 else a) < N_NODES - 1 := by
    split_ifs <;> omega
  refine ⟨(b, if b < a then a - 1 else a), ⟨hb, hy, ?_, (hchoose _ _ hb hy).1⟩, ?_⟩
  · rw [(hchoose _ _ hb hy).2]
    split_ifs <;> omega
  · rintro ⟨x, y⟩ ⟨hx, hy', hsrc, hdst⟩
    obtain ⟨hdst', hsrc'⟩ := hchoose x y hx hy'
    rw [hdst'] at hdst
    rw [hsrc'] at hsrc
    subst hdst
    refine Prod.ext rfl ?_
    show y = if x < a then a - 1 else a
    split_ifs at hsrc ⊢ <;> omega

/-- A route tells the links. -/
theorem hops_injective : Function.Injective hops := by
  intro ls
  induction ls with
  | nil =>
    intro ls' h
    cases ls' with
    | nil => rfl
    | cons l' ls' => cases h
  | cons l ls ih =>
    intro ls' h
    cases ls' with
    | nil => cases h
    | cons l' ls' =>
      simp only [hops, List.flatMap_cons, List.cons_append, List.nil_append, List.cons.injEq,
        Hop.queue.injEq] at h
      obtain ⟨hl, -, hrest⟩ := h
      rw [hl, ih hrest]

/-- A way over a core tells the aggregation switch and the uplink. -/
theorem fwd_overCore_inj {c c' : Choice} (htree : c.srcTree ≠ c.dstTree) (hsrc : c'.src = c.src)
    (hdst : c'.dst = c.dst) (hfwd : c'.fwd = c.fwd) : c'.agg = c.agg ∧ c'.uplink = c.uplink := by
  have htree' : c'.srcTree ≠ c'.dstTree := by
    rw [Choice.srcTree, Choice.dstTree, hsrc, hdst]
    exact htree
  rw [fwd_overCore htree, fwd_overCore htree'] at hfwd
  simp only [List.cons.injEq, Link.aggCore.injEq] at hfwd
  obtain ⟨-, -, ⟨-, hagg, huplink⟩, -⟩ := hfwd
  exact ⟨hagg, huplink⟩

/-- The draws `r` for the servers, and `q` for the uplink and the aggregation switch, give the
    route over `ls` from server `a` to server `b`, and its reverse. -/
def Draws (a b : Nat) (ls : List Link) (r q : Nat × Nat) : Prop :=
  r.1 < N_NODES ∧ r.2 < N_NODES - 1 ∧ q.1 < N_UPLINK ∧ q.2 < N_AGG ∧
    generateRandomRoute 0 0 r.1 r.2 q.1 q.2 =
      (hops ls, hops (ls.reverse.map Link.opposite), a, b)

/-- Draws within the bounds choose themselves. -/
theorem choose_eq {x y u m a b : Nat} (hu : u < N_UPLINK) (hm : m < N_AGG)
    (hsrc : (choose 0 0 x y u m).src = a) (hdst : (choose 0 0 x y u m).dst = b) :
    choose 0 0 x y u m = ⟨a, b, u, m⟩ := by
  have huplink : (choose 0 0 x y u m).uplink = u := Nat.mod_eq_of_lt hu
  have hagg : (choose 0 0 x y u m).agg = m := Nat.mod_eq_of_lt hm
  generalize choose 0 0 x y u m = c at hsrc hdst huplink hagg
  obtain ⟨src, dst, uplink, agg⟩ := c
  cases hsrc
  cases hdst
  cases huplink
  cases hagg
  rfl

theorem draws_iff {a b : Nat} {ls : List Link} {r q : Nat × Nat} :
    Draws a b ls r q ↔ r.1 < N_NODES ∧ r.2 < N_NODES - 1 ∧ q.1 < N_UPLINK ∧ q.2 < N_AGG ∧
      (choose 0 0 r.1 r.2 q.1 q.2).src = a ∧ (choose 0 0 r.1 r.2 q.1 q.2).dst = b ∧
        Choice.fwd ⟨a, b, q.1, q.2⟩ = ls := by
  constructor
  · rintro ⟨hr₁, hr₂, hq₁, hq₂, hroute⟩
    simp only [generateRandomRoute, Prod.mk.injEq] at hroute
    obtain ⟨hfwd, -, hsrc, hdst⟩ := hroute
    rw [choose_eq hq₁ hq₂ hsrc hdst] at hfwd
    exact ⟨hr₁, hr₂, hq₁, hq₂, hsrc, hdst, hops_injective hfwd⟩
  · rintro ⟨hr₁, hr₂, hq₁, hq₂, hsrc, hdst, rfl⟩
    refine ⟨hr₁, hr₂, hq₁, hq₂, ?_⟩
    rw [generateRandomRoute, choose_eq hq₁ hq₂ hsrc hdst, ← rev_eq]

/-- Every shortest way from one server to another over links that exist is drawn, whatever the
    servers; and one over a core by one quadruple of draws. -/
theorem shortest_generated {a b : Nat} (ha : a < N_NODES) (hb : b < N_NODES) (hab : a ≠ b)
    {ls : List Link} (hls : graph.Shortest (node a) ls (node b)) (hok : ∀ l ∈ ls, l.Ok) :
    (∃ q, ∃! r, Draws a b ls r q) ∧
      (a / N_NODES_SUBTREE ≠ b / N_NODES_SUBTREE →
        ∃! d : (Nat × Nat) × Nat × Nat, Draws a b ls d.1 d.2) := by
  obtain ⟨m, hm, u, hu, hfwd⟩ := fwd_of_shortest (c := ⟨a, b, 0, 0⟩) hab hls hok
  obtain ⟨r, ⟨hr₁, hr₂, hsrc, hdst⟩, hunique⟩ := draws_unique ha hb hab u m
  have hdraws : Draws a b ls r (u, m) := draws_iff.mpr ⟨hr₁, hr₂, hu, hm, hsrc, hdst, hfwd⟩
  have hservers : ∀ r', Draws a b ls r' (u, m) → r' = r := by
    intro r' h
    obtain ⟨hr₁', hr₂', -, -, hsrc', hdst', -⟩ := draws_iff.mp h
    exact hunique r' ⟨hr₁', hr₂', hsrc', hdst'⟩
  refine ⟨⟨(u, m), r, hdraws, hservers⟩, fun htree => ⟨(r, u, m), hdraws, ?_⟩⟩
  rintro ⟨r', u', m'⟩ h
  -- the core that the way leads over tells the other two draws
  obtain ⟨-, -, -, -, -, -, hfwd'⟩ := draws_iff.mp h
  obtain ⟨hagg, huplink⟩ := @fwd_overCore_inj ⟨a, b, u, m⟩ ⟨a, b, u', m'⟩ htree rfl rfl
    (hfwd'.trans hfwd.symm)
  cases hagg
  cases huplink
  rw [hservers r' h]

/-- One of the four ways from server 0 to server 64, the first of the next subtree. -/
theorem shortest_generated_overCore :
    (∃ q, ∃! r, Draws 0 64 (Choice.fwd ⟨0, 64, 1, 1⟩) r q) ∧
      ∃! d : (Nat × Nat) × Nat × Nat, Draws 0 64 (Choice.fwd ⟨0, 64, 1, 1⟩) d.1 d.2 := by
  obtain ⟨hdrawn, hunique⟩ := shortest_generated (by decide) (by decide) (by decide)
    (shortest_fwd (c := ⟨0, 64, 1, 1⟩) (by decide))
    (ok_fwd ⟨by decide, by decide, by decide, by decide, by decide⟩)
  exact ⟨hdrawn, hunique (by decide)⟩

end FatTree
end Htsim
end DatacenterNetworking
