import Argus.Foundations.Ranking
import Argus.Store.Patterns
import Argus.Store.Windows

/-!
# The topology graph

`GetTopology` merges the links that agents observed with the edges inferred from log text. Each
comes from a query that stops at 200 rows, so a pair that was observed can be missing from the
first list and present in the second: `observedWins_iff` says on which tables that cannot be seen
in the graph.
-/

namespace Argus

open Foundations SortedMap

/-! ### Graphs -/

/-- The origins of an edge. -/
inductive TopologyOrigin
  | kernel
  | log
  deriving DecidableEq

/-- `model.TopologyEdge`. -/
structure Model.TopologyEdge where
  source : String
  target : String
  kind : String
  count : ℕ
  origin : TopologyOrigin
  port : ℕ

/-- `model.TopologyNode`. -/
structure Model.TopologyNode where
  id : String
  label : String

/-- `model.TopologyGraph`. -/
structure Model.TopologyGraph where
  nodes : List Model.TopologyNode
  edges : List Model.TopologyEdge

open Model (TopologyGraph TopologyNode)

/-- `TopologyEdgeRow`. -/
structure TopologyEdgeRow where
  source : String
  target : String
  kind : String
  count : ℕ

/-- The pair of an edge. -/
def Model.TopologyEdge.pair (e : Model.TopologyEdge) : String × String := (e.source, e.target)

/-- The pair of a row. -/
def TopologyEdgeRow.pair (r : TopologyEdgeRow) : String × String := (r.source, r.target)

/-- `Source + "\x00" + Target`. -/
def pairKey (pair : String × String) : String := pair.1 ++ "\x00" ++ pair.2

/-- The edge of an inferred row. -/
def TopologyEdgeRow.edge (r : TopologyEdgeRow) : Model.TopologyEdge :=
  ⟨r.source, r.target, r.kind, r.count, .log, 0⟩

@[simp]
theorem TopologyEdgeRow.count_edge (r : TopologyEdgeRow) : r.edge.count = r.count := rfl

/-! ### Queries -/

/-- The tables `topology_links` and `topology_edges`. -/
structure TopologyTables where
  links : SortedMap LinkKey LinkRow
  edges : SortedMap EdgeKey EdgeRow
  /-- The columns of an endpoint hold texts. -/
  valid : ∀ k ∈ links.keys, validTexts [(ofLex k).1, (ofLex (ofLex k).2).1] = true

/-- `topologyEdgeLimit`, and the `LIMIT` of the two queries. -/
def topologyEdgeLimit : ℕ := 200

/-- The links that were seen in the window. -/
def observedRows (tables : TopologyTables) (since : Time) : List Model.TopologyEdge :=
  (tables.links.entries.filter fun e => sinceFilter since e.2.lastSeen).map fun e =>
    ⟨(ofLex e.1).1, (ofLex (ofLex e.1).2).1, e.2.kind, e.2.count, .kernel, (ofLex (ofLex e.1).2).2⟩

/-- The inferred edges that were seen in the window. -/
def inferredRows (tables : TopologyTables) (since : Time) : List TopologyEdgeRow :=
  (tables.edges.entries.filter fun e => sinceFilter since e.2.lastSeen).map fun e =>
    ⟨(ofLex e.1).1, (ofLex (ofLex e.1).2).1, (ofLex (ofLex e.1).2).2, e.2.count⟩

/-- `ORDER BY count DESC LIMIT 200`. -/
def Largest {ρ : Type} (count : ρ → ℕ) (rows out : List ρ) : Prop :=
  ∃ sorted, Ranked count rows sorted ∧ out = sorted.take topologyEdgeLimit

/-- The possible results of `queryTopologyLinks`. -/
def queryTopologyLinks (tables : TopologyTables) (since : Time)
    (out : List Model.TopologyEdge) : Prop :=
  Largest Model.TopologyEdge.count (observedRows tables since) out

/-- The possible results of `queryTopology`. -/
def queryTopology (tables : TopologyTables) (since : Time) (out : List TopologyEdgeRow) : Prop :=
  Largest TopologyEdgeRow.count (inferredRows tables since) out

/-- The inferred rows whose pair is not in `seen`. -/
def unseen (observed : List Model.TopologyEdge) (inferred : List TopologyEdgeRow) :
    List TopologyEdgeRow :=
  inferred.filter fun r => !(observed.map fun e => pairKey e.pair).contains (pairKey r.pair)

/-- `edges`, sorted and cut. -/
def mergedEdges (observed : List Model.TopologyEdge) (inferred : List TopologyEdgeRow) :
    List Model.TopologyEdge :=
  (rankStable Model.TopologyEdge.count
    (observed ++ (unseen observed inferred).map TopologyEdgeRow.edge)).take topologyEdgeLimit

/-- The endpoints of edges, each once and sorted. -/
def topologyNodes (edges : List Model.TopologyEdge) : List TopologyNode :=
  (((edges.flatMap fun e => [e.source, e.target]).dedup.mergeSort (· ≤ ·))).map fun id => ⟨id, id⟩

/-- The possible results of `GetTopology`. -/
def GetTopology (tables : TopologyTables) (since : Time) (out : TopologyGraph) : Prop :=
  ∃ observed inferred, queryTopologyLinks tables since observed ∧
    queryTopology tables since inferred ∧
      out = ⟨topologyNodes (mergedEdges observed inferred), mergedEdges observed inferred⟩

/-! ### Pairs -/

/-- Texts of a column have no separator in them. -/
theorem pairKey_inj {pair pair' : String × String} (h : validTexts [pair.1, pair.2] = true) :
    pairKey pair = pairKey pair' ↔ pair = pair' := by
  have hnul : ∀ s ∈ [pair.1, pair.2], '\x00' ∉ s.toList := fun s hs hmem => by
    simpa [validText, hmem] using List.all_eq_true.mp h s hs
  constructor
  · intro heq
    have hlist := congrArg String.toList heq
    simp only [pairKey, String.toList_append, List.append_assoc] at hlist
    obtain ⟨hsource, -, htarget⟩ := (List.append_cons_inj_of_notMem (hnul _ List.mem_cons_self)
      (hnul _ (List.mem_cons_of_mem _ List.mem_cons_self))).mp hlist
    exact Prod.ext (String.toList_inj.mp hsource) (String.toList_inj.mp htarget)
  · rintro rfl
    rfl

/-- An answer of the query on links has rows of the window only. -/
theorem mem_of_largest {ρ : Type} {count : ρ → ℕ} {rows out : List ρ} (h : Largest count rows out)
    {r : ρ} (hr : r ∈ out) : r ∈ rows := by
  obtain ⟨sorted, hranked, rfl⟩ := h
  exact hranked.1.mem_iff.mp (List.mem_of_mem_take hr)

theorem valid_observedRows {tables : TopologyTables} {since : Time} {e : Model.TopologyEdge}
    (he : e ∈ observedRows tables since) : validTexts [e.source, e.target] = true := by
  obtain ⟨entry, hentry, rfl⟩ := List.mem_map.mp he
  exact tables.valid _ (List.mem_map_of_mem (List.mem_of_mem_filter hentry))

/-- The set `seen` has the pairs of the links. -/
theorem contains_pairKey {tables : TopologyTables} {since : Time}
    {observed : List Model.TopologyEdge} (h : queryTopologyLinks tables since observed)
    (pair : String × String) :
    (observed.map fun e => pairKey e.pair).contains (pairKey pair) = true ↔
      pair ∈ observed.map Model.TopologyEdge.pair := by
  rw [List.contains_iff_mem, List.mem_map, List.mem_map]
  exact exists_congr fun e => and_congr_right fun he =>
    pairKey_inj (valid_observedRows (mem_of_largest h he))

/-- The rows that `GetTopology` leaves out are those of a pair that the links show. -/
theorem mem_unseen {tables : TopologyTables} {since : Time} {observed : List Model.TopologyEdge}
    (h : queryTopologyLinks tables since observed) {inferred : List TopologyEdgeRow}
    {r : TopologyEdgeRow} :
    r ∈ unseen observed inferred ↔
      r ∈ inferred ∧ r.pair ∉ observed.map Model.TopologyEdge.pair := by
  rw [unseen, List.mem_filter, Bool.not_eq_true', ← Bool.not_eq_true, contains_pairKey h]

/-! ### Which edge wins -/

/-- What the graph of a window promises. -/
structure ShowsObserved (tables : TopologyTables) (since : Time) (g : TopologyGraph) : Prop where
  /-- No inferred edge is shown for a pair that was observed in the window. -/
  wins : ∀ e ∈ g.edges, e.origin = .log →
    e.pair ∉ (observedRows tables since).map Model.TopologyEdge.pair
  limited : g.edges.length ≤ 200
  sorted : g.edges.Pairwise fun e e' => e'.count ≤ e.count
  endpoints : ∀ id, id ∈ g.nodes.map TopologyNode.id ↔
    ∃ e ∈ g.edges, id = e.source ∨ id = e.target

/-- Every inferred row of an observed pair that is not among the links returned is out of reach:
either 200 inferred rows have larger counts, or 200 rows stand before it, which are the links of
its count or more and the rows of larger counts whose pairs the links do not show. -/
def Outranked (tables : TopologyTables) (since : Time) : Prop :=
  ∀ observed, queryTopologyLinks tables since observed → ∀ u ∈ inferredRows tables since,
    u.pair ∈ (observedRows tables since).map Model.TopologyEdge.pair →
      u.pair ∉ observed.map Model.TopologyEdge.pair →
        200 ≤ (inferredRows tables since).countP (fun v => u.count < v.count) ∨
          200 ≤ observed.countP (fun e => u.count ≤ e.count) +
            (inferredRows tables since).countP fun v =>
              u.count < v.count ∧ v.pair ∉ observed.map Model.TopologyEdge.pair

variable {tables : TopologyTables} {since : Time}

theorem mem_topologyNodes {edges : List Model.TopologyEdge} {id : String} :
    id ∈ (topologyNodes edges).map TopologyNode.id ↔
      ∃ e ∈ edges, id = e.source ∨ id = e.target := by
  have hid : TopologyNode.id ∘ (fun id => (⟨id, id⟩ : TopologyNode)) = fun id => id := rfl
  rw [topologyNodes, List.map_map, hid, List.map_id', List.mem_mergeSort, List.mem_dedup,
    List.mem_flatMap]
  exact exists_congr fun e => and_congr_right fun _ => List.mem_pair

/-- The part of the promise that holds of every graph. -/
theorem shape_of_merged (observed : List Model.TopologyEdge) (inferred : List TopologyEdgeRow) :
    (mergedEdges observed inferred).length ≤ 200 ∧
      (mergedEdges observed inferred).Pairwise fun e e' => e'.count ≤ e.count :=
  ⟨List.length_take_le _ _, (ranked_rankStable _ _).2.sublist (List.take_sublist _ _)⟩

/-- The rows before an inferred row that counts among the largest. -/
theorem countP_unseen {observed : List Model.TopologyEdge} {inferred : List TopologyEdgeRow}
    (hobserved : queryTopologyLinks tables since observed)
    (hinferred : queryTopology tables since inferred) {u : TopologyEdgeRow} (hu : u ∈ inferred) :
    ((unseen observed inferred).map TopologyEdgeRow.edge).countP (fun e => u.count < e.count) =
      (inferredRows tables since).countP fun v =>
        u.count < v.count ∧ v.pair ∉ observed.map Model.TopologyEdge.pair := by
  obtain ⟨sorted, hranked, rfl⟩ := hinferred
  rw [← hranked.countP_take hu fun r hr => (of_decide_eq_true hr).1, List.countP_map, unseen,
    List.countP_filter]
  refine List.countP_congr fun r hr => ?_
  simp only [Function.comp_apply, TopologyEdgeRow.count_edge, Bool.and_eq_true, decide_eq_true_eq]
  rw [Bool.not_eq_true', ← Bool.not_eq_true, contains_pairKey hobserved]
  exact and_congr_left' decide_eq_true_iff

/-- An inferred edge in the graph is that of a row that the links do not show, with fewer than
200 edges before it. -/
theorem exists_of_mem_merged {observed : List Model.TopologyEdge}
    {inferred : List TopologyEdgeRow} (hobserved : queryTopologyLinks tables since observed)
    {e : Model.TopologyEdge} (he : e ∈ mergedEdges observed inferred) (hlog : e.origin = .log) :
    ∃ u ∈ unseen observed inferred, u.edge = e ∧ observed.countP (fun e => u.count ≤ e.count) +
      ((unseen observed inferred).map TopologyEdgeRow.edge).countP (fun e => u.count < e.count) <
        200 := by
  have hkernel : e ∉ observed := fun hmem => by
    obtain ⟨entry, -, rfl⟩ := List.mem_map.mp (mem_of_largest hobserved hmem)
    exact nomatch hlog
  have hmem : e ∈ observed ++ (unseen observed inferred).map TopologyEdgeRow.edge :=
    (ranked_rankStable _ _).1.mem_iff.mp (List.mem_of_mem_take he)
  obtain ⟨u, hu, rfl⟩ := List.mem_map.mp ((List.mem_append.mp hmem).resolve_left hkernel)
  obtain ⟨front, back, heq, hfront, -, hlength⟩ := rankStable_append Model.TopologyEdge.count
    observed ((unseen observed inferred).map TopologyEdgeRow.edge) u.count
  refine ⟨u, hu, rfl, ?_⟩
  rw [mergedEdges, heq, List.append_assoc] at he
  rw [← hlength]
  refine length_lt_of_mem_take he fun hmem => ?_
  rcases hfront _ hmem with hlt | hobs
  · exact lt_irrefl _ hlt
  · exact hkernel hobs.1

/-- After rows of larger counts, the first row of its count that the links do not show. -/
theorem unseen_ties {observed : List Model.TopologyEdge} {front : List TopologyEdgeRow}
    {u : TopologyEdgeRow} (hfront : ∀ r ∈ front, u.count < r.count) (rest : List TopologyEdgeRow)
    (hu : (observed.map fun e => pairKey e.pair).contains (pairKey u.pair) = false) :
    ∃ ties, (((unseen observed (front ++ u :: rest)).map TopologyEdgeRow.edge).filter
      fun e => e.count = u.count) = u.edge :: ties := by
  have hnone : ((unseen observed front).map TopologyEdgeRow.edge).filter
      (fun e => e.count = u.count) = [] := by
    refine List.filter_eq_nil_iff.mpr fun e he => ?_
    obtain ⟨r, hr, rfl⟩ := List.mem_map.mp he
    exact fun h => (hfront r (List.mem_of_mem_filter hr)).ne' (of_decide_eq_true h)
  have hsplit : unseen observed (front ++ u :: rest) =
      unseen observed front ++ u :: unseen observed rest := by
    rw [unseen, List.filter_append, List.filter_cons_of_pos (by rw [hu]; rfl)]
    rfl
  refine ⟨((unseen observed rest).map TopologyEdgeRow.edge).filter fun e => e.count = u.count, ?_⟩
  rw [hsplit, List.map_append, List.filter_append, hnone, List.map_cons,
    List.filter_cons_of_pos (by simp), List.nil_append]

/-- An inferred row with fewer than 200 rows before it can be shown. -/
theorem exists_shown {observed : List Model.TopologyEdge} {u : TopologyEdgeRow}
    (hobserved : queryTopologyLinks tables since observed) (hu : u ∈ inferredRows tables since)
    (hpair : u.pair ∉ observed.map Model.TopologyEdge.pair)
    (hinferred : (inferredRows tables since).countP (fun v => u.count < v.count) < 200)
    (hbefore : observed.countP (fun e => u.count ≤ e.count) +
      (inferredRows tables since).countP (fun v =>
        u.count < v.count ∧ v.pair ∉ observed.map Model.TopologyEdge.pair) < 200) :
    ∃ inferred, queryTopology tables since inferred ∧ u.edge ∈ mergedEdges observed inferred := by
  obtain ⟨front, rest, hranked, hfront, hlength⟩ := exists_ranked_first TopologyEdgeRow.count hu
  have hu : u ∈ (front ++ u :: rest).take topologyEdgeLimit :=
    mem_take_of_length_lt (hlength.trans_lt hinferred)
  have hquery : queryTopology tables since ((front ++ u :: rest).take topologyEdgeLimit) :=
    ⟨_, hranked, rfl⟩
  refine ⟨_, hquery, ?_⟩
  rw [← countP_unseen hobserved hquery hu] at hbefore
  obtain ⟨before, back, heq, -, -, hbeforeLength⟩ := rankStable_append Model.TopologyEdge.count
    observed ((unseen observed ((front ++ u :: rest).take topologyEdgeLimit)).map
      TopologyEdgeRow.edge) u.count
  obtain ⟨n, hn⟩ := Nat.exists_eq_add_of_lt (hlength.trans_lt hinferred)
  have htake : (front ++ u :: rest).take topologyEdgeLimit = front ++ u :: rest.take n := by
    rw [topologyEdgeLimit, hn, add_assoc, List.take_length_add_append, List.take_succ_cons]
  obtain ⟨ties, hties⟩ := unseen_ties hfront (rest.take n)
    (Bool.eq_false_iff.mpr (mt (contains_pairKey hobserved u.pair).mp hpair))
  rw [← htake] at hties
  rw [mergedEdges, heq, hties, List.append_assoc, List.cons_append]
  exact mem_take_of_length_lt (hbeforeLength.trans_lt hbefore)

/-- **Which edge wins.** The graph of a window never shows an inferred edge for a pair that was
observed in it, whatever order the store gives to rows of one count, if and only if every such row
is out of reach; at most 200 edges by descending count and their endpoints are shown anyway. -/
theorem observedWins_iff (tables : TopologyTables) (since : Time) :
    (∀ g, GetTopology tables since g → ShowsObserved tables since g) ↔
      Outranked tables since := by
  constructor
  · intro h observed hobserved u hu hpair hmissing
    by_contra hreach
    obtain ⟨hinferred, hbefore⟩ := not_or.mp hreach
    obtain ⟨inferred, hquery, hshown⟩ := exists_shown hobserved hu hmissing (not_le.mp hinferred)
      (not_le.mp hbefore)
    exact (h _ ⟨observed, inferred, hobserved, hquery, rfl⟩).wins _ hshown rfl hpair
  · rintro h g ⟨observed, inferred, hobserved, hquery, rfl⟩
    obtain ⟨hlimited, hsorted⟩ := shape_of_merged observed inferred
    refine ⟨fun e he hlog hpair => ?_, hlimited, hsorted, fun id => mem_topologyNodes⟩
    obtain ⟨u, hu, rfl, hbefore⟩ := exists_of_mem_merged hobserved he hlog
    obtain ⟨hu, hmissing⟩ := (mem_unseen hobserved).mp hu
    rw [countP_unseen hobserved hquery hu] at hbefore
    have hinferred : (inferredRows tables since).countP (fun v => u.count < v.count) < 200 := by
      obtain ⟨sorted, hranked, rfl⟩ := hquery
      exact hranked.countP_lt hu
    rcases h observed hobserved u (mem_of_largest hquery hu) hpair hmissing with hmany | hmany
    · exact hinferred.not_ge hmany
    · exact hbefore.not_ge hmany

/-- With no more links than the limit in the window, the observed edge wins. -/
theorem outranked_of_few (h : (observedRows tables since).length ≤ 200) :
    Outranked tables since := by
  rintro observed ⟨sorted, hranked, rfl⟩ u - hpair hmissing
  have hlength : sorted.length ≤ topologyEdgeLimit := hranked.1.length_eq.trans_le h
  rw [List.take_of_length_le hlength] at hmissing
  exact absurd ((hranked.1.map _).mem_iff.mpr hpair) hmissing

/-! ### A crowded window -/

/-- The 200 ports on which one pair was observed. -/
def crowdedRows : List (LinkKey × LinkRow) :=
  (List.range 200).map fun port => (toLex ("s", toLex ("t", port)), ⟨"http", 2, ⟨0⟩⟩)

/-- A pair that was observed on 200 ports, and a pair that was observed once and inferred three
times. -/
def crowdedTables : TopologyTables where
  links := {
    entries := (toLex ("a", toLex ("b", 0)), ⟨"http", 1, ⟨0⟩⟩) :: crowdedRows
    sorted := by
      refine List.pairwise_cons.mpr ⟨fun e he => ?_, List.pairwise_map.mpr
        (List.pairwise_lt_range.imp fun h => ?_)⟩
      · obtain ⟨port, -, rfl⟩ := List.mem_map.mp he
        exact Prod.Lex.toLex_lt_toLex.mpr (Or.inl (show "a" < "s" by decide))
      · exact Prod.Lex.toLex_lt_toLex.mpr (Or.inr ⟨rfl,
          Prod.Lex.toLex_lt_toLex.mpr (Or.inr ⟨rfl, h⟩)⟩) }
  edges := ⟨[(toLex ("a", toLex ("b", "http")), ⟨3, ⟨0⟩⟩)], List.pairwise_singleton _ _⟩
  valid k hk := by
    rcases List.mem_cons.mp hk with rfl | hk
    · rfl
    · obtain ⟨e, he, rfl⟩ := List.mem_map.mp hk
      obtain ⟨port, -, rfl⟩ := List.mem_map.mp he
      exact show validTexts ["s", "t"] = true by decide

/-- The links of the crowded pair, as they are read. -/
def crowdedEdges : List Model.TopologyEdge :=
  (List.range 200).map fun port => ⟨"s", "t", "http", 2, .kernel, port⟩

theorem of_mem_crowdedEdges {e : Model.TopologyEdge} (he : e ∈ crowdedEdges) :
    e.pair = ("s", "t") ∧ e.count = 2 := by
  obtain ⟨port, -, rfl⟩ := List.mem_map.mp he
  exact ⟨rfl, rfl⟩

theorem observedRows_crowded :
    observedRows crowdedTables ⟨0⟩ = ⟨"a", "b", "http", 1, .kernel, 0⟩ :: crowdedEdges := by
  have hall : crowdedTables.links.entries.filter (fun e => sinceFilter ⟨0⟩ e.2.lastSeen) =
      crowdedTables.links.entries := by
    refine List.filter_eq_self.mpr fun e he => decide_eq_true (le_of_eq ?_)
    rcases List.mem_cons.mp he with rfl | he
    · rfl
    · obtain ⟨port, -, rfl⟩ := List.mem_map.mp he
      rfl
  rw [observedRows, hall, crowdedTables, List.map_cons, crowdedRows, List.map_map]
  rfl

/-- The 200 largest links do not show the pair that was observed once. -/
theorem queryTopologyLinks_crowded : queryTopologyLinks crowdedTables ⟨0⟩ crowdedEdges := by
  refine ⟨crowdedEdges ++ [⟨"a", "b", "http", 1, .kernel, 0⟩], ⟨?_, ?_⟩, ?_⟩
  · rw [observedRows_crowded]
    exact List.perm_append_singleton _ _
  · refine List.pairwise_append.mpr ⟨List.pairwise_of_forall_mem_list fun a ha b hb => ?_,
      List.pairwise_singleton _ _, fun a ha b hb => ?_⟩
    · rw [(of_mem_crowdedEdges ha).2, (of_mem_crowdedEdges hb).2]
    · rw [(of_mem_crowdedEdges ha).2, List.mem_singleton.mp hb]
      exact Nat.one_le_ofNat
  · rw [List.take_append_of_le_length (by simp [crowdedEdges, topologyEdgeLimit]),
      List.take_of_length_le (by simp [crowdedEdges, topologyEdgeLimit])]

/-- The inferred edge of a pair is shown although a link shows the pair: 200 other links have
larger counts. -/
theorem inferred_edge_shown :
    ¬ ∀ (tables : TopologyTables) (since : Time) (g : TopologyGraph),
      GetTopology tables since g → ShowsObserved tables since g := by
  intro h
  have hinferred : inferredRows crowdedTables ⟨0⟩ = [⟨"a", "b", "http", 3⟩] := by
    simp [inferredRows, crowdedTables, sinceFilter]
  have hrow : ⟨"a", "b", "http", 3⟩ ∈ inferredRows crowdedTables ⟨0⟩ :=
    hinferred ▸ List.mem_singleton_self _
  have hmissing : ("a", "b") ∉ crowdedEdges.map Model.TopologyEdge.pair := fun hmem => by
    obtain ⟨e, he, heq⟩ := List.mem_map.mp hmem
    exact absurd ((of_mem_crowdedEdges he).1.symm.trans heq) (by decide)
  have hnone : crowdedEdges.countP (fun e => 3 ≤ e.count) = 0 :=
    List.countP_eq_zero.mpr fun e he => by
      rw [(of_mem_crowdedEdges he).2]
      decide
  obtain ⟨inferred, hquery, hshown⟩ := exists_shown queryTopologyLinks_crowded hrow hmissing
    (by rw [hinferred]; decide) (by rw [hinferred, hnone]; simp)
  refine (h _ _ _ ⟨_, _, queryTopologyLinks_crowded, hquery, rfl⟩).wins _ hshown rfl ?_
  rw [observedRows_crowded]
  exact List.mem_cons_self

end Argus
