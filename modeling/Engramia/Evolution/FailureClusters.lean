import Engramia.Core.Stores
import Engramia.Library.LeaderClusters
import Engramia.Library.Ranking
import Engramia.Library.Rounding
import Mathlib.Algebra.Order.Group.Int
import Mathlib.Algebra.Ring.Int.Defs
import Mathlib.Data.Rat.Floor

/-!
Failure clustering. The feedback of a scope is scanned once, in its stored order, and the text
that founds a cluster stays its representative. The clusters of the scan are greedy leader
clusters of the patterns, seen through what the code keeps of each.
-/
namespace Engramia.Evolution
open Engramia.Library Engramia.Patterns Engramia.Storage
open Engramia.Core (FeedbackText)

/-- A stored pattern, read with defaults: no count is 0 to the selection and 1 to the totals. -/
structure FailurePattern where
  pattern : Text
  count : Option ℤ
  score : Option ℚ
deriving DecidableEq

structure FailureCluster where
  representative : Text
  members : List Text
  totalCount : ℤ
  avgScore : ℚ
deriving DecidableEq

/-- A cluster while the patterns are scanned. -/
structure OpenCluster where
  representative : Text
  members : List Text
  totalCount : ℤ
  scores : List ℚ

/-- Jaccard threshold for grouping failures. -/
def clusterThreshold : ℚ := 4 / 10

section Clusterer
variable (T : FeedbackText)

def similarity (a b : Text) : ℚ :=
  jaccard T.toTextMethods (Core.normalize T a) (Core.normalize T b)

/-- One pattern of the scan: the first cluster it is similar to takes it. -/
def place (p : FailurePattern) : List OpenCluster → List OpenCluster
  | [] => [⟨p.pattern, [p.pattern], p.count.getD 1, [p.score.getD (1 / 2)]⟩]
  | c :: clusters =>
      if clusterThreshold < similarity T c.representative p.pattern then
        { c with
          members := c.members ++ [p.pattern]
          totalCount := c.totalCount + p.count.getD 1
          scores := c.scores ++ [p.score.getD (1 / 2)] } :: clusters
      else c :: place p clusters

def OpenCluster.close (c : OpenCluster) : FailureCluster where
  representative := c.representative
  members := c.members
  totalCount := c.totalCount
  avgScore := roundTo 4 (if c.scores = [] then 0 else c.scores.sum / c.scores.length)

def selected (minCount : ℤ) (raw : List FailurePattern) : List FailurePattern :=
  raw.filter fun p => minCount ≤ p.count.getD 0

/-- `FailureClusterer.analyze` -/
def analyze (raw : List FailurePattern) (minCount : ℤ) : List FailureCluster :=
  let patterns := selected minCount raw
  if patterns = [] then []
  else
    sortedDesc FailureCluster.totalCount
      ((patterns.foldl (fun clusters p => place T p clusters) []).map OpenCluster.close)

end Clusterer

section Groups
variable {T : FeedbackText}

/-- A pattern would join a cluster that another one founded. -/
def Similar (T : FeedbackText) (founder p : FailurePattern) : Prop :=
  clusterThreshold < similarity T founder.pattern p.pattern

instance decidableSimilar (T : FeedbackText) : DecidableRel (Similar T) :=
  fun _ _ => inferInstanceAs (Decidable (_ < _))

theorem Similar.symm {p q : FailurePattern} (h : Similar T p q) : Similar T q p := by
  rw [Similar, similarity, jaccard_comm]
  exact h

/-- What the scan keeps of a group of patterns. -/
def opened (g : LeaderGroup FailurePattern) : OpenCluster where
  representative := g.leader.pattern
  members := g.members.map FailurePattern.pattern
  totalCount := (g.members.map fun p => p.count.getD 1).sum
  scores := g.members.map fun p => p.score.getD (1 / 2)

def summary (g : LeaderGroup FailurePattern) : FailureCluster :=
  (opened g).close

theorem place_opened (p : FailurePattern) (groups : List (LeaderGroup FailurePattern)) :
    place T p (groups.map opened) = (joinGroup (Similar T) p groups).map opened := by
  induction groups with
  | nil =>
      have hcount : ([p].map fun q => q.count.getD 1).sum = p.count.getD 1 := List.sum_singleton
      rw [List.map_nil, place, joinGroup, List.map_singleton, opened, LeaderGroup.members, hcount]
      rfl
  | cons g groups ih =>
      rw [List.map_cons, place, joinGroup]
      by_cases h : Similar T g.leader p
      · have htaken : opened { g with followers := g.followers ++ [p] } =
            { opened g with
              members := (opened g).members ++ [p.pattern]
              totalCount := (opened g).totalCount + p.count.getD 1
              scores := (opened g).scores ++ [p.score.getD (1 / 2)] } := by
          have hmembers : ({ g with followers := g.followers ++ [p] } :
              LeaderGroup FailurePattern).members = g.members ++ [p] := rfl
          simp only [opened, hmembers, List.map_append, List.sum_append, List.map_singleton,
            List.sum_singleton]
        rw [if_pos h, List.map_cons, htaken]
        exact if_pos h
      · rw [if_neg h, List.map_cons, ← ih]
        exact if_neg h

theorem scan_opened (patterns : List FailurePattern) :
    patterns.foldl (fun clusters p => place T p clusters) [] =
      (leaderClusters (Similar T) patterns).map opened := by
  induction patterns using List.reverseRecOn with
  | nil => rfl
  | append_singleton patterns p ih =>
      rw [leaderClusters, List.foldl_append, List.foldl_append, ih]
      exact place_opened p _

theorem analyze_eq (raw : List FailurePattern) (minCount : ℤ) :
    analyze T raw minCount =
      (sortedDesc (fun g => (summary g).totalCount)
        (leaderClusters (Similar T) (selected minCount raw))).map summary := by
  rw [analyze]
  by_cases hnone : selected minCount raw = []
  · rw [if_pos hnone, hnone]
    rfl
  · rw [if_neg hnone, scan_opened, List.map_map]
    exact sortedDesc_map summary _

/-- Every selected pattern is in one of the clusters, once. The representatives are apart, the
other members are similar to theirs, and the totals add up and do not increase. -/
theorem analyze_partitions (T : FeedbackText) (raw : List FailurePattern) (minCount : ℤ) :
    ∃ groups : List (LeaderGroup FailurePattern),
      analyze T raw minCount = groups.map summary ∧
      (groups.flatMap LeaderGroup.members).Perm (selected minCount raw) ∧
      ((analyze T raw minCount).map FailureCluster.totalCount).sum =
        ((selected minCount raw).map fun p => p.count.getD 1).sum ∧
      groups.Pairwise (fun g h =>
        similarity T g.leader.pattern h.leader.pattern ≤ clusterThreshold) ∧
      (∀ g ∈ groups, ∀ p ∈ g.followers,
        clusterThreshold < similarity T g.leader.pattern p.pattern) ∧
      (analyze T raw minCount).Pairwise fun c d => d.totalCount ≤ c.totalCount := by
  let scanned := leaderClusters (Similar T) (selected minCount raw)
  let groups := sortedDesc (fun g => (summary g).totalCount) scanned
  have hclustered : Clustered (Similar T) (selected minCount raw) groups :=
    (leaderClusters_clustered _).perm (fun _ _ h => h.symm) (sortedDesc_perm _ _)
  refine ⟨groups, analyze_eq raw minCount, hclustered.members, ?_, ?_, hclustered.follow, ?_⟩
  · rw [analyze_eq, List.map_map]
    exact hclustered.sum_eq fun p => p.count.getD 1
  · exact hclustered.apart.imp not_lt.mp
  · rw [analyze_eq]
    exact List.pairwise_map.mpr (ranked_sortedDesc _ _)

end Groups

end Engramia.Evolution
