import Engramia.Keys.Permissions

/-!
The tool catalog of the MCP servers with the order of the plan tiers. Descriptions and
input schemas are left out.
-/
namespace Engramia.Mcp

/-- `_TIER_RANK`. -/
def tierRanks : List (String × Int) :=
  [("developer", 0), ("pro", 1), ("team", 2), ("business", 3), ("enterprise", 4)]

def tierSatisfies (current required : String) : Bool :=
  (tierRanks.lookup required).getD 99 ≤ (tierRanks.lookup current).getD (-1)

/-- `MIN_TIER_FOR_HOSTED_MCP`. -/
def minTierForHostedMcp : String := "team"

inductive QuotaKind where
  | evalRuns
  | patterns
  | none
deriving DecidableEq

structure ToolEntry where
  name : String
  permission : String
  minTier : String
  quotaKind : QuotaKind
deriving DecidableEq

/-- `ALL_TOOLS`. -/
def allTools : List ToolEntry :=
  [⟨"engramia_learn", "learn", "team", .patterns⟩,
    ⟨"engramia_recall", "recall", "team", .none⟩,
    ⟨"engramia_evaluate", "evaluate", "team", .evalRuns⟩,
    ⟨"engramia_feedback", "feedback:read", "team", .none⟩,
    ⟨"engramia_metrics", "metrics", "team", .none⟩,
    ⟨"engramia_aging", "aging", "team", .none⟩,
    ⟨"engramia_compose", "compose", "business", .none⟩,
    ⟨"engramia_evolve", "evolve", "business", .evalRuns⟩,
    ⟨"engramia_analyze_failures", "analyze_failures", "business", .none⟩]

def getEntry (name : String) : Option ToolEntry :=
  allTools.find? fun entry => entry.name = name

end Engramia.Mcp
