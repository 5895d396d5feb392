import TimingExplorer.Engine

/-!
Which stages of a walk become nodes. Unless the clock is shown stage by stage, a run of clock stages
is collapsed to its two ends.
-/

namespace TimingExplorer

/-- Drops the clock stages that stand between two clock stages. The first argument tells whether a
clock stage stands before the list. -/
def collapseClock (afterClock : Bool) : List PathStage → List PathStage
  | [] => []
  | stage :: rest =>
    let beforeClock := rest.head?.any (·.isClock)
    let kept := collapseClock stage.isClock rest
    if stage.isClock && afterClock && beforeClock then kept else stage :: kept

/-- The stages that are shown. -/
def keptStages (clockExpanded : Bool) (stages : List PathStage) : List PathStage :=
  if clockExpanded then stages else collapseClock false stages

end TimingExplorer
