import PollingExpress.Framework.Fallible
import PollingExpress.Framework.Fifo
import PollingExpress.Track.Basic

/-!
# Cutting a route into tasks

`segments_fill_navigation_tasks` and what it calls. A route comes as an array of
`TRACK_MAX` nodes with a length (`RoutePath`: the nodes in use, and the others); the
loop looks one entry ahead, whatever the length.

Lengths and offsets are `int`s, so that their sums wrap. Accesses outside an array are
a `Fault`: the row of `buffer_nodes` for a node whose number is no switch's, and the
copy of a segment into the array of a task, which has room for `TRACK_MAX / 5` nodes.
-/

namespace PollingExpress
namespace Nav

/-- `MAX_NUM_TRAINS`. -/
def maxNumTrains : ℕ := 6

abbrev TrainNum := Fin maxNumTrains

instance : NeZero maxNumTrains := ⟨by decide⟩

/-- `MAX_NAVIGATION_TASKS`. -/
def maxNavigationTasks : ℕ := 10

/-- The length of the array `path` of a `straightpath_task_t`. -/
def maxTaskPath : ℕ := trackMax / 5

/-- Where the navigation server's behaviour is undefined, or the kernel is stopped. -/
inductive Fault
  /-- A segment is longer than the array of a task. -/
  | pathOverrun
  /-- A row outside `buffer_nodes` was read. -/
  | bufferRow
  /-- A task was taken from an empty queue. -/
  | emptyQueue
  /-- The last node of an empty path was read. -/
  | emptyPath
  /-- `track[-1]` was read, for a train that is not registered. -/
  | notRegistered
  /-- The assertion on the worker that asks who it is. -/
  | invalidWorker
  deriving DecidableEq

structure StraightpathTask where
  train : TrainNum
  path : List NodeNum
  fits : path.length ≤ maxTaskPath
  pathDist : Int32
  isStartupTask : Bool
  deriving DecidableEq

/-- A cleared `straightpath_task_t`. -/
def zeroTask : StraightpathTask := ⟨0, [], by simp, 0, false⟩

inductive NavigationTask
  | reverse
  | straight (task : StraightpathTask)
  deriving DecidableEq

/-- What `process_next_task` takes for a straight path, whatever the task is. -/
def NavigationTask.straightpathTask : NavigationTask → StraightpathTask
  | .straight task => task
  | .reverse => zeroTask

/-- The array of a found route, cut at its length. -/
structure RoutePath where
  nodes : List NodeNum
  padding : List NodeNum
  length_eq : nodes.length + padding.length = trackMax

/-- The variables of `segments_fill_navigation_tasks`. -/
structure SegmentState where
  segment : Fifo NodeNum
  cameFromReverse : Bool
  mergeNodeNum : Option NodeNum
  hadFirstTask : Bool
  navigationTasks : Fifo NavigationTask

/-- `add_navigation_task`. -/
def addNavigationTask (T : Track) (train : TrainNum) (offset : Int32) (st : SegmentState) :
    Except Fault SegmentState :=
  if h : st.segment.items.length ≤ maxTaskPath then
    let task : StraightpathTask := {
      train
      path := st.segment.items
      fits := h
      pathDist := Int32.ofInt (T.getPathDist st.segment.items) + offset
      isStartupTask := !st.hadFirstTask }
    .ok { st with
      navigationTasks := st.navigationTasks.push (.straight task)
      hadFirstTask := true }
  else .error .pathOverrun

/-- `add_buffer_nodes`. -/
def addBufferNodes (T : Track) (segment : Fifo NodeNum) (switchNodeNum : Option NodeNum)
    (forward : Bool) : Except Fault (Fifo NodeNum) :=
  match switchNodeNum.bind T.bufferRow with
  | none => .error .bufferRow
  | some row =>
    if forward then .ok (segment.pushAll row)
    else .ok (segment.pushAll (row.reverse.map T.reverse))

namespace SegmentState

def push (st : SegmentState) (n : NodeNum) : SegmentState :=
  { st with segment := st.segment.push n }

def clear (st : SegmentState) : SegmentState := { st with segment := st.segment.clear }

def pushReverse (st : SegmentState) : SegmentState :=
  { st with navigationTasks := st.navigationTasks.push .reverse }

end SegmentState

/-- The segment of `n` ends with the buffer nodes of the merge that the train turns
around on. -/
def endAtMerge (T : Track) (train : TrainNum) (n : NodeNum) (st : SegmentState) :
    Except Fault SegmentState := do
  let segment ← addBufferNodes T st.segment (some n) true
  let st := { st with segment, mergeNodeNum := some n, cameFromReverse := true }
  let st ← addNavigationTask T train 0 st
  .ok st.clear

/-- The first node after a reversal comes behind the buffer nodes, flipped. -/
def augment (T : Track) (st : SegmentState) : Except Fault SegmentState :=
  if st.cameFromReverse then do
    let segment ← addBufferNodes T st.segment st.mergeNodeNum false
    .ok { st with segment, cameFromReverse := false }
  else .ok st

/-- The loop of `segments_fill_navigation_tasks` from its first node on. `pad` is the
entry behind the last node of the route. -/
def segmentsLoop (T : Track) (train : TrainNum) (destOffset : Int32) (pad : Option NodeNum) :
    List NodeNum → SegmentState → Except Fault SegmentState
  | [], st => .ok st
  | n :: rest, st =>
    if rest.head?.or pad = some (T.reverse n) then
      if st.segment.count ≥ 1 then
        if rest.length = 1 then do
          -- the route ends with this reversal
          let st ← addNavigationTask T train (destOffset * -1) (st.push n)
          .ok st.clear.pushReverse
        else do
          let st ← endAtMerge T train n (st.push n)
          segmentsLoop T train destOffset pad rest st.pushReverse
      else if rest.length = 1 then .ok st.pushReverse
      else segmentsLoop T train destOffset pad rest st.pushReverse
    else do
      let st ← augment T st
      let st := st.push n
      if rest = [] then
        let st ← addNavigationTask T train destOffset st
        .ok st.clear
      else segmentsLoop T train destOffset pad rest st

/-- `segments_fill_navigation_tasks`, on the nodes of a route and the entry behind
them. -/
def fillTasks (T : Track) (train : TrainNum) (destOffset : Int32) (pad : Option NodeNum)
    (nodes : List NodeNum) (navigationTasks : Fifo NavigationTask) :
    Except Fault (Fifo NavigationTask) := do
  let st ← segmentsLoop T train destOffset pad nodes {
    segment := .empty (some trackMax)
    cameFromReverse := false
    mergeNodeNum := none
    hadFirstTask := false
    navigationTasks }
  .ok st.navigationTasks

/-- `segments_fill_navigation_tasks`. -/
def segmentsFillNavigationTasks (T : Track) (path : RoutePath)
    (navigationTasks : Fifo NavigationTask) (train : TrainNum) (destOffset : Int32) :
    Except Fault (Fifo NavigationTask) :=
  fillTasks T train destOffset path.padding.head? path.nodes navigationTasks

end Nav
end PollingExpress
