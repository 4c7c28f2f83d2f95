import PollingExpress.Common.CircularBuffer
import PollingExpress.Framework.System
import PollingExpress.Shell.Editor
import PollingExpress.Train.Server

/-!
# The shell

The loop of `shell` in `shell.c`. A line that is entered is taken apart (`interpret`); a command
goes into a ring, and unless the shell is in planning mode the ring is emptied and each command
becomes a request to a server. A line that is rejected, and `plan`, go on with the next character at
once; only after the others the array of the editor is cleared.

What is printed is not in the model.
-/

namespace PollingExpress
namespace Shell

open Nav (TrainNum maxNumTrains)

/-- `MAX_PLANNED_COMMANDS`. -/
def maxPlannedCommands : ℕ := 10

/-- `NUM_SWITCHES`. -/
def numSwitches : Int := 256

/-- `SENSORS_PER_GROUP`. -/
def sensorsPerGroup : ℕ := 8

/-- `NUM_SENSOR_GROUPS`. -/
def numSensorGroups : ℕ := 10

def ascii (chars : List Char) : List Byte := chars.map fun c => UInt8.ofNat c.toNat

/-- The digits of a number, behind those that make up `res`. -/
def atoiFrom (res : Int) (digits : List Byte) : Int :=
  digits.foldl (fun res c => (res * 10 + c.toNat - 48).bmod (2 ^ 32)) res

/-- `atoi`. -/
def atoi (str : List Byte) : Int :=
  match str with
  | c :: digits => if c = 45 then (-atoiFrom 0 digits).bmod (2 ^ 32) else atoiFrom 0 str
  | [] => 0

/-- `p_v_train_num`, or `none` for -1. -/
def pVTrainNum (num : Int) : Option TrainNum :=
  (List.finRange maxNumTrains).find? fun i => Train.supportedTrains i = num

inductive Command
  | tr (train : TrainNum) (speed : Int)
  | sw (num : Int) (orientation : Byte)
  | rv (train : TrainNum)
  | q
  | gt (train : TrainNum) (dest : NodeNum) (offset : Int)
  | die
  | reg (train : TrainNum) (source : NodeNum)
  | mock (sensor : NodeNum)
  | random (type : Int) (train : TrainNum)

/-- "Please enter a valid ..". -/
inductive Rejection
  | speed | trainNum | switchNum | switchOrientation | destination | node | random
  deriving DecidableEq

/-- What a line says. -/
inductive Parsed
  | plan
  | doneplan
  | command (command : Command)
  | rejected (why : Rejection)
  /-- "Invalid Command Type". -/
  | invalid

/-- What the shell sends to the servers, and to a worker for random destinations. -/
inductive Request
  | speed (train : TrainNum) (speed : Int)
  | switch (num data : Int)
  | navigation (train : TrainNum) (destination : NodeNum) (offset : Int)
  | registerLocation (train : TrainNum) (node : NodeNum)
  | sensorUpdate (group : ℕ) (reading : ℕ)
  | random (type : Int) (train : TrainNum)
  deriving DecidableEq

/-- `strncmp(token, word, strlen(word)) == 0`. -/
def isWord (token : List Byte) (word : List Char) : Prop :=
  strncmp token (ascii word) word.length = 0

instance (token : List Byte) (word : List Char) : Decidable (isWord token word) :=
  inferInstanceAs (Decidable (_ = _))

/-- The branches on the first token. -/
def interpret (names : TrackNames) (tokens : Tokens) : Except Fault Parsed :=
  if isWord (tokens 0) ['p', 'l', 'a', 'n'] then .ok .plan
  else if isWord (tokens 0) ['d', 'o', 'n', 'e', 'p', 'l', 'a', 'n'] then .ok .doneplan
  else if isWord (tokens 0) ['t', 'r'] then
    let speed := atoi (tokens 2)
    if speed < 0 ∨ speed > 14 then .ok (.rejected .speed)
    else match pVTrainNum (atoi (tokens 1)) with
      | none => .ok (.rejected .trainNum)
      | some train => .ok (.command (.tr train speed))
  else if isWord (tokens 0) ['s', 'w'] then
    let num := atoi (tokens 1)
    let orientation := (tokens 2).headD 0
    if num < 1 ∨ num > numSwitches then .ok (.rejected .switchNum)
    else if orientation ≠ 99 ∧ orientation ≠ 115 then .ok (.rejected .switchOrientation)
    else .ok (.command (.sw num orientation))
  else if isWord (tokens 0) ['r', 'v'] then
    match pVTrainNum (atoi (tokens 1)) with
    | none => .ok (.rejected .trainNum)
    | some train => .ok (.command (.rv train))
  else if isWord (tokens 0) ['q'] then .ok (.command .q)
  else if isWord (tokens 0) ['g', 't'] then
    match pVTrainNum (atoi (tokens 1)), trackNameToNum names (tokens 2) with
    | none, _ => .ok (.rejected .trainNum)
    | some _, none => .ok (.rejected .destination)
    | some train, some dest => .ok (.command (.gt train dest (atoi (tokens 3))))
  else if isWord (tokens 0) ['d', 'i', 'e'] then .ok (.command .die)
  else if isWord (tokens 0) ['r', 'e', 'g'] then
    match pVTrainNum (atoi (tokens 1)), trackNameToNum names (tokens 2) with
    | none, _ => .ok (.rejected .trainNum)
    | some _, none => .ok (.rejected .node)
    | some train, some source => .ok (.command (.reg train source))
  else if isWord (tokens 0) ['m', 'o', 'c', 'k'] then
    match trackNameToNum names (tokens 1) with
    -- the name of the node is printed
    | none => .error .offTrack
    | some sensor => .ok (.command (.mock sensor))
  else if isWord (tokens 0) ['r', 'a', 'n', 'd', 'o', 'm'] then
    let type := atoi (tokens 1)
    if type < 1 ∨ type > 3 then .ok (.rejected .random)
    else match pVTrainNum (atoi (tokens 2)) with
      | none => .ok (.rejected .trainNum)
      | some train => .ok (.command (.random type train))
  else .ok .invalid

end Shell

/-- The variables of `shell`: the line that is typed, the ring of the commands of a plan, and the
requests that have been sent to the servers so far. -/
structure Shell where
  editor : Shell.Editor
  commandCb : CircularBuffer Shell.Command
  isPlanningMode : Bool
  requests : List Shell.Request

namespace Shell

/-- `shell` up to its loop. -/
def start : Shell where
  editor := ⟨List.replicate terminalMaxInputSize 0, 0, Editor.length_cleared, Nat.zero_le _⟩
  commandCb := .cbInit (.tr 0 0) maxPlannedCommands
  isPlanningMode := false
  requests := []

def request (s : Shell) (r : Request) : Shell := { s with requests := s.requests ++ [r] }

/-- One command of the ring. -/
def execute (s : Shell) : Command → Except Fault Shell
  | .tr train speed => .ok (s.request (.speed train speed))
  | .sw num orientation => .ok (s.request (.switch num (if orientation = 99 then 1 else 0)))
  | .rv train => .ok (s.request (.speed train 15))
  | .q => .error .shutdown
  | .gt train dest offset => .ok (s.request (.navigation train dest offset))
  | .die => .error .die
  | .reg train source => .ok (s.request (.registerLocation train source))
  | .mock sensor =>
    let group := sensor.val / sensorsPerGroup
    if group < numSensorGroups then
      .ok (s.request (.sensorUpdate group (0x80 >>> (sensor.val % sensorsPerGroup))))
    else .error .readingsOverrun
  | .random type train => .ok (s.request (.random type train))

/-- The loop over the ring. -/
def flush (s : Shell) : ℕ → Except Fault Shell
  | 0 => .ok s
  | n + 1 =>
    match s.commandCb.cbPopFront with
    | none => .ok s
    | some (command, commandCb) => do
      let s ← { s with commandCb }.execute command
      s.flush n

/-- What is behind the branches on the first token. -/
def finish (s : Shell) : Except Fault Shell := do
  let s ← if s.isPlanningMode then .ok s else s.flush s.commandCb.count
  .ok { s with editor := s.editor.clear }

/-- What comes of a line. Only a command and a line that is none get to the ring and to the end of
the loop, where the array is cleared; the others `continue`. -/
def answer (s : Shell) : Parsed → Except Fault Shell
  | .plan => .ok { s with isPlanningMode := true }
  | .doneplan =>
    if s.isPlanningMode then ({ s with isPlanningMode := false } : Shell).finish else .ok s
  | .command command =>
    ({ s with commandCb := (s.commandCb.cbPushBack command false).getD s.commandCb } : Shell).finish
  | .rejected _ => .ok s
  | .invalid => s.finish

/-- A line is entered. -/
def enterLine (names : TrackNames) (s : Shell) (tokens : Tokens) : Except Fault Shell := do
  let parsed ← interpret names tokens
  s.answer parsed

/-- One turn of the loop of `shell`, for a character that was typed. -/
def getc (names : TrackNames) (s : Shell) (c : Byte) : Except Fault Shell := do
  let (editor, entered) ← s.editor.handleNewChar c
  match entered with
  | none => .ok { s with editor }
  | some tokens => ({ s with editor } : Shell).enterLine names tokens

end Shell

/-- The shell, for characters that are typed. -/
def shellSystem (names : TrackNames) : System Shell Byte where
  init s := s = .start
  step s c s' := s.getc names c = .ok s'

end PollingExpress
