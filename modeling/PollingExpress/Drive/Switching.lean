import Mathlib.Algebra.BigOperators.Group.Finset.Basic
import PollingExpress.Drive.Straightpath
import PollingExpress.Nav.Drivable

/-!
# Switching just in time

What `process_path` and the calls of `send_branches` come to. A path has sensors and switches on it,
in some order (`marks`); `branches` is made of their codes, and `passages` are the commands for the
switches.

After `c` calls, `send_branches` stands at the `c`th sensor and has sent the switches before it, or
it stands at the end and has sent them all (`Reached`). The worker makes two calls before the train
starts and one more for each sensor that it handles, so the switches before the sensor after the
next one are always set (`just_in_time`).

`process_path` adds up lengths on its own, from one sensor to the next. As long as nothing wraps
around, they are those that `get_path_dist` finds (`sum_distance`).
-/

namespace PollingExpress
namespace Drive

/-! ### The sensors and switches on a path -/

inductive Mark
  | sensor
  /-- A switch, and how it is to be set. -/
  | switch (num : Int) (dir : Int32)
  deriving DecidableEq

/-- The entry of `branches`. -/
def Mark.code : Mark → Int32
  | .sensor => 0
  | .switch num dir => branchCode dir num

/-- The command that is sent. -/
def Mark.command : Mark → Option (Int32 × Int32)
  | .sensor => none
  | .switch num dir => some (Int32.ofInt num, dir)

/-- The number of a switch fits into the byte that it has in `branches`, and is not the 0 that
stands for a sensor. -/
def Numbered (T : Track) : Prop := ∀ n, (T.node n).type = .branch ∨ (T.node n).type = .merge →
  1 ≤ (T.node n).num ∧ (T.node n).num < 256

instance (T : Track) : Decidable (Numbered T) := inferInstanceAs (Decidable (∀ _, _ → _))

section
variable (T : Track)

/-- How the branch `n` is to be set for a train that goes on to `m`: 1 is for curved. -/
def legTo (n m : NodeNum) : Int32 := if ((T.node n).edge dirCurved).dest = some m then 1 else 0

/-- A merge is a branch for those who come the other way. -/
def mark (prev : Option NodeNum) (cur : NodeNum) (next : Option NodeNum) : Option Mark :=
  match (T.node cur).type with
  | .sensor => some .sensor
  | .branch => next.map fun m => .switch (T.node cur).num (legTo T cur m)
  | .merge => prev.map fun m => .switch (T.node cur).num (legTo T (T.reverse cur) (T.reverse m))
  | _ => none

def marksFrom : Option NodeNum → List NodeNum → List Mark
  | _, [] => []
  | prev, cur :: rest => (mark T prev cur rest.head?).toList ++ marksFrom (some cur) rest

/-- The sensors and switches on a path. -/
def marks (path : List NodeNum) : List Mark := marksFrom T none path

/-- The commands for the switches that are passed on a path. -/
def passages (path : List NodeNum) : List (Int32 × Int32) := (marks T path).filterMap Mark.command

/-- The number of sensors on a path. -/
def sensors (path : List NodeNum) : ℕ := path.countP fun n => (T.node n).type = .sensor

end

variable {T : Track} {prev next : Option NodeNum} {cur n : NodeNum}
  {path before after : List NodeNum}

theorem count_mark : (mark T prev cur next).toList.count .sensor =
    if (T.node cur).type = .sensor then 1 else 0 := by
  unfold mark
  split
  · next h => rw [if_pos h]; rfl
  · next h => cases next <;> simp [h]
  · next h => cases prev <;> simp [h]
  · next h _ _ => rw [if_neg h]; rfl

theorem count_marksFrom : (marksFrom T prev path).count .sensor = sensors T path := by
  induction path generalizing prev with
  | nil => rfl
  | cons cur rest ih =>
    rw [marksFrom, List.count_append, count_mark, ih, sensors, sensors, List.countP_cons,
      Nat.add_comm]
    simp

theorem length_marksFrom_le : (marksFrom T prev path).length ≤ path.length := by
  induction path generalizing prev with
  | nil => exact le_rfl
  | cons cur rest ih =>
    have h_rest := @ih (some cur)
    have h_one : (mark T prev cur rest.head?).toList.length ≤ 1 := Option.length_toList_le
    rw [marksFrom, List.length_append, List.length_cons]
    omega

/-- The marks up to a sensor, and those behind it. -/
theorem marksFrom_sensor (h : (T.node n).type = .sensor) :
    ∃ l, marksFrom T prev (before ++ [n]) = l ++ [.sensor] ∧
    marksFrom T prev (before ++ n :: after) = l ++ .sensor :: marksFrom T (some n) after := by
  have h_mark : ∀ prev next, mark T prev n next = some .sensor := by
    intro prev next
    rw [mark, h]
  induction before generalizing prev with
  | nil => exact ⟨[], by simp [marksFrom, h_mark], by simp [marksFrom, h_mark]⟩
  | cons cur before ih =>
    obtain ⟨l, h_one, h_all⟩ := @ih (some cur)
    have h_head : (before ++ [n]).head? = (before ++ n :: after).head? := by cases before <;> rfl
    refine ⟨(mark T prev cur (before ++ n :: after).head?).toList ++ l, ?_, ?_⟩
    · rw [List.cons_append, marksFrom, h_one, h_head, List.append_assoc]
    · rw [List.cons_append, marksFrom, h_all, List.append_assoc]

/-! ### The codes -/

/-- What the marks of a path are like. -/
def Mark.Valid : Mark → Prop
  | .sensor => True
  | .switch num dir => (1 ≤ num ∧ num < 256) ∧ (dir = 0 ∨ dir = 1)

/-- A mark has a code that tells it from a sensor and from the terminator: the number of a switch is
not 0 and the leg is 0 or 1. -/
theorem valid_of_mem (h_num : Numbered T) {m : Mark} (h : m ∈ marksFrom T prev path) : m.Valid := by
  have h_leg : ∀ n m, legTo T n m = 0 ∨ legTo T n m = 1 := by
    intro n m
    unfold legTo
    split
    · exact .inr rfl
    · exact .inl rfl
  induction path generalizing prev with
  | nil => cases h
  | cons cur rest ih =>
    rw [marksFrom, List.mem_append] at h
    rcases h with h | h
    · rw [Option.mem_toList] at h
      unfold mark at h
      -- a sensor, a branch, a merge, or a node that leaves no mark
      split at h
      · obtain rfl := Option.some.inj h
        trivial
      · next h_type =>
        obtain ⟨m, -, rfl⟩ := Option.map_eq_some_iff.mp h
        have h_num := h_num cur (.inl h_type)
        exact ⟨⟨by omega, by omega⟩, h_leg _ _⟩
      · next h_type =>
        obtain ⟨m, -, rfl⟩ := Option.map_eq_some_iff.mp h
        have h_num := h_num cur (.inr h_type)
        exact ⟨⟨by omega, by omega⟩, h_leg _ _⟩
      · cases h
    · exact ih h

/-- The code of a switch is positive, and the command can be read off it. -/
theorem branchCode_valid {num : Int} {dir : Int32} (h : (Mark.switch num dir).Valid) :
    branchCode dir num > 0 ∧
    (branchCode dir num &&& 0xff, branchCode dir num >>> 8) = (Int32.ofInt num, dir) := by
  obtain ⟨⟨h_pos, h_lt⟩, h_dir⟩ := h
  obtain ⟨k, rfl⟩ := Int.eq_ofNat_of_zero_le (by omega : 0 ≤ num)
  -- the number is a byte, so that both directions can be tried out for all numbers
  have h_straight : ∀ k : Fin 256, 0 < k.val →
      0 < branchCode 0 k.val ∧ branchCode 0 k.val &&& 0xff = Int32.ofInt k.val ∧
      branchCode 0 k.val >>> 8 = 0 := by decide +kernel
  have h_curved : ∀ k : Fin 256, 0 < branchCode 1 k.val ∧
      branchCode 1 k.val &&& 0xff = Int32.ofInt k.val ∧
      branchCode 1 k.val >>> 8 = 1 := by decide +kernel
  rcases h_dir with rfl | rfl
  · obtain ⟨h_gt, h_num, h_leg⟩ := h_straight ⟨k, by omega⟩ (show 0 < k by omega)
    exact ⟨h_gt, Prod.ext h_num h_leg⟩
  · obtain ⟨h_gt, h_num, h_leg⟩ := h_curved ⟨k, by omega⟩
    exact ⟨h_gt, Prod.ext h_num h_leg⟩

theorem code_ne (m : Mark) (h : m.Valid) : m.code ≠ -1 := by
  cases m with
  | sensor => decide
  | switch num dir =>
    intro h_eq
    have h_pos := (branchCode_valid h).1
    rw [show branchCode dir num = -1 from h_eq] at h_pos
    exact absurd h_pos (by decide)

/-! ### Sending -/

/-- The array `branches` holds the codes of the marks, and its terminator. A mark of the path is a
sensor or a switch with the way it is to be set; the code of a sensor is 0, which is why no switch
may have that number. -/
structure Table (marks : List Mark) (r : TrainRecord) : Prop where
  entry : ∀ i m, marks[i]? = some m → r.branches i = m.code
  stop : r.branches marks.length = -1
  fits : marks.length < maxBranches
  valid : ∀ m ∈ marks, m.Valid

/-- Where `send_branches` has come to after `c` calls: it has not begun, or it is at the `c`th
sensor, or there are fewer sensors than that. -/
inductive Reached (marks : List Mark) (c : ℕ) (r : TrainRecord) : Prop
  | start (h_calls : c = 0) (h_j : r.j = -1) (h_sent : r.sent = [])
  | sensor (done rest : List Mark) (h_marks : marks = done ++ .sensor :: rest)
      (h_calls : done.count .sensor + 1 = c) (h_j : r.j = done.length)
      (h_sent : r.sent = done.filterMap Mark.command)
  | finish (h_calls : marks.count .sensor < c) (h_j : r.j = marks.length)
      (h_sent : r.sent = marks.filterMap Mark.command)

section
variable {marks done rest : List Mark} {c : ℕ} {r : TrainRecord}

/-- What is read at the mark that comes next. -/
theorem Table.branch_eq (h : Table marks r) (h_marks : marks = done ++ rest)
    (h_j : r.j = done.length) :
    (0 ≤ r.j ∧ r.j < maxBranches) ∧ r.branches r.j.toNat =
      (rest.head?.map Mark.code).getD (-1) := by
  have h_fits := h.fits
  rw [h_marks, List.length_append] at h_fits
  rw [h_j, Int.toNat_natCast]
  refine ⟨⟨by omega, by omega⟩, ?_⟩
  -- behind the last mark there is the -1
  cases rest with
  | nil =>
    have h_stop := h.stop
    rwa [h_marks, List.append_nil] at h_stop
  | cons m rest =>
    refine h.entry _ m ?_
    rw [h_marks, List.getElem?_append_right le_rfl, Nat.sub_self]
    rfl

theorem Table.congr (h : Table marks r) {r' : TrainRecord} (h_branches : r'.branches = r.branches) :
    Table marks r' := by
  obtain ⟨h_entry, h_stop, h_fits, h_valid⟩ := h
  refine ⟨?_, ?_, h_fits, h_valid⟩
  · rwa [h_branches]
  · rwa [h_branches]

theorem Reached.congr (h : Reached marks c r) {r' : TrainRecord} (h_j' : r'.j = r.j)
    (h_sent' : r'.sent = r.sent) :
    Reached marks c r' := by
  cases h with
  | start h_calls h_j h_sent => exact .start h_calls (h_j'.trans h_j) (h_sent'.trans h_sent)
  | sensor done rest h_marks h_calls h_j h_sent =>
    exact .sensor done rest h_marks h_calls (h_j'.trans h_j) (h_sent'.trans h_sent)
  | finish h_calls h_j h_sent => exact .finish h_calls (h_j'.trans h_j) (h_sent'.trans h_sent)

/-- The loop goes on to the next sensor, or to the end. The induction is on the marks that are left:
a switch is sent, and a sensor or the terminator ends the loop. -/
theorem Table.sendLoop (h : Table marks r) (h_marks : marks = done ++ rest)
    (h_j : r.j = done.length) (h_sent : r.sent = done.filterMap Mark.command)
    (h_calls : done.count .sensor = c) :
    ∃ r', r.sendLoop = .ok r' ∧ Table marks r' ∧ Reached marks (c + 1) r' := by
  induction rest generalizing done r with
  | nil =>
    -- the terminator
    obtain ⟨h_range, h_branch⟩ := h.branch_eq h_marks h_j
    rw [List.append_nil] at h_marks
    subst h_marks
    refine ⟨r, ?_, h, .finish (by omega) h_j h_sent⟩
    rw [TrainRecord.sendLoop, if_pos h_range]
    exact if_neg (by rw [h_branch]; decide)
  | cons m rest ih =>
    obtain ⟨h_range, h_branch⟩ := h.branch_eq h_marks h_j
    rw [List.head?_cons, Option.map_some, Option.getD_some] at h_branch
    cases m with
    | sensor =>
      -- the code of a sensor is 0, so the loop ends here
      refine ⟨r, ?_, h, .sensor done rest h_marks (by omega) h_j h_sent⟩
      rw [TrainRecord.sendLoop, if_pos h_range]
      exact if_neg (by rw [h_branch]; decide)
    | switch num dir =>
      have h_mem : Mark.switch num dir ∈ marks := by
        rw [h_marks]
        exact List.mem_append_right _ List.mem_cons_self
      obtain ⟨h_pos, h_command⟩ := branchCode_valid (h.valid _ h_mem)
      -- a switch is sent, and the loop goes on
      rw [TrainRecord.sendLoop, if_pos h_range, h_branch]
      change ∃ r', (if branchCode dir num > 0 then _ else _) = _ ∧ _
      rw [if_pos h_pos]
      refine @ih (done ++ [.switch num dir]) (r.sendBranch (branchCode dir num))
        (h.congr rfl) ?_ ?_ ?_ ?_
      · rw [h_marks, List.append_assoc]
        rfl
      · change r.j + 1 = _
        rw [h_j, List.length_append]
        rfl
      · change r.sent ++ [_] = _
        rw [h_command, h_sent, List.filterMap_append]
        rfl
      · rw [List.count_append, h_calls]
        rfl

/-- One call comes one sensor further. The first one begins at the start of the table, every other
behind the sensor that the last one stopped at; a call at the terminator does nothing. -/
theorem Reached.sendBranches (h : Reached marks c r) (h_table : Table marks r) :
    ∃ r', r.sendBranches = .ok r' ∧ Table marks r' ∧ Reached marks (c + 1) r' := by
  unfold TrainRecord.sendBranches
  cases h with
  | start h_calls h_j h_sent =>
    -- the first call does not look at `branches[j]`, as `j` is -1
    rw [if_neg (by omega)]
    refine @Table.sendLoop marks [] marks c { r with j :=
      r.j + 1 } (h_table.congr rfl) rfl ?_ h_sent
      h_calls.symm
    change r.j + 1 = _
    rw [h_j]
    rfl
  | sensor done rest h_marks h_calls h_j h_sent =>
    obtain ⟨h_range, h_branch⟩ := h_table.branch_eq h_marks h_j
    rw [if_pos h_range.1, TrainRecord.branch, if_pos h_range, h_branch]
    refine @Table.sendLoop marks (done ++ [.sensor]) rest c { r with j := r.j + 1 }
      (h_table.congr rfl) ?_ ?_ ?_ ?_
    · rw [h_marks, List.append_assoc]
      rfl
    · change r.j + 1 = _
      rw [h_j, List.length_append]
      rfl
    · rw [List.filterMap_append]
      exact h_sent.trans (List.append_nil _).symm
    · rw [List.count_append]
      exact h_calls
  | finish h_calls h_j h_sent =>
    -- a call at the terminator does nothing
    obtain ⟨h_range, h_branch⟩ := h_table.branch_eq (List.append_nil marks).symm h_j
    rw [if_pos h_range.1, TrainRecord.branch, if_pos h_range, h_branch]
    exact ⟨r, rfl, h_table, .finish (by omega) h_j h_sent⟩

/-- So many calls. -/
theorem Reached.sendTimes (h : Reached marks 0 r) (h_table : Table marks r) (c : ℕ) :
    ∃ r', r.sendTimes c = .ok r' ∧ Table marks r' ∧ Reached marks c r' := by
  induction c with
  | zero => exact ⟨r, rfl, h_table, h⟩
  | succ c ih =>
    obtain ⟨r₁, h_ok, h_table₁, h₁⟩ := ih
    obtain ⟨r₂, h_ok₂, h₂⟩ := h₁.sendBranches h_table₁
    refine ⟨r₂, ?_, h₂⟩
    rw [TrainRecord.sendTimes, h_ok]
    exact h_ok₂

/-- At the end, the loop after the stop makes no call. -/
theorem Table.sendRest_of_end (h : Table marks r) (h_j : r.j = marks.length) (calls : ℕ) :
    r.sendRest calls = .ok r := by
  obtain ⟨h_range, h_branch⟩ := h.branch_eq (List.append_nil marks).symm h_j
  cases calls with
  | zero | succ _ =>
    rw [TrainRecord.sendRest, TrainRecord.branch, if_pos h_range, h_branch]
    rfl

/-- Where the loop after the stop comes to: with as many calls as there are sensors left, to the end
of the table, and every switch of the path has been sent by then. -/
theorem Reached.sendRest (h : Reached marks c r) (h_table : Table marks r)
    (h_pos : 0 < c) {calls : ℕ} (h_enough : marks.count .sensor < c + calls) :
    ∃ r', r.sendRest calls = .ok r' ∧
      Table marks r' ∧ r'.j = marks.length ∧ r'.sent = marks.filterMap Mark.command := by
  induction calls generalizing c r with
  | zero =>
    cases h with
    | start h_calls => omega
    | sensor done rest h_marks h_calls =>
      -- there are not enough sensors for this one to be on the path
      rw [h_marks, List.count_append, List.count_cons_self] at h_enough
      omega
    | finish h_calls h_j h_sent => exact ⟨r, h_table.sendRest_of_end h_j 0, h_table, h_j, h_sent⟩
  | succ calls ih =>
    cases h with
    | start h_calls => omega
    | sensor done rest h_marks h_calls h_j h_sent =>
      obtain ⟨h_range, h_branch⟩ := h_table.branch_eq h_marks h_j
      obtain ⟨r₁, h_ok, h_table₁, h₁⟩ :=
        (Reached.sensor done rest h_marks h_calls h_j h_sent).sendBranches h_table
      obtain ⟨r₂, h_ok₂, h₂⟩ := ih h₁ h_table₁ (by omega) (by omega)
      refine ⟨r₂, ?_, h₂⟩
      rw [TrainRecord.sendRest, TrainRecord.branch, if_pos h_range, h_branch]
      change (if (0 : Int32) = -1 then .ok r else r.sendBranches >>= fun r => r.sendRest calls) = _
      rw [if_neg (by decide), h_ok]
      exact h_ok₂
    | finish h_calls h_j h_sent =>
      exact ⟨r, h_table.sendRest_of_end h_j (calls + 1), h_table, h_j, h_sent⟩

/-- What has been sent is the beginning of what is to be sent. -/
theorem Reached.sent_prefix (h : Reached marks c r) : r.sent <+: marks.filterMap Mark.command := by
  cases h with
  | start _ _ h_sent =>
    rw [h_sent]
    exact List.nil_prefix
  | sensor done rest h_marks _ _ h_sent =>
    -- the switches before the sensor
    rw [h_sent, h_marks, List.filterMap_append]
    exact List.prefix_append _ _
  | finish _ _ h_sent =>
    rw [h_sent]

/-- The entries up to the one that has been read are not the terminator. -/
theorem Reached.branches_ne (h : Reached marks c r) (h_table : Table marks r) {i : ℕ}
    (h_i : i < r.j) :
    r.branches i ≠ -1 := by
  have h_lt : i < marks.length := by
    cases h with
    | start _ h_j => omega
    | sensor done rest h_marks _ h_j =>
      rw [h_marks, List.length_append]
      omega
    | finish _ h_j => omega
  rw [h_table.entry i _ (List.getElem?_eq_getElem h_lt)]
  exact code_ne _ (h_table.valid _ (List.getElem_mem h_lt))

/-- At the `c`th sensor. -/
theorem Reached.sent_eq (h : Reached marks c r) (h_marks : marks = done ++ .sensor :: rest)
    (h_calls : done.count .sensor + 1 = c) : r.sent = done.filterMap Mark.command := by
  have h_count : marks.count .sensor = done.count .sensor + (rest.count .sensor + 1) := by
    rw [h_marks, List.count_append, List.count_cons_self]
  cases h with
  | start h_zero => omega
  | finish h_few => omega
  | sensor done' rest' h_marks' h_calls' _ h_sent =>
    rw [h_sent]
    -- there is one `c`th sensor only
    have h_eq : done ++ .sensor :: rest = done' ++ .sensor :: rest' := h_marks.symm.trans h_marks'
    rcases List.append_eq_append_iff.mp h_eq with ⟨l, rfl, h_rest⟩ | ⟨l, rfl, h_rest⟩
    · cases l with
      | nil => rw [List.append_nil]
      | cons m l =>
        obtain ⟨rfl, -⟩ := List.cons.inj h_rest
        rw [List.count_append, List.count_cons_self] at h_calls'
        omega
    · cases l with
      | nil => rw [List.append_nil]
      | cons m l =>
        obtain ⟨rfl, -⟩ := List.cons.inj h_rest
        rw [List.count_append, List.count_cons_self] at h_calls
        omega

/-- When there is no `c`th sensor. -/
theorem Reached.sent_all (h : Reached marks c r) (h_few : marks.count .sensor < c) :
    r.sent = marks.filterMap Mark.command := by
  cases h with
  | start h_zero => omega
  | sensor done rest h_marks h_calls =>
    rw [h_marks, List.count_append, List.count_cons_self] at h_few
    omega
  | finish _ _ h_sent => exact h_sent

end

/-! ### Taking the path apart -/

/-- What the loop of `process_path` does at a node: an entry for its mark, and the distance of a
sensor. -/
structure Processed (T : Track) (prev : Option NodeNum) (cur : NodeNum) (next : Option NodeNum)
    (s s' : PathState) :
    Prop where
  j : s'.j = s.j + sensors T [cur]
  k : s'.k = s.k + (mark T prev cur next).toList.length
  branches : s'.record.branches =
    (mark T prev cur next).elim s.record.branches fun m =>
      Function.update s.record.branches s.k m.code
  distance : s'.record.distance = if (T.node cur).type = .sensor then
    Function.update s.record.distance s.j (s.dist * 1000) else s.record.distance
  dist : ∀ m d, next = some m → T.edgeDist cur m = some d →
    s'.dist = (if (T.node cur).type = .sensor then 0 else s.dist) + Int32.ofInt d

section
variable {s s' : PathState} {e : TrackEdge}

theorem sensors_singleton : sensors T [cur] = if (T.node cur).type = .sensor then 1 else 0 := by
  rw [sensors, List.countP_singleton]
  simp

theorem sensors_cons : sensors T (cur :: path) = sensors T [cur] + sensors T path :=
  @List.countP_append _ _ [cur] path

theorem addBranch_ok (h : s.k < maxBranches) (v : Int32) : s.addBranch v = .ok { s with
    record := { s.record with branches := Function.update s.record.branches s.k v }
    k := s.k + 1 } := by
  rw [PathState.addBranch, store, if_pos h]
  rfl

theorem addSensor_ok (h_j : s.j < maxSensors) (h_k : s.k < maxBranches) (num : Int) :
    s.addSensor num =
    .ok { s with
      record := { s.record with
        next := Function.update s.record.next s.j num
        distance := Function.update s.record.distance s.j (s.dist * 1000)
        branches := Function.update s.record.branches s.k 0 }
      dist := 0
      j := s.j + 1
      k := s.k + 1 } := by
  rw [PathState.addSensor, store, store, if_pos h_j, if_pos h_j, bind_of_ok rfl, bind_of_ok rfl]
  exact addBranch_ok (by exact h_k) 0

/-- The edge that is followed from `cur` is the one that `get_path_dist` takes. -/
def Taken (T : Track) (cur : NodeNum) (next : Option NodeNum) (e : TrackEdge) : Prop :=
  ∀ m d, next = some m → T.edgeDist cur m = some d → e.dist = d

/-- There is only one from a node that is no branch. -/
theorem taken_ahead (h_type : (T.node cur).type ≠ .branch) :
    Taken T cur next ((T.node cur).edge dirAhead) := by
  intro m d _ h_d
  rw [Track.edgeDist, if_neg h_type] at h_d
  split at h_d
  · exact Option.some.inj h_d
  · cases h_d

/-- At a branch, both look at the curved leg first. -/
theorem taken_leg {m : NodeNum} (h_type : (T.node cur).type = .branch) : Taken T cur (some m)
    ((T.node cur).edge
      (if ((T.node cur).edge dirCurved).dest = some m then dirCurved else dirStraight)) := by
  intro m' d h_next h_d
  obtain rfl := Option.some.inj h_next
  rw [Track.edgeDist, if_pos h_type] at h_d
  by_cases h_dest : ((T.node cur).edge dirCurved).dest = some m
  · rw [if_pos h_dest] at h_d ⊢
    exact Option.some.inj h_d
  · rw [if_neg h_dest] at h_d ⊢
    split at h_d
    · exact Option.some.inj h_d
    · cases h_d

/-- A node without an entry. -/
theorem processed_silent (h_type : (T.node cur).type ≠ .sensor)
    (h_mark : mark T prev cur next = none) (h_edge : Taken T cur next e) :
    Processed T prev cur next s (s.advance e) := by
  refine ⟨?_, ?_, ?_, ?_, fun m d h_next h_d => ?_⟩
  · rw [sensors_singleton, if_neg h_type]
    rfl
  · rw [h_mark]
    rfl
  · rw [h_mark]
    rfl
  · rw [if_neg h_type]
    rfl
  · rw [if_neg h_type, ← h_edge m d h_next h_d]
    rfl

/-- A switch. -/
theorem exists_processed_switch {num : Int} {dir : Int32} (h_k : s.k < maxBranches)
    (h_type : (T.node cur).type ≠ .sensor) (h_mark : mark T prev cur next = some (.switch num dir))
    (h_edge : Taken T cur next e) : ∃ s', (do
      let s ← s.addBranch (branchCode dir num)
      .ok (s.advance e)) = .ok s' ∧ Processed T prev cur next s s' := by
  rw [addBranch_ok h_k]
  -- one mark more, no sensor more, and the length of the edge that is taken
  refine ⟨_, rfl, ?_, ?_, ?_, ?_, fun m d h_next h_d => ?_⟩
  · rw [sensors_singleton, if_neg h_type]
    rfl
  · rw [h_mark]
    rfl
  · rw [h_mark]
    rfl
  · rw [if_neg h_type]
    rfl
  · rw [if_neg h_type, ← h_edge m d h_next h_d]
    rfl

/-- A sensor. -/
theorem exists_processed_sensor (h_j : s.j < maxSensors) (h_k : s.k < maxBranches)
    (h_type : (T.node cur).type = .sensor) (h_edge : Taken T cur next e) : ∃ s', (do
      let s ← s.addSensor (T.node cur).num
      .ok (s.advance e)) = .ok s' ∧ Processed T prev cur next s s' := by
  have h_mark : mark T prev cur next = some .sensor := by rw [mark, h_type]
  rw [addSensor_ok h_j h_k]
  -- one mark and one sensor more; the distance is stored and begins again
  refine ⟨_, rfl, ?_, ?_, ?_, ?_, fun m d h_next h_d => ?_⟩
  · rw [sensors_singleton, if_pos h_type]
    rfl
  · rw [h_mark]
    rfl
  · rw [h_mark]
    rfl
  · rw [if_pos h_type]
    rfl
  · rw [if_pos h_type, ← h_edge m d h_next h_d]
    rfl

/-- A node without a mark: no switch, or one that the path begins or ends with. -/
theorem mark_eq_none (h_sensor : (T.node cur).type ≠ .sensor)
    (h_merge : ∀ m, (T.node cur).type = .merge → prev = some m → False)
    (h_branch : ∀ m, (T.node cur).type = .branch → next = some m → False) :
    mark T prev cur next = none := by
  -- a branch without a node behind it and a merge without one before it leave no mark
  unfold mark
  split
  · next h => exact absurd h h_sensor
  · next h =>
    cases next with
    | none => rfl
    | some m => exact (h_branch m h rfl).elim
  · next h =>
    cases prev with
    | none => rfl
    | some m => exact (h_merge m h rfl).elim
  · rfl

/-- One node of the path leaves a mark, or none, and both arrays have room for it. The cases are
those of the source. -/
theorem exists_processNode (h_j : s.j < maxSensors) (h_k : s.k < maxBranches) :
    ∃ s', processNode T prev cur next s = .ok s' ∧ Processed T prev cur next s s' := by
  unfold processNode
  dsimp only
  -- the cases of the source: a sensor, a branch with a node behind it, a merge with one before it,
  -- and the rest
  split
  · next h_type =>
      exact exists_processed_sensor h_j h_k h_type (taken_ahead (by rw [h_type]; decide))
  · next m h_type =>
    have h_leg :
        (if (if ((T.node cur).edge dirCurved).dest = some m then dirCurved else dirStraight) =
          dirCurved
          then (1 : Int32) else 0) = legTo T cur m := by
      unfold legTo
      by_cases h_dest : ((T.node cur).edge dirCurved).dest = some m
      · rw [if_pos h_dest, if_pos h_dest, if_pos rfl]
      · rw [if_neg h_dest, if_neg h_dest, if_neg (by decide)]
    rw [h_leg]
    refine exists_processed_switch h_k (by rw [h_type]; decide) ?_ (taken_leg h_type)
    rw [mark, h_type, Option.map_some]
  · next m h_type =>
    refine exists_processed_switch h_k (by rw [h_type]; decide) ?_
      (taken_ahead (by rw [h_type]; decide))
    rw [mark, h_type, Option.map_some]
    rfl
  · next h_sensor h_merge h_branch =>
    refine ⟨_, rfl, processed_silent h_sensor (mark_eq_none h_sensor h_merge h_branch) ?_⟩
    intro m d h_next
    exact taken_ahead (fun h => h_branch m h h_next) m d h_next

end

/-- What the loop of `process_path` does. -/
structure Scanned (T : Track) (prev : Option NodeNum) (path : List NodeNum) (s s' : PathState) :
    Prop where
  j : s'.j = s.j + sensors T path
  k : s'.k = s.k + (marksFrom T prev path).length
  entry : ∀ i m, (marksFrom T prev path)[i]? = some m → s'.record.branches (s.k + i) = m.code
  branches : ∀ i < s.k, s'.record.branches i = s.record.branches i
  distance : ∀ i < s.j, s'.record.distance i = s.record.distance i

section
variable {s s' s₁ : PathState} {rest : List NodeNum}

/-- The entries of a node come in front of those of the rest, and the rest leaves them alone. -/
theorem Processed.scanned (h : Processed T prev cur rest.head? s s₁)
    (h_rest : Scanned T (some cur) rest s₁ s') :
    Scanned T prev (cur :: rest) s s' := by
  have h_k := h.k
  refine ⟨?_, ?_, fun i m h_m => ?_, fun i h_i => ?_, fun i h_i => ?_⟩
  · rw [h_rest.j, h.j, @sensors_cons T cur rest, Nat.add_assoc]
  · rw [h_rest.k, h_k, marksFrom, List.length_append, Nat.add_assoc]
  · rw [marksFrom] at h_m
    have h_branches := h.branches
    cases h_mark : mark T prev cur rest.head? with
    | none =>
      rw [h_mark] at h_m h_k
      rw [← h_rest.entry i m h_m, h_k]
      rfl
    | some m₀ =>
      rw [h_mark] at h_m h_k h_branches
      -- the entry of this node is the first one
      cases i with
      | zero =>
        obtain rfl := Option.some.inj h_m
        rw [Nat.add_zero, h_rest.branches s.k (by rw [h_k]; exact Nat.lt_succ_self _), h_branches]
        exact Function.update_self _ _ _
      | succ i =>
        rw [← h_rest.entry i m h_m, h_k]
        congr 1
        change s.k + (i + 1) = s.k + 1 + i
        omega
  · rw [h_rest.branches i (by omega), h.branches]
    cases mark T prev cur rest.head? with
    | none => rfl
    | some m₀ => exact Function.update_of_ne h_i.ne _ _
  · have h_j := h.j
    rw [h_rest.distance i (by omega), h.distance]
    split
    · exact Function.update_of_ne h_i.ne _ _
    · rfl

theorem length_mark_le : (mark T prev cur next).toList.length ≤ 1 := Option.length_toList_le

theorem sensors_le : sensors T path ≤ path.length := List.countP_le_length

theorem exists_processNodes (h_j : s.j + path.length ≤ maxSensors)
    (h_k : s.k + path.length ≤ maxBranches) :
    ∃ s', processNodes T prev path s = .ok s' ∧ Scanned T prev path s s' := by
  induction path generalizing prev s with
  | nil => exact ⟨s, rfl, rfl, rfl, fun i m h_m => (by cases h_m), fun i _ => rfl, fun i _ => rfl⟩
  | cons cur rest ih =>
    rw [List.length_cons] at h_j h_k
    obtain ⟨s₁, h_ok, h_node⟩ := @exists_processNode T prev rest.head? cur s (by omega) (by omega)
    -- a node takes one place in each array at most, so that there is room for those that remain
    have h_j₁ := h_node.j
    have h_k₁ := h_node.k
    have h_sensor : sensors T [cur] ≤ 1 := sensors_le
    have h_mark := @length_mark_le T prev rest.head? cur
    obtain ⟨s', h_ok', h_rest⟩ := @ih (some cur) s₁ (by omega) (by omega)
    refine ⟨s', ?_, h_node.scanned h_rest⟩
    rw [processNodes, h_ok]
    exact h_ok'

/-! ### Lengths -/

/-- What the first `c` distances add up to. -/
def travelled (distance : ℕ → Int32) (c : ℕ) : Int := ∑ i ∈ Finset.range c, (distance i).toInt

theorem travelled_congr {d d' : ℕ → Int32} {c : ℕ} (h : ∀ i < c, d i = d' i) :
    travelled d c = travelled d' c :=
  Finset.sum_congr rfl fun i h_i => by rw [h i (Finset.mem_range.mp h_i)]

/-- The length of a path, over its first edge. -/
theorem getPathDistFrom_cons {m : NodeNum} {d : Int} {l : List NodeNum}
    (h_d : T.edgeDist cur m = some d) (h_l : l.head? = some m) (e : Int) :
    T.getPathDistFrom e (cur :: l) = T.getPathDistFrom (e + d) l := by
  obtain ⟨l, rfl⟩ := List.head?_eq_some_iff.mp h_l
  rw [Track.getPathDistFrom, h_d]

/-- The way to the first node is added to the length of a path. -/
theorem getPathDistFrom_add (h_wf : T.raw.WellFormed) (h_path : T.Drivable path) (a b : Int) :
    T.getPathDistFrom (a + b) path = a + T.getPathDistFrom b path := by
  induction h_path generalizing b with
  | nil | singleton _ => simp [Track.getPathDistFrom]
  | cons_cons h_open h ih =>
    obtain ⟨d, h_d, -⟩ := Nav.exists_edgeDist h_wf h_open
    rw [Track.getPathDistFrom, Track.getPathDistFrom, h_d]
    dsimp only
    rw [Int.add_assoc]
    exact ih (b + d)

/-- The distance of a sensor, as long as it does not wrap around. -/
theorem toInt_distance {e : Int} (h_e : 0 ≤ e) (h_short : 1000 * e < 2 ^ 31) :
    (Int32.ofInt e * 1000).toInt = 1000 * e := by
  rw [Int32.toInt_mul, Int32.toInt_ofInt_of_le (by omega) (by omega)]
  change (e * 1000).bmod (2 ^ 32) = _
  rw [Int.mul_comm]
  exact Int.bmod_eq_of_le (by omega) (by omega)

/-- What the distances add up to after a node. -/
theorem Processed.travelled (h : Processed T prev cur next s s₁) {e : Int}
    (h_dist : s.dist = Int32.ofInt e) (h_e : 0 ≤ e) (h_short : 1000 * e < 2 ^ 31) :
    Drive.travelled s₁.record.distance s₁.j =
      Drive.travelled s.record.distance s.j + 1000 *
        if (T.node cur).type = .sensor then e else 0 := by
  rw [h.j, h.distance, sensors_singleton]
  split
  · rw [Drive.travelled, Finset.sum_range_succ, Function.update_self, h_dist,
      toInt_distance h_e h_short]
    congr 1
    exact travelled_congr fun i h_i => Function.update_of_ne h_i.ne _ _
  · rw [Nat.add_zero, Int.mul_zero, Int.add_zero]

/-- The distance that is stored at a sensor stays there. -/
theorem travelled_sensor {e : Int} (h_n : (T.node n).type = .sensor)
    (h_dist : s.dist = Int32.ofInt e) (h_e : 0 ≤ e) (h_short : 1000 * e < 2 ^ 31)
    (h_j : s.j + (after.length + 1) ≤ maxSensors) (h_k : s.k + (after.length + 1) ≤ maxBranches)
    (h_ok : processNodes T prev (n :: after) s = .ok s') :
    travelled s'.record.distance (s.j + 1) = travelled s.record.distance s.j + 1000 * e := by
  obtain ⟨s₁, h_node_ok, h_node⟩ := @exists_processNode T prev after.head? n s (by omega) (by omega)
  have h_j₁ := h_node.j
  have h_k₁ := h_node.k
  have h_mark := @length_mark_le T prev after.head? n
  rw [sensors_singleton, if_pos h_n] at h_j₁
  -- the nodes behind the sensor store their distances behind it
  obtain ⟨s₂, h_ok₂, h_scanned⟩ := @exists_processNodes T (some n) after s₁ (by omega) (by omega)
  rw [processNodes, h_node_ok, bind_of_ok rfl, h_ok₂] at h_ok
  obtain rfl := Except.ok.inj h_ok
  have h_travelled := h_node.travelled h_dist h_e h_short
  rw [if_pos h_n, h_j₁] at h_travelled
  rw [travelled_congr fun i h_i => h_scanned.distance i (by omega)]
  exact h_travelled

/-- **The distances** up to a sensor add up to the length of the path that ends there. The induction
is on the nodes in front of the sensor. Each hop is added to `dist`, and a sensor moves what has
been added up into its own place; what is still in `dist` at the start is `e`, and no sum of the
path leaves 32 bits. -/
theorem sum_distance {e : Int} (h_wf : T.raw.WellFormed)
    (h_drivable : T.Drivable (before ++ n :: after)) (h_n : (T.node n).type = .sensor)
    (h_dist : s.dist = Int32.ofInt e) (h_e : 0 ≤ e)
    (h_short : 1000 * T.getPathDistFrom e (before ++ n :: after) < 2 ^ 31)
    (h_j : s.j + (before ++ n :: after).length ≤ maxSensors)
    (h_k : s.k + (before ++ n :: after).length ≤ maxBranches)
    (h_ok : processNodes T prev (before ++ n :: after) s = .ok s') :
    travelled s'.record.distance (s.j + sensors T before + 1) =
      travelled s.record.distance s.j + 1000 * T.getPathDistFrom e (before ++ [n]) := by
  have h_long := Nav.getPathDistFrom_ge h_wf h_drivable e
  induction before generalizing prev s e with
  | nil => exact travelled_sensor (e := e) h_n h_dist h_e (by omega) h_j h_k h_ok
  | cons cur before ih =>
    obtain ⟨m, rest, h_rest⟩ : ∃ m rest, before ++ n :: after = m :: rest := by
      cases before with
      | nil => exact ⟨_, _, rfl⟩
      | cons m before => exact ⟨_, _, rfl⟩
    rw [List.cons_append] at h_ok h_drivable h_short h_long
    rw [List.cons_append, List.length_cons] at h_j h_k
    -- the first node, and the room that is left behind it
    obtain ⟨s₁, h_node_ok, h_node⟩ :=
      @exists_processNode T prev (before ++ n :: after).head? cur s (by omega) (by omega)
    have h_j₁ := h_node.j
    have h_k₁ := h_node.k
    have h_sensor : sensors T [cur] ≤ 1 := sensors_le
    have h_mark := @length_mark_le T prev (before ++ n :: after).head? cur
    rw [processNodes, h_node_ok, bind_of_ok rfl] at h_ok
    -- the edge that both take
    have h_open : T.Unbroken cur m := by
      rw [h_rest] at h_drivable
      exact (List.isChain_cons_cons.mp h_drivable).1
    obtain ⟨d, h_d, h_nonneg⟩ := Nav.exists_edgeDist h_wf h_open
    have h_head : (before ++ n :: after).head? = some m := by rw [h_rest]; rfl
    have h_head' : (before ++ [n]).head? = some m := by
      rw [← h_head]
      cases before <;> rfl
    rw [getPathDistFrom_cons h_d h_head] at h_short h_long
    -- what the node adds to the way, and what is counted from it on
    have h_travelled := h_node.travelled h_dist h_e (by omega)
    have h_dist₁ := h_node.dist m d h_head h_d
    have h_sensors := @sensors_cons T cur before
    have h_index : s.j + sensors T (cur :: before) + 1 = s₁.j + sensors T before + 1 := by omega
    have h_drivable' : T.Drivable (before ++ n :: after) := h_drivable.tail
    have h_upto : T.Drivable (before ++ [n]) := by
      refine h_drivable'.prefix ⟨after, ?_⟩
      rw [List.append_assoc]
      rfl
    rw [List.cons_append, getPathDistFrom_cons h_d h_head', h_index]
    -- a sensor starts to count again
    by_cases h_type : (T.node cur).type = .sensor
    · rw [if_pos h_type] at h_dist₁ h_travelled
      have h_eq := getPathDistFrom_add h_wf h_drivable' e d
      have h_eq' := getPathDistFrom_add h_wf h_upto e d
      have h_ge := Nav.getPathDistFrom_ge h_wf h_drivable' d
      rw [ih h_drivable' (h_dist₁.trans (Int32.zero_add _)) h_nonneg (by omega) (by omega)
        (by omega) h_ok h_ge,
        h_travelled, h_eq']
      omega
    · rw [if_neg h_type] at h_dist₁ h_travelled
      -- any other node leaves the count going
      rw [h_dist, ← Int32.ofInt_add] at h_dist₁
      have h_ge := Nav.getPathDistFrom_ge h_wf h_drivable' (e + d)
      rw [ih h_drivable' h_dist₁ (by omega) h_short (by omega) (by omega) h_ok h_ge, h_travelled]
      omega

end

/-! ### Just in time -/

/-- What is true after `c` calls of `send_branches`.

A call goes on to the next sensor in the table, or to its end. What has been sent is a front part of
the passages, and it is all of those before the sensor that the calls have come to. -/
structure InTime (T : Track) (path : List NodeNum) (c : ℕ) (r : TrainRecord) : Prop where
  /-- The switches are set in the order in which they are passed, each of them once. -/
  order : r.sent <+: passages T path
  /-- Nothing behind the terminator has been read. -/
  inside : ∀ i : ℕ, i < r.j → r.branches i ≠ -1
  /-- The switches before the `c`th sensor are set. -/
  ahead : ∀ before n after, path = before ++ n :: after → (T.node n).type = .sensor →
    sensors T before + 1 = c →
    r.sent = passages T (before ++ [n])
  /-- All switches are set if there are fewer sensors. -/
  all : sensors T path < c → r.sent = passages T path

variable {marks' : List Mark} {c : ℕ} {r r₀ : TrainRecord}

theorem passages_snoc (h_n : (T.node n).type = .sensor) :
    ∃ done, done.filterMap Mark.command = passages T (before ++ [n]) ∧
    done.count .sensor = sensors T before ∧ ∃ rest,
      marks T (before ++ n :: after) = done ++ .sensor :: rest := by
  obtain ⟨done, h_one, h_all⟩ := @marksFrom_sensor T none n before after h_n
  refine ⟨done, ?_, ?_, _, h_all⟩
  · rw [passages, marks, h_one, List.filterMap_append]
    exact (List.append_nil _).symm
  · have h_count := @count_marksFrom T none (before ++ [n])
    rw [h_one, List.count_append, sensors, List.countP_append] at h_count
    change done.count .sensor + 1 = _ + sensors T [n] at h_count
    rw [sensors_singleton, if_pos h_n] at h_count
    exact Nat.add_right_cancel h_count

theorem Reached.inTime (h : Reached (marks T path) c r) (h_table : Table (marks T path) r) :
    InTime T path c r where
  order := h.sent_prefix
  inside i h_i := h.branches_ne h_table h_i
  ahead before n after h_path h_n h_c := by
    subst h_path
    obtain ⟨done, h_passages, h_count, rest, h_marks⟩ := @passages_snoc T n before after h_n
    rw [← h_passages]
    exact h.sent_eq h_marks (h_count ▸ h_c)
  all h_few := h.sent_all (by rwa [marks, count_marksFrom])

/-- A path with no more nodes than the track goes through `process_path`: a node leaves one mark at
most, so there is a place left for the -1 behind them. -/
theorem exists_processPath (h_num : Numbered T) (h_length : path.length ≤ trackMax)
    (r : TrainRecord) :
    ∃ s r₀, processNodes T none path { record := r, dist := 0, j := 0, k := 0 } = .ok s ∧
      processPath T r path = .ok r₀ ∧ r₀.distance = s.record.distance ∧
      Table (marks T path) r₀.started := by
  have h_sizes : trackMax ≤ maxSensors ∧ trackMax < maxBranches := by decide
  obtain ⟨s, h_ok, h_scanned⟩ :=
    @exists_processNodes T none path { record := r, dist := 0, j := 0, k := 0 }
    (by change 0 + _ ≤ _; omega) (by change 0 + _ ≤ _; omega)
  have h_k : s.k = (marks T path).length := h_scanned.k.trans (Nat.zero_add _)
  -- there is a place for the -1 behind the marks
  have h_fits : (marks T path).length < maxBranches := by
    have h_marks := @length_marksFrom_le T none path
    rw [marks]
    omega
  refine ⟨s, { s.record with len := s.j, branches := Function.update s.record.branches s.k (-1) },
    h_ok, ?_, rfl,
    fun i m h_m => ?_, ?_, h_fits, fun m h_m => valid_of_mem h_num h_m⟩
  · rw [processPath, h_ok, bind_of_ok rfl, store, if_pos (h_k ▸ h_fits)]
    rfl
  · -- the -1 is behind all entries, which stay as they are
    have h_entry := h_scanned.entry i m h_m
    rw [Nat.zero_add] at h_entry
    have h_lt := (List.getElem?_eq_some_iff.mp h_m).1
    rw [← h_entry]
    exact Function.update_of_ne (by omega) _ _
  · rw [← h_k]
    exact Function.update_self _ _ _

/-- **Switching just in time.** On a path without broken edges, whatever the record held before:
after any number of calls of `send_branches` the switches before the sensor with that number are
set, in the order of the path, each of them once, and the loop after the stop sets those that are
left. The distances up to a sensor add up to what `get_path_dist` finds for the path that ends
there. -/
theorem just_in_time (h_wf : T.raw.WellFormed) (h_num : Numbered T) (h_drivable : T.Drivable path)
    (h_length : path.length ≤ trackMax) (h_short : T.getPathDist path * 1000 < 2 ^ 31)
    (r : TrainRecord) :
    ∃ r₀, processPath T r path = .ok r₀ ∧
      (∀ c, ∃ r₁, r₀.started.sendTimes c = .ok r₁ ∧ InTime T path c r₁ ∧
        (0 < c → ∃ r₂, r₁.sendRest path.length = .ok r₂ ∧ r₂.sent = passages T path ∧
          ∀ i : ℕ, i < r₂.j → r₂.branches i ≠ -1)) ∧
      ∀ before n after, path = before ++ n :: after → (T.node n).type = .sensor →
        travelled r₀.distance (sensors T before + 1) = 1000 * T.getPathDist (before ++ [n]) := by
  have h_sizes : trackMax ≤ maxSensors ∧ trackMax ≤ maxBranches := by decide
  obtain ⟨s, r₀, h_nodes, h_ok, h_distance, h_table⟩ := exists_processPath h_num h_length r
  refine ⟨r₀, h_ok, fun c => ?_, fun before n after h_path h_n => ?_⟩
  · obtain ⟨r₁, h_calls, h_table₁, h_reached⟩ := (Reached.start rfl rfl rfl).sendTimes h_table c
    refine ⟨r₁, h_calls, h_reached.inTime h_table₁, fun h_pos => ?_⟩
    -- the loop after the stop ends, since a turn of it goes on by a mark at least
    have h_count : (marks T path).count .sensor ≤ path.length := by
      rw [marks, count_marksFrom]
      exact sensors_le
    obtain ⟨r₂, h_rest, h_table₂, h_j, h_sent⟩ :=
      @Reached.sendRest _ c r₁ h_reached h_table₁ h_pos path.length (by omega)
    exact ⟨r₂, h_rest, h_sent,
      fun i h_i => (Reached.finish (Nat.lt_succ_self _) h_j h_sent).branches_ne h_table₂ h_i⟩
  · subst h_path
    rw [Track.getPathDist, Int.mul_comm] at h_short
    -- the distances up to the sensor `n`
    have h_sum := sum_distance h_wf h_drivable h_n rfl le_rfl h_short (by change 0 + _ ≤ _; omega)
      (by change 0 + _ ≤ _; omega) h_nodes
    rw [h_distance, Track.getPathDist, ← Int.zero_add (1000 * _)]
    rw [Nat.zero_add] at h_sum
    exact h_sum

/-- Over two branches to a sensor, and out over a third one: before the train starts, the first two
are set. -/
theorem just_in_time_curved : ∃ r₀ r₁ : TrainRecord,
    processPath switchTrack blankRecord [15, 13, 11, 5, 3, 9] = .ok r₀ ∧
      r₀.started.sendTimes 2 = .ok r₁ ∧
      r₁.sent = [(4, 0), (3, 0)] ∧ travelled r₀.distance 2 = 3000 := by
  let path : List NodeNum := [15, 13, 11, 5, 3, 9]
  have h_drivable : switchTrack.Drivable path := by
    have h_chain : path.IsChain fun n m => ∃ e ∈ (switchTrack.raw n).trackEdges, e.dest = some m ∧
        e.dist < Search.inf := by
      decide +kernel
    refine h_chain.imp fun n m h_edge => ?_
    obtain ⟨e, h_e, h_dest, h_dist⟩ := h_edge
    exact ⟨_, e, h_e, h_dest, rfl, h_dist⟩
  obtain ⟨r₀, h_ok, h_calls, h_sum⟩ :=
    just_in_time switchTrack_mirrored.wellFormed (by decide +kernel) h_drivable
    (by decide) (by decide +kernel) blankRecord
  obtain ⟨r₁, h_two, h_time, -⟩ := h_calls 2
  refine ⟨r₀, r₁, h_ok, h_two, ?_, ?_⟩
  · rw [h_time.ahead [15, 13, 11] 5 [3, 9] rfl (by decide) (by decide +kernel)]
    decide +kernel
  · have h_three := h_sum [15, 13, 11] 5 [3, 9] rfl (by decide)
    rw [show sensors switchTrack [15, 13, 11] = 1 by decide +kernel,
      show switchTrack.getPathDist ([15, 13, 11] ++ [5]) = 3 by decide +kernel] at h_three
    exact h_three

end Drive
end PollingExpress
