import Mathlib.Data.Int.Bitwise
import Mathlib.Data.List.TakeWhile
import PollingExpress.Framework.TimedWrites
import PollingExpress.Track.Basic
import PollingExpress.Train.Schedule

/-!
# The switches of a path

`process_path` and `send_branches` of `straightpathworker.c`: the worker makes a table of the
sensors and the switches of its path, with the direction in which each switch is passed, and
asks the train server for the switches up to the next sensor, one stretch at a time.

`Track.passages` is what the path needs: the switches in the order in which they are passed,
with the leg that is taken. `sendAll_requests` says that just this is asked for. What comes of
it is the matter of `switches_set`. The requests are carried out in the order of their times,
and a request for one half of a three-way switch moves the other half as well.

The arrays of the record are lists of what `process_path` puts there. An entry of `branches`
is 0 for a sensor, and -1 ends the table.
-/

namespace PollingExpress
namespace Train

open TrainServer (partner cNot)

/-- The part of `train_record` that is about the path. -/
structure TrainRecord where
  next : List Int
  distance : List Int
  len : ℕ
  branches : List Int
  j : Int

/-- `dir << 8 | num`. -/
def packBranch (dir : Fin 2) (num : Int) : Int := Int.lor ((dir.val : Int) <<< 8) num

/-- The loop of `process_path`, with the node before and the distance so far. -/
def processFrom (T : Track) (r : TrainRecord) (prev : Option NodeNum) (dist : Int) :
    List NodeNum → TrainRecord
  | [] => { r with len := r.next.length, branches := r.branches ++ [-1] }
  | cur :: rest =>
    let node := T.node cur
    match node.type, rest.head?, prev with
    | .sensor, _, _ =>
      processFrom T { r with
        next := r.next ++ [node.num]
        distance := r.distance ++ [dist * 1000]
        branches := r.branches ++ [0] } (some cur) (node.edge 0).dist rest
    | .branch, some following, _ =>
      let dir := if (node.edge dirCurved).dest = some following then 1 else 0
      processFrom T { r with branches := r.branches ++ [packBranch dir node.num] } (some cur)
        (dist + (node.edge dir).dist) rest
    | .merge, _, some previous =>
      let rdir :=
        if ((T.node node.reverse).edge dirCurved).dest = some (T.reverse previous) then 1 else 0
      processFrom T { r with branches := r.branches ++ [packBranch rdir node.num] } (some cur)
        (dist + (node.edge 0).dist) rest
    | _, _, _ => processFrom T r (some cur) (dist + (node.edge 0).dist) rest

/-- `process_path`, and the assignment to `j` behind its call. -/
def processPath (T : Track) (r : TrainRecord) (path : List NodeNum) : TrainRecord :=
  { processFrom T { r with next := [], distance := [], branches := [] } none 0 path with j := -1 }

/-- `t->branches[t->j] == -1`. -/
def TrainRecord.AtEnd (r : TrainRecord) : Prop := 0 ≤ r.j ∧ r.branches[r.j.toNat]? = some (-1)

instance (r : TrainRecord) : Decidable r.AtEnd := inferInstanceAs (Decidable (_ ∧ _))

/-- The request for an entry of `branches`. -/
def branchRequest (time entry : Int) : TrainRequest :=
  .switch (Int.land entry 0xff) (entry >>> 8) time

/-- `send_branches`, with what is sent. -/
def sendBranches (r : TrainRecord) (time : Int) : TrainRecord × List TrainRequest :=
  if r.AtEnd then (r, [])
  else
    let entries := (r.branches.drop (r.j + 1).toNat).takeWhile (0 < ·)
    ({ r with j := r.j + 1 + entries.length }, entries.map (branchRequest time))

/-- One call of `send_branches` after the other. -/
def sendAll (r : TrainRecord) : List Int → TrainRecord × List TrainRequest
  | [] => (r, [])
  | time :: times =>
    let (r, sent) := sendBranches r time
    let (r, later) := sendAll r times
    (r, sent ++ later)

/-! ### What a path needs -/

/-- The leg of the switch at `n` that leads to `m`. -/
def leg (T : Track) (n m : NodeNum) : Fin 2 :=
  if ((T.node n).edge dirCurved).dest = some m then 1 else 0

theorem dest_leg {T : Track} {n m : NodeNum} {e : Fin 2} (h : ((T.node n).edge e).dest = some m) :
    ((T.node n).edge (leg T n m)).dest = some m := by
  unfold leg
  split
  · next h_curved => exact h_curved
  · next h_not =>
    obtain rfl : e = 0 := by
      by_contra h_e
      rw [Fin.eq_one_of_ne_zero e h_e] at h
      exact h_not h
    exact h

/-- The switches that are passed, from a node on, with the leg of each. A branch is passed
towards the node behind it, a merge on the leg that comes from the node before it. -/
def passagesFrom (T : Track) : Option NodeNum → List NodeNum → List (Int × Fin 2)
  | _, [] => []
  | prev, cur :: rest =>
    (match (T.node cur).type, rest.head?, prev with
      | .branch, some following, _ => [((T.node cur).num, leg T cur following)]
      | .merge, _, some previous => [((T.node cur).num, leg T (T.reverse cur) (T.reverse previous))]
      | _, _, _ => []) ++ passagesFrom T (some cur) rest

/-- The switches that a path passes, in order. -/
def passages (T : Track) (path : List NodeNum) : List (Int × Fin 2) := passagesFrom T none path

/-- The leg on which a switch is passed last. -/
def lastLeg (ps : List (Int × Fin 2)) (sw : Int) : Option (Fin 2) :=
  (ps.reverse.find? fun p => p.1 = sw).map fun p => p.2

/-- The numbers that switches have on a path. The table has a 0 for a sensor. -/
def PathSwitch (sw : Int) : Prop := 0 < sw ∧ SwitchNum sw

instance : DecidablePred PathSwitch := fun _ => inferInstanceAs (Decidable (_ ∧ _))

/-! ### The table -/

variable {T : Track} {r : TrainRecord} {path : List NodeNum} {sw time : Int} {dir : Fin 2}

theorem unpackBranch (time : Int) (h : PathSwitch sw) (dir : Fin 2) : 0 < packBranch dir sw ∧
    branchRequest time (packBranch dir sw) = .switch sw dir.val time := by
  obtain ⟨n, rfl⟩ : ∃ n : Fin 256, sw = n.val := by
    obtain ⟨h_pos, h_num⟩ := h
    refine ⟨⟨sw.toNat, ?_⟩, ?_⟩
    · rcases h_num with h_a | h_b <;> omega
    · dsimp only
      omega
  have h_all : ∀ n : Fin 256, ∀ d : Fin 2, (0 < (n.val : Int) → 0 < packBranch d n.val) ∧
      Int.land (packBranch d n.val) 0xff = n.val ∧
        packBranch d n.val >>> 8 = d.val := by decide +kernel
  obtain ⟨h_pos, h_num, h_dir⟩ := h_all n dir
  refine ⟨h_pos h.1, ?_⟩
  rw [branchRequest, h_num, h_dir]

/-- `r'` has, behind the entries of `r`, the passages `ps` in order, and otherwise zeros. -/
def Tabulates (ps : List (Int × Fin 2)) (r r' : TrainRecord) : Prop :=
  ∃ es, r'.branches = r.branches ++ es ++ [-1] ∧ (∀ e ∈ es, 0 ≤ e) ∧
    es.filter (0 < ·) = ps.map fun p => packBranch p.2 p.1

theorem Tabulates.zero {ps : List (Int × Fin 2)} {r' r'' : TrainRecord} (h : Tabulates ps r' r'')
    (h_r' : r'.branches = r.branches ++ [0]) : Tabulates ps r r'' := by
  obtain ⟨es, h_es, h_nonneg, h_filter⟩ := h
  exact ⟨0 :: es, by simp [h_es, h_r'], by simpa using h_nonneg, by simpa using h_filter⟩

theorem Tabulates.passage {ps : List (Int × Fin 2)} {r' r'' : TrainRecord} (h : Tabulates ps r' r'')
    (h_sw : PathSwitch sw) (h_r' : r'.branches = r.branches ++ [packBranch dir sw]) :
    Tabulates ((sw, dir) :: ps) r r'' := by
  obtain ⟨es, h_es, h_nonneg, h_filter⟩ := h
  have h_pos := (unpackBranch 0 h_sw dir).1
  refine ⟨packBranch dir sw :: es, by simp [h_es, h_r'], ?_, ?_⟩
  · exact List.forall_mem_cons.mpr ⟨h_pos.le, h_nonneg⟩
  · rw [List.filter_cons_of_pos (by simpa using h_pos), h_filter, List.map_cons]

/-- `process_path` tabulates the switches of the path in their order, with a `0` for each sensor,
behind what it was given. The induction is on the rest of the path. -/
theorem processFrom_tabulates {prev : Option NodeNum} {dist : Int}
    (h : ∀ p ∈ passagesFrom T prev path, PathSwitch p.1) :
    Tabulates (passagesFrom T prev path) r (processFrom T r prev dist path) := by
  induction path generalizing r prev dist with
  | nil => exact ⟨[], by simp [processFrom], by simp, rfl⟩
  | cons cur rest ih =>
    have h_eq : passagesFrom T prev (cur :: rest) = _ ++ passagesFrom T (some cur) rest := rfl
    unfold processFrom
    dsimp only
    split
    · -- a sensor adds a `0`, at which a batch stops
      next h_type =>
      rw [h_type] at h_eq
      rw [h_eq] at h ⊢
      exact (ih h).zero rfl
    · -- a branch node: the switch is set towards the node that follows
      next following h_type h_rest =>
      rw [h_type, h_rest] at h_eq
      rw [h_eq] at h ⊢
      exact (ih (List.forall_mem_cons.mp h).2).passage (List.forall_mem_cons.mp h).1 rfl
    · -- a merge node: the switch is set towards the node that came before
      next previous h_type =>
      rw [h_type] at h_eq
      rw [h_eq] at h ⊢
      exact (ih (List.forall_mem_cons.mp h).2).passage (List.forall_mem_cons.mp h).1 rfl
    · -- the other nodes leave the switches alone
      next prev' _ _ _ h_sensor h_merge h_branch =>
      have h_none : passagesFrom T prev' (cur :: rest) = passagesFrom T (some cur) rest := by
        rw [h_eq]
        split
        · next h_type h_rest => exact (h_branch _ h_type h_rest).elim
        · next h_type => exact (h_merge _ h_type rfl).elim
        · rfl
      rw [h_none] at h ⊢
      exact ih h

theorem processPath_tabulates (h : ∀ p ∈ passages T path, PathSwitch p.1) :
    Tabulates (passages T path) { r with branches := [] } (processPath T r path) :=
  processFrom_tabulates h

/-! ### The requests -/

/-- What `send_branches` has not asked for yet. -/
def left (r : TrainRecord) : List Int := (r.branches.drop r.j.toNat).filter (0 < ·)

/-- Between two calls `j` is at the entry that the last one stopped at, if there was one. That entry
is a sensor or the terminator, so the next call begins behind it. -/
structure Between (r : TrainRecord) : Prop where
  ends : ∃ es, r.branches = es ++ [-1] ∧ ∀ e ∈ es, 0 ≤ e
  stopped : r.j = -1 ∨ ∃ e, 0 ≤ r.j ∧ r.branches[r.j.toNat]? = some e ∧ e ≤ 0

/-- Behind an entry that is not the last there is still the -1, so that a batch that begins there
comes to an end inside the table. -/
theorem Between.exists_drop (h : Between r) (h_end : ¬r.AtEnd) :
    ∃ es, r.branches.drop (r.j + 1).toNat = es ++ [-1] ∧ left r = (es ++ [-1]).filter (0 < ·) ∧
      (∀ e ∈ es, 0 ≤ e) := by
  obtain ⟨es, h_branches, h_nonneg⟩ := h.ends
  -- either nothing was sent yet, or `j` is at the sensor where the last batch stopped
  rcases h.stopped with h_j | ⟨e, h_j, h_e, h_le⟩
  · refine ⟨es, ?_, ?_, h_nonneg⟩
    · rw [h_j, h_branches]
      rfl
    · rw [left, h_j, h_branches]
      rfl
  · obtain ⟨k, h_k⟩ := Int.eq_ofNat_of_zero_le h_j
    have h_succ : (r.j + 1).toNat = k + 1 := by omega
    rw [left, h_succ, h_branches]
    rw [TrainRecord.AtEnd] at h_end
    rw [h_k, Int.toNat_natCast] at h_e h_end ⊢
    -- `j` is in front of the `-1`, or the record would be at its end
    have h_lt : k < es.length := by
      by_contra h_ge
      rw [h_branches, List.getElem?_append_right (not_lt.mp h_ge)] at h_e
      rw [h_branches, List.getElem?_append_right (not_lt.mp h_ge)] at h_end
      cases h_m : k - es.length with
      | zero => exact h_end ⟨Int.natCast_nonneg k, by rw [h_m]; rfl⟩
      | succ m =>
        rw [h_m] at h_e
        cases h_e
    rw [h_branches, List.getElem?_append_left h_lt, List.getElem?_eq_getElem h_lt] at h_e
    refine ⟨es.drop (k + 1), ?_, ?_, fun e' h_e' => h_nonneg e' (List.mem_of_mem_drop h_e')⟩
    · rw [List.drop_append_of_le_length (by omega)]
    · rw [List.drop_append_of_le_length h_lt.le, List.drop_eq_getElem_cons h_lt,
        Option.some.inj h_e, List.cons_append, List.filter_cons_of_neg (by simpa using h_le)]

/-- The loop of `send_branches` stops in front of an entry. -/
theorem exists_takeWhile {l : List Int} (h : ∃ e ∈ l, e ≤ 0) :
    ∃ e rest, l = l.takeWhile (0 < ·) ++ e :: rest ∧ e ≤ 0 := by
  cases h_drop : l.dropWhile (0 < ·) with
  | nil =>
    obtain ⟨e, h_e, h_le⟩ := h
    exact absurd (of_decide_eq_true (List.dropWhile_eq_nil_iff.mp h_drop e h_e)) (not_lt.mpr h_le)
  | cons e rest =>
    have h_not := List.head?_dropWhile_not (fun e : Int => decide (0 < e)) l
    rw [h_drop] at h_not
    refine ⟨e, rest, ?_, not_lt.mp (of_decide_eq_false h_not)⟩
    rw [← h_drop, List.takeWhile_append_dropWhile]

/-- What a call sends comes off the front of what is left: the entries up to the next sensor, one
request each, all for the same time. -/
theorem sendBranches_spec (h : Between r) (time : Int) : ∃ es,
    (sendBranches r time).2 = es.map (branchRequest time) ∧ Between (sendBranches r time).1 ∧
      es ++ left (sendBranches r time).1 = left r := by
  unfold sendBranches
  split
  · exact ⟨[], rfl, h, rfl⟩
  · next h_end =>
    obtain ⟨es, h_drop, h_left, h_nonneg⟩ := h.exists_drop h_end
    -- the batch ends at the first entry that is no switch; the `-1` is one
    obtain ⟨e, rest, h_split, h_e⟩ := exists_takeWhile (l := es ++ [-1]) ⟨-1, by simp, by decide⟩
    have h_j : 0 ≤ r.j + 1 := by
      rcases h.stopped with h_j | ⟨_, h_j, _⟩ <;> omega
    rw [h_drop]
    have h_sent :=
      fun e h_e =>
        List.mem_takeWhile_imp (p := fun e : Int => decide (0 < e)) (l := es ++ [-1]) (x := e) h_e
    generalize List.takeWhile _ _ = sent at h_split h_sent ⊢
    -- `j` moves by the length of the batch
    have h_stop : r.branches.drop (r.j + 1 + sent.length).toNat = e :: rest := by
      have h_toNat : (r.j + 1 + sent.length).toNat = (r.j + 1).toNat + sent.length := by omega
      rw [h_toNat, ← List.drop_drop, h_drop, h_split, List.drop_left]
    refine ⟨sent, rfl, ⟨h.ends, .inr ⟨e, ?_, ?_, h_e⟩⟩, ?_⟩
    · dsimp only
      omega
    · rw [← List.head?_drop, h_stop]
      rfl
    · rw [h_left, h_split, List.filter_append, List.filter_eq_self.mpr h_sent, left, h_stop]

/-- The switch that a request is for, and its position. -/
def switchOf : TrainRequest → Option (Int × Int)
  | .switch target data _ => some (target, data)
  | _ => none

/-- What the calls ask for comes off the front of what is left. -/
theorem sendAll_spec (h : Between r) (times : List Int) : ∃ es,
    (sendAll r times).2.filterMap switchOf = es.map (fun e => (Int.land e 0xff, e >>> 8)) ∧
      Between (sendAll r times).1 ∧ es ++ left (sendAll r times).1 = left r := by
  induction times generalizing r with
  | nil => exact ⟨[], rfl, h, rfl⟩
  | cons time times ih =>
    obtain ⟨es, h_sent, h_between, h_left⟩ := sendBranches_spec h time
    obtain ⟨es', h_later, h_between', h_left'⟩ := ih h_between
    refine ⟨es ++ es', ?_, h_between', ?_⟩
    · change ((sendBranches r time).2 ++ (sendAll (sendBranches r time).1 times).2).filterMap
        switchOf = _
      rw [List.filterMap_append, h_later, h_sent, List.filterMap_map, List.map_append]
      exact congrArg (· ++ _) (congrFun List.filterMap_eq_map es)
    · rw [List.append_assoc, ← h_left, ← h_left']
      rfl

theorem left_eq_nil (h : Between r) (h_end : r.AtEnd) : left r = [] := by
  obtain ⟨es, h_branches, h_nonneg⟩ := h.ends
  obtain ⟨-, h_last⟩ := h_end
  rw [h_branches] at h_last
  -- the entries of the table are not negative, so `-1` is its end
  have h_ge : es.length ≤ r.j.toNat := by
    by_contra h_lt
    rw [List.getElem?_append_left (not_le.mp h_lt), List.getElem?_eq_getElem (not_le.mp h_lt)]
      at h_last
    have := h_nonneg _ (List.getElem_mem (not_le.mp h_lt))
    have := Option.some.inj h_last
    omega
  rw [left, h_branches, List.drop_append, List.drop_eq_nil_of_le h_ge, List.nil_append,
    List.filter_eq_nil_iff]
  intro e h_e
  obtain rfl := List.mem_singleton.mp (List.mem_of_mem_drop h_e)
  decide

/-- Up to the end of the table, just the passages of the path are asked for. -/
theorem sendAll_requests {times : List Int} (h : ∀ p ∈ passages T path, PathSwitch p.1)
    (h_end : (sendAll (processPath T r path) times).1.AtEnd) :
    (sendAll (processPath T r path) times).2.filterMap switchOf =
      (passages T path).map fun p => (p.1, (p.2.val : Int)) := by
  obtain ⟨es, h_branches, h_nonneg, h_filter⟩ := processPath_tabulates (r := r) h
  -- the calls of `send_branches` go through the table, each from where the last one has stopped
  have h_start : Between (processPath T r path) := ⟨⟨es, h_branches, h_nonneg⟩, .inl rfl⟩
  obtain ⟨sent, h_sent, h_between, h_left⟩ := sendAll_spec h_start times
  rw [left_eq_nil h_between h_end, List.append_nil] at h_left
  have h_all : left (processPath T r path) = (passages T path).map fun p => packBranch p.2 p.1 := by
    rw [← h_filter, left, h_branches]
    change ([] ++ es ++ [-1] : List Int).filter _ = _
    rw [List.nil_append, List.filter_append]
    exact List.append_nil _
  rw [h_sent, h_left, h_all, List.map_map]
  -- what has been packed is unpacked
  refine List.map_congr_left fun p h_p => ?_
  obtain ⟨h_num, h_dir, -⟩ := TrainRequest.switch.inj (unpackBranch 0 (h p h_p) p.2).2
  exact Prod.ext h_num h_dir

/-! ### Runs -/

/-- The two commands move the same switch, in different directions. -/
def Command.Opposes (cmd cmd' : Command) : Prop :=
  match cmd.switch, cmd'.switch with
  | some (sw, data), some (sw', data') => sw = sw' ∧ data ≠ data'
  | _, _ => False

instance (cmd cmd' : Command) : Decidable (cmd.Opposes cmd') := by
  unfold Command.Opposes
  split <;> infer_instance

/-- What a command writes into the event. -/
def Command.write (cmd : Command) : Option (Int × UInt8) :=
  cmd.switch.map fun p => (p.1, UInt8.ofInt p.2)

theorem Command.move_eq (cmd : Command) (pos : Int → Option UInt8) :
    cmd.move pos = performed cmd.write pos := by
  ext1 sw
  unfold Command.move Command.write
  cases cmd.switch with
  | none => rfl
  | some p => exact (Function.update_apply pos p.1 _ sw).symm

theorem Command.opposes_of_write {cmd cmd' : Command} {sw : Int} {x x' : UInt8}
    (h : cmd.write = some (sw, x)) (h' : cmd'.write = some (sw, x')) (h_ne : x ≠ x') :
    cmd.Opposes cmd' := by
  obtain ⟨⟨sw₁, data⟩, h_switch, h_eq⟩ := Option.map_eq_some_iff.mp h
  obtain ⟨⟨sw₂, data'⟩, h_switch', h_eq'⟩ := Option.map_eq_some_iff.mp h'
  obtain ⟨rfl, rfl⟩ := Prod.mk.inj h_eq
  obtain ⟨h_sw, rfl⟩ := Prod.mk.inj h_eq'
  unfold Command.Opposes
  rw [h_switch, h_switch']
  exact ⟨h_sw.symm, fun h_data => h_ne (congrArg UInt8.ofInt h_data)⟩

/-- A message whose commands come later than what is pending against them. With an earlier one, the
older command would be sent after the newer and have the last word. -/
structure Orderly (s : TrainServer) (m : TrainMessage) : Prop where
  timely : Timely s m
  later : ∀ cmd ∈ commands m.req, ∀ other ∈ s.pending, other.1.Opposes cmd → other.1.time < cmd.time

instance (s : TrainServer) (m : TrainMessage) : Decidable (Orderly s m) :=
  decidable_of_iff (_ ∧ _) ⟨fun h => ⟨h.1, h.2⟩, fun h => ⟨h.timely, h.later⟩⟩

/-- Where the switches are to be after the commands. -/
def aimAfter (cmds : List Command) (aim : Int → Option UInt8) : Int → Option UInt8 :=
  cmds.foldl (fun aim cmd => performed cmd.write aim) aim

/-- What is scheduled, with the positions in the event as registers. -/
def TrainServer.AimedAt (s : TrainServer) (aim : Int → Option UInt8) : Prop :=
  Aimed (fun cmd : Command × ℕ => cmd.1.time)
    (fun cmd => cmd.1.write) aim s.pending s.event.position

variable {s s' : TrainServer} {m : TrainMessage} {aim : Int → Option UInt8}

theorem write_moveCommand (time data : Int) {sw : Int} (h : sw ≠ -1) :
    (moveCommand time sw data).write = some (sw, UInt8.ofInt data) := by
  unfold moveCommand Command.write
  dsimp only
  rw [if_neg h]
  rfl

theorem eq_of_write_moveCommand {time sw data sw' : Int} {x : UInt8}
    (h : (moveCommand time sw data).write = some (sw', x)) : sw' = sw := by
  unfold moveCommand Command.write at h
  dsimp only at h
  split at h
  · cases h
  · exact (Prod.mk.inj (Option.some.inj h)).1.symm

theorem partner_ne {sw other : Int} (h : partner sw = some other) : other ≠ sw := by
  rintro rfl
  unfold partner at h
  split_ifs at h <;> have := Option.some.inj h <;> omega

/-- The commands of one request are for different switches. -/
theorem commands_agree (req : TrainRequest) : (commands req).Pairwise fun cmd' cmd =>
    ∀ sw x x', cmd.write = some (sw, x) → cmd'.write = some (sw, x') → x' = x := by
  -- but for one pair, one of the two commands moves no switch
  have h_none : ∀ {cmd' : Command} {time : Int} {a b : UInt8} {len : ℕ} (sw : Int) (x x' : UInt8),
      (⟨time, a, b, len, none⟩ : Command).write = some (sw, x) →
        cmd'.write = some (sw, x') → x' = x :=
    fun _ _ _ h => nomatch h
  cases req with
  | worker | workerSensor | sensorEvent | branchEvent => exact List.Pairwise.nil
  | speed target data time => exact List.pairwise_singleton _ _
  | reverse target data time =>
    simp only [commands, List.pairwise_cons, List.forall_mem_cons, List.Pairwise.nil]
    exact ⟨⟨h_none, h_none, by simp⟩, ⟨h_none, by simp⟩, by simp⟩
  | switch target data time =>
    cases h_other : partner target with
    | none =>
      simp only [commands, h_other, List.pairwise_cons, List.forall_mem_cons, List.Pairwise.nil]
      exact ⟨⟨h_none, by simp⟩, by simp⟩
    | some other =>
      simp only [commands, h_other, List.pairwise_cons, List.forall_mem_cons, List.Pairwise.nil]
      refine ⟨⟨fun sw x x' h h' => ?_, h_none, by simp⟩, ⟨h_none, by simp⟩, by simp⟩
      exact absurd ((eq_of_write_moveCommand h).symm.trans (eq_of_write_moveCommand h'))
        (partner_ne h_other)

/-- The aim is kept by every message. A request moves it by its own commands, and a command that is
performed takes the switch to where the aim had it already. -/
theorem TrainServer.AimedAt.serves (h : s.AimedAt aim) (h_ok : Orderly s m)
    (h_serves : s.Serves m s') :
    s'.AimedAt (aimAfter (commands m.req) aim) := by
  cases h_serves with
  | schedule _ h_schedules h_quiet =>
    unfold AimedAt
    rw [h_quiet.pending, h_quiet.position, h_schedules.pending, h_schedules.event]
    -- the numbers of the requests do not change what the commands do
    have h_aim : aimAfter (commands m.req) aim =
        ((commands m.req).zipIdx s.reqid).foldl (fun aim cmd => performed cmd.1.write aim) aim := by
      conv_lhs => rw [aimAfter, ← List.zipIdx_map_fst s.reqid (commands m.req), List.foldl_map]
    rw [h_aim]
    refine Aimed.scheduleAll h (fun cmd h_cmd sw x h_write other h_other x' h_write' h_ne => ?_) ?_
    · -- what is pending for the other position comes earlier
      exact h_ok.later cmd.1 (List.fst_mem_of_mem_zipIdx h_cmd) other h_other
        (Command.opposes_of_write h_write' h_write h_ne)
    · have h_agree := commands_agree m.req
      rw [← List.zipIdx_map_fst s.reqid (commands m.req), List.pairwise_map] at h_agree
      exact h_agree
  | hand h_req h_hands h_quiet =>
    unfold AimedAt
    rw [h_quiet.pending, h_quiet.position, h_hands.position, Command.move_eq, h_req,
      commands_worker]
    -- what is performed is the earliest command, so nothing pending overtakes it
    have h_least := h_hands.least
    rw [h_hands.pending] at h_least
    unfold AimedAt at h
    rw [h_hands.pending] at h
    exact h.perform h_least
  -- a poll without a command changes neither side
  | wait h_req _ h_quiet =>
    unfold AimedAt
    rw [h_quiet.pending, h_quiet.position, h_req, commands_worker]
    exact h

theorem AimedAt.of_reaches {ms : List TrainMessage} {s₀ : TrainServer} (h_pooled : s₀.Pooled)
    (h_empty : s₀.pending = 0) (h : (trainSystem.startAt s₀).Reaches Orderly ms s) :
    s.Pooled ∧ s.AimedAt (aimAfter (ms.flatMap fun m => commands m.req) fun _ => none) := by
  induction h with
  | start h_init =>
    obtain rfl := h_init
    refine ⟨h_pooled, ?_⟩
    unfold TrainServer.AimedAt
    rw [h_empty]
    exact Aimed.start _
  | next _ h_ok h_step ih =>
    have h_serves := ih.1.serves h_ok.timely h_step
    rw [List.flatMap_append, List.flatMap_singleton, aimAfter, List.foldl_append]
    exact ⟨h_serves.pooled ih.1, ih.2.serves h_ok h_serves⟩

/-! ### What is asked for, and what is needed -/

/-- A request for a switch, and for the other half of a three-way switch. -/
def steer (aim : Int → Option UInt8) (p : Int × Int) : Int → Option UInt8 :=
  let own := Function.update aim p.1 (some (UInt8.ofInt p.2))
  match partner p.1 with
  | some other => Function.update own other (some (UInt8.ofInt (cNot p.2)))
  | none => own

/-- The commands of a request move the aim as the request itself does: its switch goes to the
position asked for, and the other half to the opposite one. -/
theorem aimAfter_commands {req : TrainRequest} (h : ∀ p, switchOf req = some p → p.1 ≠ -1)
    (aim : Int → Option UInt8) : aimAfter (commands req) aim =
      (switchOf req).toList.foldl steer aim := by
  cases req with
  | worker | workerSensor | sensorEvent | branchEvent | speed | reverse => rfl
  | switch target data time =>
    have h_ne : target ≠ -1 := h (target, data) rfl
    have h_own := write_moveCommand time data h_ne
    change _ = steer aim (target, data)
    unfold steer
    -- one command for the switch, and a second one for its other half
    cases h_other : partner target with
    | none =>
      simp only [commands, h_other, aimAfter, List.foldl_cons, List.foldl_nil, h_own]
      rfl
    | some other =>
      have h_other_ne : other ≠ -1 := by
        unfold partner at h_other
        split_ifs at h_other <;> have := Option.some.inj h_other <;> omega
      have h_second := write_moveCommand (time + 20) (cNot data) h_other_ne
      simp only [commands, h_other, aimAfter, List.foldl_cons, List.foldl_nil, h_own, h_second]
      rfl

/-- The directions that a sequence of requests leaves the switches in. -/
def aimOf (ps : List (Int × Fin 2)) : Int → Option UInt8 :=
  (ps.map fun p => (p.1, (p.2.val : Int))).foldl steer fun _ => none

/-- The position for a leg. -/
def legPosition (dir : Fin 2) : UInt8 := UInt8.ofInt dir.val

theorem lastLeg_snoc (ps : List (Int × Fin 2)) (p : Int × Fin 2) (sw : Int) :
    lastLeg (ps ++ [p]) sw = if p.1 = sw then some p.2 else lastLeg ps sw := by
  unfold lastLeg
  rw [List.reverse_append, List.reverse_singleton, List.singleton_append, List.find?_cons]
  split
  · next h => rw [if_pos (of_decide_eq_true h), Option.map_some]
  · next h => rw [if_neg (of_decide_eq_false h)]

theorem aimOf_snoc (ps : List (Int × Fin 2)) (p : Int × Fin 2) :
    aimOf (ps ++ [p]) = steer (aimOf ps) (p.1, p.2.val) := by
  rw [aimOf, List.map_append, List.foldl_append]
  rfl

theorem partner_symm {sw other : Int} (h : partner sw = some other) : partner other = some sw := by
  unfold partner at h
  split_ifs at h with h_sw h_sw h_sw h_sw <;> obtain rfl := Option.some.inj h <;> subst h_sw <;> rfl

theorem cNot_leg (dir : Fin 2) : cNot dir.val = (1 - dir).val := by
  revert dir
  decide

theorem legPosition_injective : Function.Injective legPosition := by decide

/-- If both halves of a three-way switch are passed, they are passed on different legs last.

153 and 154 are the halves of one, and 155 and 156 those of the other. A command for one of them is
followed by one that moves the other to the opposite leg. -/
def PartnersOpposed (ps : List (Int × Fin 2)) : Prop :=
  ∀ sw other dir dir', partner sw = some other → lastLeg ps sw = some dir →
    lastLeg ps other = some dir' →
    dir ≠ dir'

theorem exists_mem_of_lastLeg {ps : List (Int × Fin 2)} (h : lastLeg ps sw = some dir) :
    ∃ p ∈ ps, p.1 = sw := by
  obtain ⟨p, h_find, -⟩ := Option.map_eq_some_iff.mp h
  have h_p := List.find?_some h_find
  exact ⟨p, List.mem_reverse.mp (List.mem_of_find?_eq_some h_find), of_decide_eq_true h_p⟩

theorem partnersOpposed_iff {ps : List (Int × Fin 2)} : PartnersOpposed ps ↔
    ∀ p ∈ ps, ∀ q ∈ ps, partner p.1 = some q.1 → ∀ dir dir', lastLeg ps p.1 = some dir →
      lastLeg ps q.1 = some dir' → dir ≠ dir' := by
  constructor
  · intro h p _ q _ h_pq dir dir'
    exact h p.1 q.1 dir dir' h_pq
  · intro h sw other dir dir' h_sw h_dir h_dir'
    obtain ⟨p, h_p, rfl⟩ := exists_mem_of_lastLeg h_dir
    obtain ⟨q, h_q, rfl⟩ := exists_mem_of_lastLeg h_dir'
    exact h p h_p q h_q h_sw dir dir' h_dir h_dir'

instance (ps : List (Int × Fin 2)) : Decidable (PartnersOpposed ps) :=
  decidable_of_iff _ partnersOpposed_iff.symm

/-- A switch without another half is left as it was asked for last. -/
theorem aimOf_single {sw : Int} (h_sw : partner sw = none) (ps : List (Int × Fin 2)) :
    aimOf ps sw = (lastLeg ps sw).map legPosition := by
  induction ps using List.reverseRecOn with
  | nil => rfl
  | append_singleton ps p ih =>
    rw [aimOf_snoc, lastLeg_snoc, steer]
    have h_own : Function.update (aimOf ps) p.1 (some (UInt8.ofInt p.2.val)) sw =
        (if p.1 = sw then some p.2 else lastLeg ps sw).map legPosition := by
      split
      · next h_eq =>
        subst h_eq
        exact Function.update_self _ _ _
      · next h_ne => rw [Function.update_of_ne (Ne.symm h_ne), ih]
    -- what is passed last may be a half of another switch, which does not move this one
    cases h_other : partner p.1 with
    | none => exact h_own
    | some other =>
      have h_ne : sw ≠ other := by
        rintro rfl
        exact absurd (h_sw.symm.trans (partner_symm h_other)) (by simp)
      dsimp only
      rw [Function.update_of_ne h_ne, h_own]

/-- The halves of a three-way switch are left as the one that was asked for last needs it. Each
request for one half moves the other to the opposite leg, so only the last of them counts. -/
theorem aimOf_pair {sw other : Int} (h_sw : partner sw = some other) (ps : List (Int × Fin 2)) :
    (lastLeg ps sw = none ∧ lastLeg ps other = none) ∨
      ∃ dir, (lastLeg ps sw = some dir ∨ lastLeg ps other = some (1 - dir)) ∧
        aimOf ps sw = some (legPosition dir) ∧ aimOf ps other = some (legPosition (1 - dir)) := by
  have h_ne := partner_ne h_sw
  induction ps using List.reverseRecOn with
  | nil => exact .inl ⟨rfl, rfl⟩
  | append_singleton ps p ih =>
    obtain ⟨n, dir⟩ := p
    rw [aimOf_snoc, lastLeg_snoc, lastLeg_snoc, steer]
    dsimp only
    -- the last passage is over `sw` itself, so it decides both halves
    by_cases h_n : n = sw
    · subst h_n
      rw [h_sw, cNot_leg]
      refine .inr ⟨dir, .inl (if_pos rfl), ?_, ?_⟩
      · dsimp only
        rw [Function.update_of_ne h_ne.symm, Function.update_self]
        rfl
      · exact Function.update_self _ _ _
    · -- over the other half: the second command writes `sw`
      by_cases h_n' : n = other
      · subst h_n'
        rw [partner_symm h_sw, cNot_leg]
        have h_flip : 1 - (1 - dir) = dir := by
          revert dir
          decide
        refine .inr ⟨1 - dir, .inr (by rw [if_pos rfl, h_flip]), ?_, ?_⟩
        · exact Function.update_self _ _ _
        · dsimp only
          rw [Function.update_of_ne h_ne, Function.update_self, h_flip]
          rfl
      · -- the request is for another switch, whose other half is neither of these
        rw [if_neg h_n, if_neg h_n']
        have h_own : ∀ q, q = sw ∨ q = other →
            Function.update (aimOf ps) n (some (UInt8.ofInt dir.val)) q = aimOf ps q := by
          rintro q (rfl | rfl)
          · exact Function.update_of_ne (Ne.symm h_n) _ _
          · exact Function.update_of_ne (Ne.symm h_n') _ _
        have h_steer : ∀ q, q = sw ∨ q = other → steer (aimOf ps) (n, dir.val) q = aimOf ps q := by
          intro q h_q
          unfold steer
          cases h_third : partner n with
          | none => exact h_own q h_q
          | some third =>
            have h_third' := partner_symm h_third
            have h_q' : q ≠ third := by
              rintro rfl
              rcases h_q with rfl | rfl
              · exact h_n' (Option.some.inj (h_third'.symm.trans h_sw))
              · exact h_n (Option.some.inj (h_third'.symm.trans (partner_symm h_sw)))
            exact (Function.update_of_ne h_q' _ _).trans (h_own q h_q)
        have h_first := h_steer sw (.inl rfl)
        have h_second := h_steer other (.inr rfl)
        unfold steer at h_first h_second
        rw [h_first, h_second]
        exact ih

/-- A switch that is passed is asked for. -/
theorem exists_aimOf {ps : List (Int × Fin 2)} (h : lastLeg ps sw = some dir) :
    ∃ x, aimOf ps sw = some x := by
  cases h_sw : partner sw with
  | none => exact ⟨_, by rw [aimOf_single h_sw, h, Option.map_some]⟩
  | some other =>
    rcases aimOf_pair h_sw ps with ⟨h_none, -⟩ | ⟨dir₁, -, h_aim, -⟩
    · exact absurd (h_none.symm.trans h) (by simp)
    · exact ⟨_, h_aim⟩

/-- All switches are left as their last passages need it if the halves of three-way switches are. A
switch without another half is moved by its own requests only. -/
theorem aimOf_eq_lastLeg_iff (ps : List (Int × Fin 2)) :
    (∀ sw dir, lastLeg ps sw = some dir → aimOf ps sw = some (legPosition dir)) ↔
      PartnersOpposed ps := by
  constructor
  · intro h sw other dir dir' h_sw h_dir h_dir'
    rcases aimOf_pair h_sw ps with ⟨h_none, -⟩ | ⟨dir₁, -, h_aim, h_aim'⟩
    · exact absurd (h_none.symm.trans h_dir) (by simp)
    · have h_eq := legPosition_injective (Option.some.inj ((h sw dir h_dir).symm.trans h_aim))
      have h_eq' :=
        legPosition_injective (Option.some.inj ((h other dir' h_dir').symm.trans h_aim'))
      -- the two halves are left on opposite legs, whatever was asked for
      have h_flip : ∀ d : Fin 2, d ≠ 1 - d := by decide
      rw [h_eq, h_eq']
      exact h_flip dir₁
  · intro h sw dir h_dir
    cases h_sw : partner sw with
    | none => rw [aimOf_single h_sw, h_dir, Option.map_some]
    | some other =>
      -- the last one asked for is this half, or the other half, which has moved this one
      rcases aimOf_pair h_sw ps with ⟨h_none, -⟩ | ⟨dir₁, h_last | h_last, h_aim, -⟩
      · exact absurd (h_none.symm.trans h_dir) (by simp)
      · rw [h_aim, Option.some.inj (h_last.symm.trans h_dir)]
      · have h_ne := h sw other dir _ h_sw h_dir h_last
        have h_two : ∀ a b : Fin 2, a ≠ 1 - b → a = b := by decide
        rw [h_aim, h_two dir dir₁ h_ne]

theorem aimAfter_flatMap {ms : List TrainMessage}
    (h : ∀ m ∈ ms, ∀ p, switchOf m.req = some p → p.1 ≠ -1) (aim : Int → Option UInt8) :
    aimAfter (ms.flatMap fun m => commands m.req) aim =
      (ms.filterMap fun m => switchOf m.req).foldl steer aim := by
  induction ms generalizing aim with
  | nil => rfl
  | cons m ms ih =>
    obtain ⟨h_m, h_ms⟩ := List.forall_mem_cons.mp h
    rw [List.flatMap_cons, aimAfter, List.foldl_append]
    change aimAfter (ms.flatMap fun m => commands m.req) (aimAfter (commands m.req) aim) = _
    rw [ih h_ms, aimAfter_commands h_m, List.filterMap_cons]
    cases switchOf m.req <;> rfl

/-! ### The switches of a path -/

/-- From the state `s₀`, in which nothing was scheduled, the messages `ms` have led to `s`. The
only switches that they ask for are those that `send_branches` asks for when it is called for
the path at these times, up to the end of the table; and the worker has been handed all commands
that move a switch. -/
structure Commanded (T : Track) (path : List NodeNum) (r : TrainRecord) (times : List Int)
    (s₀ : TrainServer) (ms : List TrainMessage) (s : TrainServer) : Prop where
  reached : ∃ ms₀, trainSystem.Reaches Timely ms₀ s₀
  empty : s₀.pending = 0
  sent : (ms.map fun m => m.req).filter (fun req => (switchOf req).isSome) =
    (sendAll (processPath T r path) times).2
  complete : (sendAll (processPath T r path) times).1.AtEnd
  handed : ∀ cmd ∈ s.pending, cmd.1.switch = none

/-- The event says of each switch on the path that it is as the last passage needs it. -/
def PositionsSet (T : Track) (path : List NodeNum) (s : TrainServer) : Prop :=
  ∀ sw dir, lastLeg (passages T path) sw = some dir → s.event.position sw = some (legPosition dir)

/-- **When a path's switches end up as it needs them.**

Both halves of a three-way switch are moved when one of them is asked for, so that the half that is
passed first may be moved again. The run begins with nothing pending, and asks for no other
switches; when all commands that move a switch have been handed out, each is where it was steered
last (`AimedAt`). A switch that is passed more than once has to be as the last passage needs it. -/
theorem switches_set {times : List Int} {s₀ : TrainServer} {ms : List TrainMessage}
    (h_nums : ∀ p ∈ passages T path, PathSwitch p.1) (h : Commanded T path r times s₀ ms s)
    (h_run : (trainSystem.startAt s₀).Reaches Orderly ms s) :
    PositionsSet T path s ↔ PartnersOpposed (passages T path) := by
  obtain ⟨ms₀, h_reached⟩ := h.reached
  obtain ⟨-, h_aimed⟩ := AimedAt.of_reaches (Accounted.of_reaches h_reached).pooled h.empty h_run
  -- what was asked of the server is what the path needs
  have h_asked : (ms.filterMap fun m => switchOf m.req) =
      (passages T path).map fun p => (p.1, (p.2.val : Int)) := by
    rw [← sendAll_requests h_nums h.complete, ← h.sent, List.filterMap_filter, List.filterMap_map]
    refine List.filterMap_congr fun m _ => ?_
    dsimp only [Function.comp_apply]
    cases switchOf m.req <;> rfl
  -- a switch of the path has a number, and is not the `-1` of a command that moves none
  have h_valid : ∀ m ∈ ms, ∀ p, switchOf m.req = some p → p.1 ≠ -1 := by
    intro m h_m p h_p
    have h_mem : p ∈ ms.filterMap fun m => switchOf m.req := List.mem_filterMap.mpr ⟨m, h_m, h_p⟩
    rw [h_asked] at h_mem
    obtain ⟨q, h_q, rfl⟩ := List.mem_map.mp h_mem
    have := (h_nums q h_q).1
    dsimp only
    omega
  rw [aimAfter_flatMap h_valid, h_asked] at h_aimed
  change s.AimedAt (aimOf (passages T path)) at h_aimed
  rw [← aimOf_eq_lastLeg_iff]
  -- nothing is pending for a switch, so it is where it was steered last
  have h_position : ∀ sw dir, lastLeg (passages T path) sw = some dir →
      s.event.position sw = aimOf (passages T path) sw := by
    intro sw dir h_dir
    obtain ⟨x, h_x⟩ := exists_aimOf h_dir
    rw [h_x]
    refine h_aimed.settled sw x h_x fun cmd h_cmd x' h_write => ?_
    rw [Command.write, h.handed cmd h_cmd] at h_write
    cases h_write
  constructor
  · intro h_set sw dir h_dir
    rw [← h_position sw dir h_dir]
    exact h_set sw dir h_dir
  · intro h_aim sw dir h_dir
    rw [h_position sw dir h_dir]
    exact h_aim sw dir h_dir

/-- A three-way switch: straight on through 154 and 153, with a siding behind each. -/
def threeWayTrack : Track where
  node n := {
    type := if n = 0 ∨ n = 2 then .branch else if n = 1 ∨ n = 3 then .merge else .exit
    num := if n = 0 ∨ n = 1 then 154 else if n = 2 ∨ n = 3 then 153 else 0
    reverse := if n.val % 2 = 0 then n + 1 else n - 1
    edge := fun e =>
      { dest := if n = 0 then some (if e = 0 then 2 else 4)
          else if n = 2 then some (if e = 0 then 6 else 8)
          else if n = 3 ∨ n = 5 then some 1
          else if n = 7 ∨ n = 9 then some 3
          else none
        dist := 1 } }
  reverse_reverse := by decide
  bufferNodes _ := .empty

/-- Both halves are asked for at once, 154 straight and 153 for `dir`, and the worker takes what
comes of it. -/
def threeWayRun (dir : Int) : List TrainMessage :=
  [⟨1, .switch 154 0 100⟩, ⟨1, .switch 153 dir 100⟩] ++ List.replicate 6 ⟨2, .worker 140 true⟩

/-- Through 154 straight on and into the siding behind 153. -/
theorem switches_set_siding : ∃ s, (trainSystem.startAt .start).Reaches Orderly (threeWayRun 1) s ∧
    (PositionsSet threeWayTrack [0, 2, 8] s ↔ PartnersOpposed (passages threeWayTrack [0, 2, 8])) ∧
    PartnersOpposed (passages threeWayTrack [0, 2, 8]) := by
  obtain ⟨s, h_reach, h_s⟩ : ∃ s, (trainSystem.startAt .start).Reaches Orderly (threeWayRun 1) s ∧
      s.pending = 0 :=
    System.exists_reaches_of_play trainNext_step Orderly (fun s => s.pending = 0)
      (threeWayRun 1) rfl
      (by decide +kernel)
  have h : Commanded threeWayTrack [0, 2, 8] ⟨[], [], 0, [], -1⟩ [100] .start (threeWayRun 1) s :=
    { reached := ⟨[], .start rfl⟩
      empty := rfl
      sent := rfl
      complete := by decide +kernel
      handed := by rw [h_s]; simp }
  exact ⟨s, h_reach, switches_set (by decide +kernel) h h_reach, by decide +kernel⟩

/-- A path along edges, without a reversal. -/
def StraightPath (T : Track) (path : List NodeNum) : Prop :=
  path.IsChain fun n m => (T.edgeDist n m).isSome

/-- Straight on through 154 and 153. What is asked for one half is undone by what is asked for
the other, and both switches end up curved. -/
theorem not_switches_set : ¬∀ (T : Track) (path : List NodeNum) (r : TrainRecord) (times : List Int)
    (s₀ : TrainServer) (ms : List TrainMessage) (s : TrainServer), StraightPath T path →
    (∀ p ∈ passages T path, PathSwitch p.1) → Commanded T path r times s₀ ms s →
    (trainSystem.startAt s₀).Reaches Admitted ms s → PositionsSet T path s := by
  intro h_all
  obtain ⟨s, h_reach, h_pending, h_s⟩ :
      ∃ s, (trainSystem.startAt .start).Reaches Admitted (threeWayRun 0) s ∧
      s.pending = 0 ∧ s.event.position 154 = some 1 :=
    System.exists_reaches_of_play trainNext_step Admitted
      (fun s => s.pending = 0 ∧ s.event.position 154 = some 1) (threeWayRun 0) rfl
        (by decide +kernel)
  have h : Commanded threeWayTrack [0, 2, 6] ⟨[], [], 0, [], -1⟩ [100] .start (threeWayRun 0) s :=
    { reached := ⟨[], .start rfl⟩
      empty := rfl
      sent := rfl
      complete := by decide +kernel
      handed := by rw [h_pending]; simp }
  have h_set :=
    h_all _ _ _ _ _ _ s (by unfold StraightPath; decide +kernel) (by decide +kernel) h h_reach
  have h_zero : s.event.position 154 = some 0 := h_set 154 0 (by decide +kernel)
  rw [h_s] at h_zero
  exact absurd h_zero (by decide)

end Train
end PollingExpress
