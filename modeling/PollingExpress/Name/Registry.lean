import Mathlib.Order.MinMax
import PollingExpress.Framework.Fallible
import PollingExpress.Framework.History
import PollingExpress.Name.Server

/-!
# What the name server answers

A map from names to tasks answers `WhoIs` with the last task that registered the name
(`Right`). The server has one place for all names with one hash, and takes task 0, a null
pointer, for nobody (`Computed`). So a call of `WhoIs` is answered right exactly when the last
registration of a name with this hash is what the name's own last registration says it is
(`Undisturbed`): `answers_right_iff` is about every run, and `wrong_answer` is a run in which
two names have one hash.
-/

namespace PollingExpress
namespace Name

open Hashtable

/-! ### A task id as bytes -/

theorem getLsbD_byteAt (x : BitVec 32) {k : ℕ} (h_k : k ≤ 24) (j : ℕ) :
    (byteAt x k).getLsbD j = (decide (j < 8) && x.getLsbD (k + j)) := by
  rw [byteAt, BitVec.getLsbD_setWidth, BitVec.getLsbD_and, BitVec.getLsbD_sshiftRight]
  by_cases h_j : j < 8
  · have h_mask : ∀ i < 8, (0xFF#32).getLsbD i = true := by decide
    rw [h_mask j h_j]
    simp [h_j, show ¬32 ≤ j by omega, show k + j < 32 by omega]
  · simp [h_j]

/-- A byte that is shifted back to where it was. -/
theorem getLsbD_shift_byteAt (x : BitVec 32) {k : ℕ} (h_k : k ≤ 24) {i : ℕ} (h_i : i < 32) :
    ((byteAt x k).setWidth 32 <<< k).getLsbD i = (decide (k ≤ i ∧ i < k + 8) && x.getLsbD i) := by
  rw [BitVec.getLsbD_shiftLeft, BitVec.getLsbD_setWidth, getLsbD_byteAt x h_k]
  by_cases h_lt : i < k
  · simp [h_lt, show ¬k ≤ i by omega]
  · rw [Nat.add_sub_cancel' (by omega)]
    by_cases h_8 : i < k + 8
    · simp [h_i, h_lt, h_8, show k ≤ i by omega, show i - k < 8 by omega, show i - k < 32 by omega]
    · simp [h_lt, h_8, show ¬i - k < 8 by omega]

/-- **A task id survives the bytes of the response.** The four bytes are copied into the body and
shifted back, and `|` puts them together again, since no two of them share a bit: the comparison is
bit by bit. -/
theorem getTid_tidBytes (tid : BitVec 32) (type : NameserverResponseType) :
    getTidFromNameserverResponse ⟨type, copyBody (tidBytes tid) 4, 4⟩ = .ok tid := by
  refine congrArg Except.ok (BitVec.eq_of_getLsbD_eq fun i h_i => ?_)
  have h_last : (byteAt tid 0).setWidth 32 = (byteAt tid 0).setWidth 32 <<< 0 :=
    (BitVec.shiftLeft_zero _).symm
  rw [h_last, BitVec.getLsbD_or, BitVec.getLsbD_or, BitVec.getLsbD_or,
    getLsbD_shift_byteAt tid (by decide) h_i, getLsbD_shift_byteAt tid (by decide) h_i,
    getLsbD_shift_byteAt tid (by decide) h_i, getLsbD_shift_byteAt tid (by decide) h_i]
  cases tid.getLsbD i
  · simp
  · simp only [Bool.and_true, Bool.or_eq_true, decide_eq_true_eq]
    omega

/-! ### The registrations -/

/-- The last task that registered a name of this kind. -/
def lastOf (p : TaskName → Prop) [DecidablePred p] (past : List Call) : Option Tid :=
  past.foldl (fun last c => if c.type = .registerAs ∧ p c.name then some c.who else last) none

/-- The last task that registered the name. -/
def lastRegistered (past : List Call) (name : TaskName) : Option Tid :=
  lastOf (fun n => n = name) past

/-- The last task that registered a name with this place. -/
def lastAt (past : List Call) (i : Fin maxNames) : Option Tid :=
  lastOf (fun n => place maxNames n.bytes = i) past

theorem lastRegistered_snoc (past : List Call) (c : Call) (name : TaskName) :
    lastRegistered (past ++ [c]) name =
      if c.type = .registerAs ∧ c.name = name then some c.who else lastRegistered past name :=
  List.foldl_append

theorem lastAt_snoc (past : List Call) (c : Call) (i : Fin maxNames) : lastAt (past ++ [c]) i =
    if c.type = .registerAs ∧ place maxNames c.name.bytes = i then some c.who else lastAt past i :=
  List.foldl_append

/-- The answer of `WhoIs`. -/
def whoIsResult : Option Tid → Int
  | some tid => tid.val
  | none => -2

/-- What a map from names to tasks returns: 0 for a registration, and the last task that was
registered under the name, or -1, for a question. The whole name counts, and the calls before it are
all that it depends on. -/
def Right (past : List Call) (r : Round) : Prop :=
  r.result = match r.call.type with
    | .registerAs => 0
    | .whoIs => whoIsResult (lastRegistered past r.call.name)

/-- If the name is asked for, the last registration at its place is its own and not by task 0, or it
is by task 0 and the name is not registered.

The place of a name is its hash, and the table keeps no names: what is found there is what was
written there last, by any name. A 0 in the table is an empty place, so that task 0 cannot be told
from none. -/
def Undisturbed (past : List Call) (c : Call) : Prop :=
  c.type = .whoIs → ∀ tid, lastAt past (place maxNames c.name.bytes) = some tid →
    lastRegistered past c.name = if tid = 0 then none else some tid

/-- What the server returns. -/
def Computed (past : List Call) (r : Round) : Prop :=
  r.result = match r.call.type with
    | .registerAs => 0
    | .whoIs =>
      whoIsResult ((lastAt past (place maxNames r.call.name.bytes)).filter fun tid => tid ≠ 0)

/-- A name that is registered is one with its place. -/
theorem lastRegistered_of_lastAt {past : List Call} {name : TaskName}
    (h : lastAt past (place maxNames name.bytes) = none) : lastRegistered past name = none := by
  induction past using List.reverseRecOn with
  | nil => rfl
  | append_singleton past c ih =>
    rw [lastAt_snoc] at h
    split at h
    · cases h
    · next h_c =>
      rw [lastRegistered_snoc, if_neg fun h_name => h_c ⟨h_name.1, by rw [h_name.2]⟩]
      exact ih h

theorem whoIsResult_injective : Function.Injective whoIsResult := by
  intro a b h
  cases a with
  | none =>
    cases b with
    | none => rfl
    | some b => exact absurd h (by simp only [whoIsResult]; omega)
  | some a =>
    cases b with
    | none => exact absurd h (by simp only [whoIsResult]; omega)
    | some b => exact congrArg some (Fin.ext (Int.ofNat.inj h))

/-- What the server returns is right exactly if the name is not disturbed. For a lookup the cases
are the slot of the name: it is empty, or it has task 0, which looks like nobody, or another task,
registered under this name or under one with the same hash. -/
theorem Computed.right_iff {past : List Call} {r : Round} (h : Computed past r) :
    Right past r ↔ Undisturbed past r.call := by
  obtain ⟨⟨who, type, name⟩, result⟩ := r
  cases type with
  | registerAs => exact iff_of_true h fun h_type => by cases h_type
  | whoIs =>
    change result = whoIsResult _ at h
    change result = whoIsResult _ ↔ _
    rw [h, whoIsResult_injective.eq_iff]
    dsimp only
    cases h_at : lastAt past (place maxNames name.bytes) with
    | none =>
      -- nothing has been registered at the place of the name
      rw [lastRegistered_of_lastAt h_at]
      refine iff_of_true rfl fun _ tid h_tid => ?_
      rw [h_at] at h_tid
      cases h_tid
    | some tid =>
      -- a pointer to task 0 is taken for none
      have h_filter : (some tid).filter (fun tid => decide (tid ≠ 0)) =
          if tid = 0 then none else some tid := by
        by_cases h_zero : tid = 0 <;> simp [h_zero]
      rw [h_filter]
      constructor
      · intro h_eq _ tid' h_tid'
        obtain rfl := Option.some.inj (h_at.symm.trans h_tid')
        exact h_eq.symm
      · intro h_und
        exact (h_und rfl tid h_at).symm

/-! ### The server -/

/-- A task id as the table keeps it. -/
def pointerOf : Option Tid → Pointer
  | some tid => BitVec.ofNat 32 tid.val
  | none => 0

/-- What the table holds, and what has been returned. The slot of a hash has the task that was
registered last under a name with that hash (`lastAt`), whatever the name was; and every call up to
now has returned what the calls before it lead to. -/
structure Keeps (s : NameServer) (cs : List Call) : Prop where
  calls : s.log.map Round.call = cs
  table : ∀ i, s.ht.arr i = pointerOf (lastAt cs i)
  computed : AtEach (fun past r => Computed (past.map Round.call) r) s.log

section
variable {s : NameServer} {cs : List Call}

theorem keeps_start : Keeps .start [] := ⟨rfl, fun _ => rfl, atEach_nil⟩

theorem pointerOf_toNat (tid : Tid) : (pointerOf (some tid)).toNat = tid.val := by
  rw [pointerOf, BitVec.toNat_ofNat, Nat.mod_eq_of_lt (by omega)]

theorem pointerOf_eq_zero_iff (tid : Tid) : pointerOf (some tid) = 0 ↔ tid = 0 := by
  rw [← BitVec.toNat_inj, pointerOf_toNat, Fin.ext_iff]
  rfl

theorem pointerOf_toInt (tid : Tid) : (pointerOf (some tid)).toInt = tid.val := by
  rw [BitVec.toInt_eq_toNat_of_lt (by rw [pointerOf_toNat]; omega), pointerOf_toNat]

/-- The request of a name that fits. -/
theorem request_eq (type : NameserverRequestType) (name : TaskName) : ∃ rest n,
    NameServer.request type name = .ok ⟨type, name.bytes ++ 0 :: rest, n⟩ := by
  refine ⟨List.replicate (maxBodyLength - (name.bytes.length + 1)) 0, name.bytes.length + 1, ?_⟩
  have h_len : (name.bytes ++ [0]).length ≤ min maxBodyLength (name.bytes.length + 1) := by
    rw [List.length_append, List.length_singleton, min_eq_right name.fits.le]
  rw [NameServer.request, nameserverRequestInit, if_pos name.fits, copyBody,
    List.take_of_length_le h_len, List.append_assoc]
  rfl

theorem call_registerAs (s : NameServer) (lookupTid : Pointer) (who : Tid) (name : TaskName) :
    s.call lookupTid ⟨who, .registerAs, name⟩ =
      .ok ⟨⟨Function.update s.ht.arr (place maxNames name.bytes) (pointerOf (some who))⟩,
        s.log ++ [⟨⟨who, .registerAs, name⟩, 0⟩]⟩ := by
  obtain ⟨rest, n, h_request⟩ := request_eq .registerAs name
  refine (bind_of_ok h_request).trans ?_
  simp only [NameServer.nameserver, htInsert_of_zero name.ends]
  rfl

/-- A lookup, from the message of the client to what `WhoIs` returns. An empty slot and one with
task 0 are both answered with the error, and any other with its task. -/
theorem call_whoIs {name : TaskName} {tid : Option Tid}
    (h : s.ht.arr (place maxNames name.bytes) = pointerOf tid) (lookupTid : Pointer) (who : Tid) :
    s.call lookupTid ⟨who, .whoIs, name⟩ =
      .ok ⟨s.ht,
        s.log ++ [⟨⟨who, .whoIs, name⟩, whoIsResult (tid.filter fun tid => tid ≠ 0)⟩]⟩ := by
  obtain ⟨rest, n, h_request⟩ := request_eq .whoIs name
  refine (bind_of_ok h_request).trans ?_
  simp only [NameServer.nameserver, htGet_of_zero name.ends, h]
  -- an empty slot, task 0, which looks like one, or another task
  match tid with
  | none => rfl
  | some tid =>
    by_cases h_zero : tid = 0
    · rw [if_pos ((pointerOf_eq_zero_iff tid).mpr h_zero), h_zero]
      rfl
    · have h_ok :
          getTidFromNameserverResponse ⟨.good, copyBody (tidBytes (pointerOf (some tid))) 4, 4⟩ =
          .ok (pointerOf (some tid)) := getTid_tidBytes _ _
      rw [if_neg fun h_eq => h_zero ((pointerOf_eq_zero_iff tid).mp h_eq),
        Option.filter_some, if_pos (decide_eq_true h_zero)]
      refine (bind_of_ok (a := (s.ht, _)) rfl).trans ?_
      refine (bind_of_ok (a := ((tid.val : ℕ) : Int)) ?_).trans rfl
      exact (bind_of_ok h_ok).trans (congrArg Except.ok (pointerOf_toInt tid))

/-- **One call** goes through, and is answered from the table. A registration writes the one slot of
its name; a lookup writes nothing, and its answer is what the slot has. -/
theorem Keeps.call (h : Keeps s cs) (lookupTid : Pointer) (c : Call) :
    ∃ s', s.call lookupTid c = .ok s' ∧ Keeps s' (cs ++ [c]) := by
  obtain ⟨who, type, name⟩ := c
  cases type with
  | registerAs =>
    refine ⟨_, call_registerAs s lookupTid who name, ?_, ?_, atEach_snoc.mpr ⟨h.computed, rfl⟩⟩
    · rw [List.map_append, h.calls]
      rfl
    · intro j
      rw [lastAt_snoc]
      dsimp only
      -- the slot of the name has the new task, the others what they had
      by_cases h_j : place maxNames name.bytes = j
      · rw [← h_j, Function.update_self, if_pos ⟨rfl, rfl⟩]
      · rw [Function.update_of_ne (Ne.symm h_j), if_neg fun h_and => h_j h_and.2]
        exact h.table j
  | whoIs =>
    refine ⟨_, call_whoIs (h.table _) lookupTid who, ?_, ?_, atEach_snoc.mpr ⟨h.computed, ?_⟩⟩
    · rw [List.map_append, h.calls]
      rfl
    · intro j
      -- asking registers nothing
      rw [lastAt_snoc, if_neg (by simp)]
      exact h.table j
    · rw [h.calls]
      rfl

end

/-- **The name server answers right exactly while no name is disturbed**: in every run, all calls go
through, every task id survives the response, and every result so far is the one a map from names to
tasks returns if and only if every call so far was undisturbed.

The table keeps no names, only a slot for each value of the hash function. A `WhoIs` is disturbed if
the last task registered in the slot was registered under another name, or is task 0, whose pointer
looks like an empty slot. -/
theorem answers_right_iff {cs : List Call} {s : NameServer}
    (h : nameSystem.Reaches (fun _ _ => True) cs s) :
    s.log.map Round.call = cs ∧ (∀ lookupTid c, ∃ s', s.call lookupTid c = .ok s') ∧
      (∀ tid : Tid,
        getTidFromNameserverResponse ⟨.good, copyBody (tidBytes (pointerOf (some tid))) 4, 4⟩ =
        .ok (pointerOf (some tid)) ∧ (pointerOf (some tid)).toInt = tid.val) ∧
      (AtEach (fun past r => Right (past.map Round.call) r) s.log ↔ AtEach Undisturbed cs) := by
  -- every run goes through, and keeps the table
  have h_keeps : Keeps s cs := by
    induction h with
    | start h_init =>
      obtain rfl : _ = NameServer.start := h_init
      exact keeps_start
    | next _ _ h_step ih =>
      obtain ⟨lookupTid, h_ok⟩ := h_step
      obtain ⟨s', h_ok', h_keeps⟩ := ih.call lookupTid _
      obtain rfl := Except.ok.inj (h_ok'.symm.trans h_ok)
      exact h_keeps
  refine ⟨h_keeps.calls, ?_, fun tid => ⟨getTid_tidBytes _ _, pointerOf_toInt tid⟩, ?_⟩
  · intro lookupTid c
    obtain ⟨s', h_ok, -⟩ := h_keeps.call lookupTid c
    exact ⟨s', h_ok⟩
  · -- call by call, what the table gives is right exactly if the name is not disturbed
    rw [← h_keeps.calls, atEach_map]
    exact h_keeps.computed.iff_of fun _ _ h_computed => h_computed.right_iff

instance (past : List Call) (r : Round) : Decidable (Right past r) :=
  inferInstanceAs (Decidable (_ = _))

/-- "gt". -/
def nameGt : TaskName := ⟨[103, 116], by decide, by decide⟩

/-- "AZ". -/
def nameAZ : TaskName := ⟨[65, 90], by decide, by decide⟩

/-- "B9". -/
def nameB9 : TaskName := ⟨[66, 57], by decide, by decide⟩

instance (past : List Call) (c : Call) : Decidable (Undisturbed past c) :=
  -- not by a search through all task ids
  let _ : Decidable (∀ tid ∈ lastAt past (place maxNames c.name.bytes),
      lastRegistered past c.name = if tid = 0 then none else some tid) :=
        Option.decidableForallMem _
  inferInstanceAs
    (Decidable (c.type = .whoIs → ∀ tid ∈ lastAt past (place maxNames c.name.bytes), _))

def nameNext (s : NameServer) (c : Call) : Option NameServer := (s.call 0 c).toOption

theorem nameNext_step (s : NameServer) (c : Call) (s' : NameServer) (h : nameNext s c = some s') :
    nameSystem.step s c s' := ⟨0, of_toOption h⟩

/-- Two tasks register a name after one another, and it is asked for. -/
theorem answers_right_of_one_name : ∃ s, nameSystem.Reaches (fun _ _ => True)
    [⟨3, .registerAs, nameGt⟩, ⟨4, .whoIs, nameGt⟩, ⟨5, .registerAs, nameGt⟩,
      ⟨4, .whoIs, nameGt⟩] s ∧
    s.log.map Round.result = [0, 3, 0, 5] ∧
    AtEach (fun past r => Right (past.map Round.call) r) s.log := by
  obtain ⟨s, h_s, h_results⟩ := System.exists_reaches_of_play nameNext_step (fun _ _ => True)
    (fun s => s.log.map Round.result = [0, 3, 0, 5])
    [⟨3, .registerAs, nameGt⟩, ⟨4, .whoIs, nameGt⟩, ⟨5, .registerAs, nameGt⟩, ⟨4, .whoIs, nameGt⟩]
    rfl (by decide +kernel)
  exact ⟨s, h_s, h_results, (answers_right_iff h_s).2.2.2.mpr (by decide +kernel)⟩

/-- **Registering one name changes the answer for another**: the hashes of "AZ" and "B9" are the
same, and the table does not keep the names, so who asks for the first gets the task of the
second. -/
theorem wrong_answer : ∃ s, nameSystem.Reaches (fun _ _ => True)
    [⟨3, .registerAs, nameAZ⟩, ⟨4, .registerAs, nameB9⟩, ⟨5, .whoIs, nameAZ⟩] s ∧
    s.log.map Round.result = [0, 0, 4] ∧
    ¬AtEach (fun past r => Right (past.map Round.call) r) s.log :=
  System.exists_reaches_of_play nameNext_step (fun _ _ => True)
    (fun s => s.log.map Round.result = [0, 0, 4] ∧
      ¬AtEach (fun past r => Right (past.map Round.call) r) s.log)
    [⟨3, .registerAs, nameAZ⟩, ⟨4, .registerAs, nameB9⟩, ⟨5, .whoIs, nameAZ⟩] rfl
      (by decide +kernel)

end Name
end PollingExpress
