import Mathlib
import Timepiece.Link.Transfer

/-!
# What is seen of an upload

An upload is seen as a row of marks: the slot for acknowledgements is armed, answered and
waited for, and writes are attempted that the watch takes or refuses.  From such a log can
be told what the watch took and how far the units are acknowledged, and so when a write is
due.

## Main definitions

* `UploadMark`, `UploadLog` — what is seen.
* `UploadLog.accepted`, `UploadLog.handshakes` — what the watch took, and what happened at
  the slot.
* `uploadUnits` — the parts of an upload that are acknowledged.
* `UploadLog.Due`, `UploadLog.Orderly` — when a write may be attempted, and that all were.

## Main results

* `UploadLog.Orderly.concat` — how the order is kept.
* `commitUpload_not_mem_units` — **the commit cannot be mistaken** for a packet.
-/

namespace Timepiece

/-! ### Logs -/

/-- What is seen of an upload. -/
inductive UploadMark where
  /-- The slot for acknowledgements was armed. -/
  | armed
  /-- An acknowledgement was delivered to the slot. -/
  | acknowledged
  /-- The wait for an acknowledgement ended with one. -/
  | released
  /-- A write was attempted, and the watch took it or not. -/
  | attempt (data : Bytes) (taken : Bool)
  deriving DecidableEq, Repr

/-- Whether a mark is of an attempt to write, and not of the slot. -/
def UploadMark.isAttempt : UploadMark → Bool
  | attempt _ _ => true
  | _ => false

/-- What was seen of an upload, in order. -/
abbrev UploadLog := List UploadMark

namespace UploadLog

/-- The writes that the watch took. -/
def accepted (log : UploadLog) : List Bytes :=
  log.filterMap fun
    | .attempt data true => some data
    | _ => none

/-- What happened at the slot, from the first time on that it was armed. -/
def handshakes (log : UploadLog) : UploadLog :=
  (log.filter fun mark => !mark.isAttempt).dropWhile (· != .armed)

/-- Rounds in which the slot was armed, answered once, and waited for. -/
def rounds : Nat → UploadLog
  | 0 => []
  | count + 1 => rounds count ++ [.armed, .acknowledged, .released]

variable {log : UploadLog} {mark : UploadMark} {data : Bytes}

@[simp] theorem accepted_concat_taken :
    accepted (log ++ [.attempt data true]) = accepted log ++ [data] := by
  simp [accepted]

@[simp] theorem accepted_concat_refused :
    accepted (log ++ [.attempt data false]) = accepted log := by
  simp [accepted]

theorem accepted_concat (h : mark.isAttempt = false) :
    accepted (log ++ [mark]) = accepted log := by
  cases mark with
  | attempt data taken => exact nomatch h
  | armed | acknowledged | released => simp [accepted]

@[simp] theorem handshakes_concat_attempt {taken : Bool} :
    handshakes (log ++ [.attempt data taken]) = handshakes log := by
  simp [handshakes, UploadMark.isAttempt]

@[simp] theorem handshakes_concat_armed :
    handshakes (log ++ [.armed]) = handshakes log ++ [.armed] := by
  simp only [handshakes, List.filter_append, List.dropWhile_append]
  split
  · next h =>
    rw [List.isEmpty_iff.1 h]
    rfl
  · rfl

/-- Once the slot was armed, all that happens at it counts. -/
theorem handshakes_concat (h : mark.isAttempt = false) (hsome : handshakes log ≠ []) :
    handshakes (log ++ [mark]) = handshakes log ++ [mark] := by
  have hkeep : List.filter (fun mark => !mark.isAttempt) [mark] = [mark] :=
    List.filter_eq_self.2 fun m hm => by simp [List.mem_singleton.1 hm, h]
  unfold handshakes at hsome ⊢
  rw [List.filter_append, hkeep, List.dropWhile_append, if_neg]
  rwa [List.isEmpty_iff]

/-- Before the slot was armed, an acknowledgement was for somebody else. -/
theorem handshakes_concat_acknowledged (hnone : handshakes log = []) :
    handshakes (log ++ [.acknowledged]) = [] := by
  unfold handshakes at hnone ⊢
  rw [List.filter_append, List.dropWhile_append, if_pos (List.isEmpty_iff.2 hnone)]
  rfl

end UploadLog

/-! ### Units -/

/-- The units of an upload that are acknowledged. -/
def uploadUnits (payload : Bytes) : List (List Bytes) := [initUpload] :: uploadPlan payload

theorem uploadWrites_eq (payload : Bytes) :
    uploadWrites payload = (uploadUnits payload).flatten ++ [commitUpload] := rfl

/-- The tasks of the units that are left, and of the commit. -/
def Transfer.remaining (units : List (List Bytes)) : List Task :=
  units.flatMap unitTasks ++ [.write commitUpload none]

/-- The tasks of the rest of a unit whose slot is armed, and of the units after it. -/
def Transfer.sending (writes : List Bytes) (units : List (List Bytes)) : List Task :=
  writes.map (fun data => .write data (some .ack)) ++ .awaitAck :: remaining units

theorem Transfer.remaining_cons (unit : List Bytes) (units : List (List Bytes)) :
    remaining (unit :: units) = .arm .ack :: sending unit units := by
  simp [remaining, unitTasks, sending]

theorem Transfer.remaining_ne_nil (units : List (List Bytes)) : remaining units ≠ [] := by
  simp [remaining]

theorem Transfer.sending_ne_nil (writes : List Bytes) (units : List (List Bytes)) :
    sending writes units ≠ [] := by
  simp [sending]

theorem Transfer.uploadTasks_eq (payload : Bytes) :
    uploadTasks payload = remaining (uploadUnits payload) := by
  rw [uploadTasks, remaining, uploadUnits, List.flatMap_cons]

/-- Only the packet of a chunk that is a single packet has its tag. -/
theorem head_of_mem_laterPackets {parts : List Bytes} {packet : Bytes}
    (h : packet ∈ laterPackets parts) : packet.head? ≠ some PacketRole.only.tag := by
  fun_induction laterPackets parts with
  | case1 => exact absurd h List.not_mem_nil
  | case2 piece =>
    obtain rfl := List.mem_singleton.1 h
    exact fun heq => absurd (Option.some.inj heq) (by decide)
  | case3 piece rest _ ih =>
    rcases List.mem_cons.1 h with rfl | h
    · exact fun heq => absurd (Option.some.inj heq) (by decide)
    · exact ih h

/-- The commit is no packet of a chunk. -/
theorem commitUpload_not_mem_packets (data : Bytes) :
    commitUpload ∉ packets (dataMark :: data) := by
  intro h
  -- the first packet is told by the mark of data, the others by their tags
  rw [packets, pieces_cons] at h
  cases hrest : pieces packetData (data.drop (packetData - 1)) with
  | nil =>
    rw [hrest, tagged, List.mem_singleton] at h
    exact absurd (List.cons.inj (List.cons.inj h).2).1 (by decide)
  | cons piece others =>
    rw [hrest, tagged] at h
    · rcases List.mem_cons.1 h with heq | h
      · exact absurd (List.cons.inj heq).1 (by decide)
      · exact head_of_mem_laterPackets h rfl
    · exact fun heq => nomatch heq

theorem commitUpload_not_mem_units {payload : Bytes} {unit : List Bytes}
    (h : unit ∈ uploadUnits payload) : commitUpload ∉ unit := by
  rcases List.mem_cons.1 h with rfl | h
  · decide
  · obtain ⟨chunk, hchunk, rfl⟩ := List.mem_map.1 h
    obtain ⟨data, -, rfl⟩ := List.mem_map.1 hchunk
    exact commitUpload_not_mem_packets data

namespace UploadLog

/-- The moment at which a write may be attempted.  Everything before it was taken.  For a
packet, all units before its own are released, and the slot was armed for its own; it may
already be answered.  For the commit, all units are released. -/
inductive Due (payload : Bytes) (log : UploadLog) (data : Bytes) : Prop
  | packet {before after : List (List Bytes)} {pre suf : List Bytes} {tail : UploadLog} :
    uploadUnits payload = before ++ (pre ++ data :: suf) :: after →
    accepted log = before.flatten ++ pre →
    handshakes log = rounds before.length ++ tail →
    tail = [.armed] ∨ tail = [.armed, .acknowledged] → Due payload log data
  | commit : data = commitUpload → accepted log = (uploadUnits payload).flatten →
    handshakes log = rounds (uploadUnits payload).length → Due payload log data

/-- Every write was attempted when it was due. -/
def Orderly (payload : Bytes) (log : UploadLog) : Prop :=
  ∀ earlier data taken later, log = earlier ++ .attempt data taken :: later →
    Due payload earlier data

variable {payload : Bytes} {log : UploadLog} {mark : UploadMark} {data : Bytes}

theorem orderly_nil : Orderly payload [] := by
  intro earlier data taken later h
  exact absurd h.symm (by simp)

/-- One more mark keeps the order if it is of no attempt, or of one that is due. -/
theorem Orderly.concat (h : Orderly payload log)
    (hmark : ∀ data taken, mark = .attempt data taken → Due payload log data) :
    Orderly payload (log ++ [mark]) := by
  intro earlier data taken later heq
  -- the attempt is the mark that was added, or stands before it
  rcases List.eq_nil_or_concat later with rfl | ⟨others, last, rfl⟩
  · obtain ⟨rfl, hlast⟩ := List.append_inj' heq rfl
    exact hmark data taken (List.singleton_inj.1 hlast)
  · rw [List.concat_eq_append, ← List.cons_append, ← List.append_assoc] at heq
    obtain ⟨rfl, -⟩ := List.append_inj' heq rfl
    exact h earlier data taken others rfl

theorem Orderly.concat_attempt (h : Orderly payload log) {taken : Bool}
    (hdue : Due payload log data) : Orderly payload (log ++ [.attempt data taken]) := by
  refine h.concat fun data' taken' heq => ?_
  obtain ⟨rfl, -⟩ := UploadMark.attempt.inj heq
  exact hdue

theorem Orderly.concat_slot (h : Orderly payload log) (hmark : mark.isAttempt = false) :
    Orderly payload (log ++ [mark]) := by
  refine h.concat fun data taken heq => ?_
  rw [heq] at hmark
  exact nomatch hmark

end UploadLog

end Timepiece
