import Mathlib
import Timepiece.Proofs.Link.SessionEffects

/-!
# What the watch was told of a place

A property is set by a write that names its place in the active watch set.  Uploads and the other
commands name none, so what the watch was last told of a place is told by the pushes alone.

## Main definitions

* `placeOf?` — the place that is set with a write.
* `lastFor` — the last of some writes that is for a place.
* `Transfer.Unplaced` — a transfer that sets no property.

## Main results

* `lastFor_append` — what counts is the last write.
* `Transfer.unplaced_upload`, `Transfer.unplaced_notification`, `Transfer.unplaced_command` —
  **only a push sets a property**.
-/

namespace Timepiece

/-- The place of the property that is set with a write. -/
def placeOf? : Bytes → Option Nat
  | opcode :: index :: _ => if opcode = 0x30 then some index.toNat else none
  | _ => none

theorem placeOf?_of_ne {opcode : UInt8} (rest : Bytes) (h : opcode ≠ 0x30) :
    placeOf? (opcode :: rest) = none := by
  cases rest with
  | nil => rfl
  | cons index rest => exact if_neg h

/-- A push is for its place. -/
theorem placeOf?_pushWrite {entry : Nat × Property} (h : entry.1 ≤ Session.maxIndex)
    (value : Option Value) : placeOf? (pushWrite entry value) = some entry.1 := by
  have hindex : (UInt8.ofNat entry.1).toNat = entry.1 :=
    UInt8.toNat_ofNat_of_lt' (Nat.lt_succ_of_le h)
  show some (UInt8.ofNat entry.1).toNat = some entry.1
  rw [hindex]

theorem placeOf?_command {command : Command}
    (h : ∀ index value, command ≠ .setProperty index value) : placeOf? command.encode = none := by
  refine placeOf?_of_ne command.arguments ?_
  cases command with
  | setProperty index value => exact absurd rfl (h index value)
  | _ => simp [Command.opcode]

/-! ### The last write for a place -/

/-- The last of some writes that is for a place. -/
def lastFor (writes : List Bytes) (index : Nat) : Option Bytes :=
  (writes.filter fun data => placeOf? data = some index).getLast?

section LastFor

variable {writes more : List Bytes} {index : Nat} {data : Bytes}

theorem lastFor_append :
    lastFor (writes ++ more) index = (lastFor more index).or (lastFor writes index) := by
  rw [lastFor, List.filter_append, List.getLast?_append]
  rfl

theorem lastFor_of_ne (h : ∀ data ∈ writes, placeOf? data ≠ some index) :
    lastFor writes index = none := by
  have hnone : (writes.filter fun data => placeOf? data = some index) = [] :=
    List.filter_eq_nil_iff.2 fun data hmem => by simpa using h data hmem
  rw [lastFor, hnone]
  rfl

theorem lastFor_singleton (h : placeOf? data = some index) : lastFor [data] index = some data := by
  simp [lastFor, h]

/-- After writes that are not for a place, the last one for it is still the one before them. -/
theorem lastFor_append_of_ne (h : ∀ data ∈ more, placeOf? data ≠ some index) :
    lastFor (writes ++ more) index = lastFor writes index := by
  rw [lastFor_append, lastFor_of_ne h, Option.none_or]

end LastFor

/-! ### Transfers that set no property -/

namespace Transfer

/-- None of the writes with which some tasks are done sets a property. -/
def Unplaced (tasks : List Task) : Prop :=
  ∀ writes, Scripts tasks writes → ∀ data ∈ writes, placeOf? data = none

/-- Some tasks can always be done to their end. -/
theorem exists_scripts (tasks : List Task) : ∃ writes, Scripts tasks writes := by
  -- every request may be granted at once
  induction tasks with
  | nil => exact ⟨[], .done⟩
  | cons task rest ih =>
    obtain ⟨writes, hscript⟩ := ih
    cases task with
    | arm => exact ⟨writes, .arm hscript⟩
    | write data => exact ⟨data :: writes, .write hscript⟩
    | awaitAck => exact ⟨writes, .acknowledged hscript⟩
    | awaitPermission => exact ⟨writes, .granted hscript⟩
    | pause => exact ⟨writes, .pause hscript⟩

/-- What is written with a step sets no property, nor does what is written after it. -/
theorem Unplaced.later {tasks rest : List Task} {written : List Bytes} (h : Unplaced tasks)
    (hscripts : ∀ writes, Scripts rest writes → Scripts tasks (written ++ writes)) :
    Unplaced rest ∧ ∀ data ∈ written, placeOf? data = none := by
  constructor
  · intro writes hscript data hmem
    exact h _ (hscripts writes hscript) data (List.mem_append_right _ hmem)
  · intro data hmem
    obtain ⟨writes, hscript⟩ := exists_scripts rest
    exact h _ (hscripts writes hscript) data (List.mem_append_left _ hmem)

theorem unplaced_write {data : Bytes} (h : placeOf? data = none) :
    Unplaced (ofWrite data).tasks := by
  intro writes hscript
  cases hscript with
  | write hscript =>
    cases hscript
    simpa using h

theorem unplaced_command {command : Command}
    (h : ∀ index value, command ≠ .setProperty index value) :
    Unplaced (ofWrite command.encode).tasks := unplaced_write (placeOf?_command h)

/-- A packet of a chunk begins with its tag, which is that of no command. -/
theorem placeOf?_laterPackets {parts : List Bytes} {packet : Bytes}
    (h : packet ∈ laterPackets parts) : placeOf? packet = none := by
  fun_induction laterPackets parts with
  | case1 => exact absurd h List.not_mem_nil
  | case2 piece =>
    obtain rfl := List.mem_singleton.1 h
    exact placeOf?_of_ne piece (by decide)
  | case3 piece rest _ ih =>
    rcases List.mem_cons.1 h with rfl | h
    · exact placeOf?_of_ne piece (by decide)
    · exact ih h

theorem placeOf?_packets {chunk packet : Bytes} (h : packet ∈ packets chunk) :
    placeOf? packet = none := by
  unfold packets at h
  generalize pieces packetData chunk = parts at h
  fun_cases tagged parts with
  | case1 => exact absurd h List.not_mem_nil
  | case2 piece =>
    obtain rfl := List.mem_singleton.1 h
    exact placeOf?_of_ne piece (by decide)
  | case3 piece rest hrest =>
    rw [tagged] at h
    · rcases List.mem_cons.1 h with rfl | h
      · exact placeOf?_of_ne piece (by decide)
      · exact placeOf?_laterPackets h
    · exact hrest

theorem unplaced_upload (payload : Bytes) : Unplaced (ofUpload payload).tasks := by
  intro writes hscript data hmem
  rw [Scripts.of_uploadTasks hscript, uploadWrites, List.mem_append, List.mem_cons,
    List.mem_singleton, List.mem_flatten] at hmem
  obtain (rfl | ⟨unit, hunit, hdata⟩) | rfl := hmem
  · exact placeOf?_of_ne _ (by decide)
  · obtain ⟨chunk, -, rfl⟩ := List.mem_map.1 hunit
    exact placeOf?_packets hdata
  · exact placeOf?_of_ne _ (by decide)

theorem unplaced_notification {config : LinkConfig} {payload : Bytes} {transfer : Transfer}
    (h : ofNotification config payload = .ok transfer) : Unplaced transfer.tasks := by
  unfold ofNotification at h
  split at h
  · obtain rfl := Except.ok.inj h
    intro writes hscript data hmem
    obtain ⟨count, -, -, rfl⟩ := Scripts.of_notification hscript
    rw [List.mem_append, List.mem_append, List.mem_singleton] at hmem
    obtain hrequest | hpacket | rfl := hmem
    · obtain rfl := List.eq_of_mem_replicate hrequest
      exact placeOf?_command nofun
    · obtain ⟨piece, -, rfl⟩ := List.mem_map.1 hpacket
      exact placeOf?_command nofun
    · exact placeOf?_command nofun
  · exact nomatch h

end Transfer

end Timepiece
