import Mathlib
import Timepiece.Proofs.Link.TransferSteps
import Timepiece.Proofs.Link.UploadLog

/-!
# The writes of a transfer that succeeds

A transfer takes its tasks one after the other, waits, is refused, and asks again.  Here it is
told without all that, which writes are taken when a row of tasks is done to its end.  A step of
a transfer adds its write in front of those that are left, so a transfer that succeeds had one of
the scripts of its tasks taken.

## Main definitions

* `Transfer.Scripts` — the writes that are taken when some tasks are done.
* `TransferStep.written` — the write that was taken in a step.
* `Transfer.Advances` — what a step does to the scripts.

## Main results

* `Transfer.advances_step` — **a step takes the first write of a script, or none**.
* `Transfer.Scripts.of_uploadTasks` — an upload has one script.
* `Transfer.Scripts.of_requestTasks` — the scripts of a request that may be refused.
-/

namespace Timepiece

namespace Transfer

/-- The writes that are taken when some tasks are done to their end, in order. -/
inductive Scripts : List Task → List Bytes → Prop
  | done : Scripts [] []
  | arm {slot : SignalSlot} {rest : List Task} {writes : List Bytes} :
    Scripts rest writes → Scripts (.arm slot :: rest) writes
  | write {data : Bytes} {guard : Option SignalSlot} {rest : List Task} {writes : List Bytes} :
    Scripts rest writes → Scripts (.write data guard :: rest) (data :: writes)
  | acknowledged {rest : List Task} {writes : List Bytes} :
    Scripts rest writes → Scripts (.awaitAck :: rest) writes
  | granted {request : Bytes} {left : Nat} {rest : List Task} {writes : List Bytes} :
    Scripts rest writes → Scripts (.awaitPermission request left :: rest) writes
  | denied {request : Bytes} {left ms : Nat} {rest : List Task} {writes : List Bytes} :
    1 < left → Scripts (.pause ms :: requestTasks request (left - 1) ++ rest) writes →
      Scripts (.awaitPermission request left :: rest) writes
  | pause {ms : Nat} {rest : List Task} {writes : List Bytes} :
    Scripts rest writes → Scripts (.pause ms :: rest) writes

end Transfer

/-- The write that was taken in a step. -/
def TransferStep.written (step : TransferStep) (taken : Bool) : List Bytes :=
  if taken then step.attempt.toList else []

namespace Transfer

/-- A step goes on with fewer tasks to do, waits, or ends the transfer.  What is written when
the tasks that are left are done was also written when those before the step are done, after the
write that was taken in the step. -/
inductive Advances (t : Transfer) (taken : Bool) : TransferStep → Prop
  | runs {next : Transfer} {signals : Signals} {attempt : Option Bytes} :
    (∀ writes, Scripts next.tasks writes →
      Scripts t.tasks (TransferStep.written ⟨.running next, signals, attempt⟩ taken ++ writes)) →
    Advances t taken ⟨.running next, signals, attempt⟩
  | waits {signals : Signals} : Advances t taken ⟨.blocked, signals, none⟩
  | succeeds {signals : Signals} {attempt : Option Bytes} :
    Scripts t.tasks (TransferStep.written ⟨.finished (.ok ()), signals, attempt⟩ taken) →
    Advances t taken ⟨.finished (.ok ()), signals, attempt⟩
  | fails {fault : LinkFault} {signals : Signals} {attempt : Option Bytes} :
    TransferStep.written ⟨.finished (.error fault), signals, attempt⟩ taken = [] →
    Advances t taken ⟨.finished (.error fault), signals, attempt⟩

section Steps

variable {config : LinkConfig} {now : Nat} {taken : Bool} {signals : Signals}
  {t t' : Transfer} {rest : List Task}

/-- A step that writes nothing and leaves the tasks as they are. -/
theorem advances_same (h : t'.tasks = t.tasks) : Advances t taken ⟨.running t', signals, none⟩ := by
  refine .runs fun writes hscript => ?_
  rw [h] at hscript
  cases taken <;> exact hscript

/-- A step that does the first task and writes nothing. -/
theorem advances_silent (h : ∀ writes, Scripts rest writes → Scripts t.tasks writes) :
    Advances t taken ⟨t'.proceed rest, signals, none⟩ := by
  cases rest with
  | nil =>
    refine .succeeds ?_
    have hdone := h [] .done
    cases taken <;> exact hdone
  | cons task rest =>
    refine .runs fun writes hscript => ?_
    have hwrites := h writes hscript
    cases taken <;> exact hwrites

/-- A step with which a wait ends the transfer. -/
theorem advances_failed {fault : LinkFault} :
    Advances t taken ⟨.finished (.error fault), signals, none⟩ := by
  refine .fails ?_
  cases taken <;> rfl

/-- A step with which a write is taken. -/
theorem advances_taken {data : Bytes} {guard : Option SignalSlot}
    (h : t.tasks = .write data guard :: rest) :
    Advances t true ⟨t'.proceed rest, signals, some data⟩ := by
  cases rest with
  | nil =>
    refine .succeeds ?_
    rw [h]
    exact .write .done
  | cons task rest =>
    refine .runs fun writes hscript => ?_
    rw [h]
    exact .write hscript

theorem advances_write {data : Bytes} {guard : Option SignalSlot}
    (h : t.tasks = .write data guard :: rest) :
    Advances t taken (t.step config now taken signals) := by
  have hattempts : Attempts t taken signals data guard rest (t.step config now taken signals) :=
    attempts_step h
  generalize t.step config now taken signals = step at hattempts
  cases hattempts with
  | rest => exact .waits
  | taken htaken =>
    rw [htaken]
    exact advances_taken h
  | again hrefused =>
    rw [hrefused]
    exact .runs fun writes hscript => hscript
  | refused hrefused =>
    rw [hrefused]
    exact .fails rfl

theorem advances_ack (h : t.tasks = .awaitAck :: rest) :
    Advances t taken (t.step config now taken signals) := by
  have hawaits : Awaits t signals rest (t.step config now taken signals) := awaits_step h
  generalize t.step config now taken signals = step at hawaits
  cases hawaits with
  | begins => exact advances_same rfl
  | goesOn => exact .waits
  | released =>
    refine advances_silent fun writes hscript => ?_
    rw [h]
    exact .acknowledged hscript
  | missing => exact advances_failed

/-- A request that is refused is made once more, if it may be. -/
theorem advances_permission {request : Bytes} {left : Nat}
    (h : t.tasks = .awaitPermission request left :: rest) :
    Advances t taken (stepPermission config now signals t request left rest) := by
  unfold stepPermission
  split
  · split
    · exact .waits
    · refine advances_silent fun writes hscript => ?_
      rw [h]
      exact .granted hscript
    · split
      · next hleft =>
        refine .runs fun writes hscript => ?_
        have hdenied : Scripts t.tasks writes := by
          rw [h]
          exact .denied hleft hscript
        cases taken <;> exact hdenied
      · exact advances_failed
    · exact advances_failed
  · exact advances_same rfl

theorem advances_pause {ms : Nat} (h : t.tasks = .pause ms :: rest) :
    Advances t taken (stepPause now signals t ms rest) := by
  unfold stepPause
  split
  · split
    · exact .waits
    · refine advances_silent fun writes hscript => ?_
      rw [h]
      exact .pause hscript
  · exact advances_same rfl

/-- **A step takes the first write of a script, or none.** -/
theorem advances_step (config : LinkConfig) (now : Nat) (taken : Bool) (signals : Signals)
    (t : Transfer) : Advances t taken (t.step config now taken signals) := by
  cases htasks : t.tasks with
  | nil =>
    rw [step, htasks]
    refine .succeeds ?_
    rw [htasks]
    cases taken <;> exact .done
  | cons task rest =>
    cases task with
    | arm slot =>
      rw [step, htasks]
      refine advances_silent fun writes hscript => ?_
      rw [htasks]
      exact .arm hscript
    | write data guard => exact advances_write htasks
    | awaitAck => exact advances_ack htasks
    | awaitPermission request left =>
      rw [step, htasks]
      exact advances_permission htasks
    | pause ms =>
      rw [step, htasks]
      exact advances_pause htasks

end Steps

/-! ### The scripts of the transfers there are -/

namespace Scripts

variable {rest : List Task} {writes : List Bytes} {guard : Option SignalSlot}

theorem of_writes {packets : List Bytes}
    (h : Scripts (packets.map (fun data => .write data guard) ++ rest) writes) :
    ∃ later, writes = packets ++ later ∧ Scripts rest later := by
  induction packets generalizing writes with
  | nil => exact ⟨writes, rfl, h⟩
  | cons packet packets ih =>
    cases h with
    | write h =>
      obtain ⟨later, rfl, hlater⟩ := ih h
      exact ⟨later, rfl, hlater⟩

/-- Units whose packets are acknowledged are written one after the other, and then the commit. -/
theorem of_remaining {units : List (List Bytes)} (h : Scripts (remaining units) writes) :
    writes = units.flatten ++ [commitUpload] := by
  induction units generalizing writes with
  | nil =>
    cases h with
    | write h =>
      cases h
      rfl
  | cons unit units ih =>
    rw [remaining_cons] at h
    cases h with
    | arm h =>
      obtain ⟨later, rfl, hlater⟩ := of_writes h
      cases hlater with
      | acknowledged hlater =>
        rw [ih hlater, List.flatten_cons, List.append_assoc]

/-- An upload has one script. -/
theorem of_uploadTasks {payload : Bytes} (h : Scripts (uploadTasks payload) writes) :
    writes = uploadWrites payload := by
  rw [uploadTasks_eq] at h
  rw [uploadWrites_eq]
  exact h.of_remaining

/-- A request is made until it is granted, but not more often than it may be. -/
theorem of_requestTasks {request : Bytes} {left : Nat}
    (h : Scripts (requestTasks request left ++ rest) writes) :
    ∃ count later, 1 ≤ count ∧ count ≤ max 1 left ∧
      writes = List.replicate count request ++ later ∧ Scripts rest later := by
  -- a refusal leaves one request fewer
  induction left generalizing writes with
  | zero =>
    cases h with
    | arm h =>
      cases h with
      | write h =>
        cases h with
        | granted h => exact ⟨1, _, le_refl 1, le_max_left _ _, rfl, h⟩
        | denied hleft => exact absurd hleft (by omega)
  | succ left ih =>
    cases h with
    | arm h =>
      cases h with
      | write h =>
        cases h with
        | granted h => exact ⟨1, _, le_refl 1, le_max_left _ _, rfl, h⟩
        | denied hleft h =>
          cases h with
          | pause h =>
            obtain ⟨count, later, -, hmost, rfl, hlater⟩ := ih h
            exact ⟨count + 1, later, by omega, by omega, rfl, hlater⟩

/-- A notification is asked for, and when it is permitted it is sent and committed. -/
theorem of_notification {payload : Bytes} {left : Nat}
    (h : Scripts (requestTasks (notificationRequest payload) left ++ dataTasks payload) writes) :
    ∃ count, 1 ≤ count ∧ count ≤ max 1 left ∧
      writes = List.replicate count (notificationRequest payload) ++
        (notificationPackets payload ++ [Command.commitNotification.encode]) := by
  obtain ⟨count, later, hleast, hmost, rfl, hlater⟩ := of_requestTasks h
  obtain ⟨last, rfl, hlast⟩ := of_writes hlater
  cases hlast with
  | write hlast =>
    cases hlast
    exact ⟨count, hleast, hmost, rfl⟩

end Scripts

end Transfer

end Timepiece
