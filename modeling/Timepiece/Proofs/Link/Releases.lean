import Mathlib
import Timepiece.Proofs.Link.Histories
import Timepiece.Proofs.Link.Upload

/-!
# What releases a unit of an upload

The slot for acknowledgements is armed when a unit is begun, and only the last packet of the
unit asks the watch for an acknowledgement.  An acknowledgement carries no name.  So one that
arrives while the packets of a unit are still written counts as the one for that unit: the wait
for it is over as soon as it begins.  What arrived before the unit was begun is lost, and what
arrives later than the acknowledgement of a unit counts for the next one at the earliest.

## Main definitions

* `UploadLog.Release` — a unit is released, and an acknowledgement had come for it.
* `UploadLog.Punctual` — acknowledgements came for units of which everything had been taken.
* `UploadRun.Expected` — acknowledgements only come while they are waited for.

## Main results

* `UploadRun.exists_release` — **a release is owed to one acknowledgement**, which came after
  the slot was armed for the unit.
* `UploadRun.released_run` — when everything of the unit had been taken before it came.
* `UploadRun.released_early` — an acknowledgement may come too early and release a unit.
-/

namespace Timepiece

namespace UploadLog

variable {payload : Bytes} {log first rest earlier : UploadLog} {mark : UploadMark} {count : Nat}

/-! ### What a release is owed to -/

/-- A unit is released, and what had happened before it was this: the units before it were
released, the slot was armed for it, and an acknowledgement came when a part of it had been
sent.  Then nothing happened at the slot while the rest of it was sent. -/
structure Release (payload : Bytes) (first rest : UploadLog) (before : List (List Bytes))
    (unit sent : List Bytes) : Prop where
  units : ∃ after, uploadUnits payload = before ++ unit :: after
  round : handshakes first = rounds before.length ++ [.armed]
  taken : accepted first = before.flatten ++ sent
  quiet : ∀ mark ∈ rest, mark.isAttempt = true
  whole : sent ++ accepted rest = unit

/-- Whenever there was such a mark, something was true of what had happened before it. -/
def Preceded (mark : UploadMark) (P : UploadLog → Prop) (log : UploadLog) : Prop :=
  Throughout (fun earlier other => other = mark → P earlier) log

/-- If the slot is armed for a unit, everything of the unit was taken. -/
def Punctual (payload : Bytes) (log : UploadLog) : Prop :=
  ∀ count, handshakes log = rounds count ++ [.armed] →
    accepted log = ((uploadUnits payload).take (count + 1)).flatten

/-- Everything of a unit was taken, and an acknowledgement has come in its round. -/
def Whole (payload : Bytes) (log : UploadLog) : Prop :=
  ∃ before after unit, uploadUnits payload = before ++ unit :: after ∧
    accepted log = before.flatten ++ unit ∧
    handshakes log = rounds before.length ++ [.armed, .acknowledged]

section Preceded

variable {new : UploadLog} {P : UploadLog → Prop}

theorem Preceded.of_eq (h : Preceded mark P log) (heq : log = first ++ mark :: rest) : P first := by
  refine h first mark ⟨rest, ?_⟩ rfl
  rw [heq, List.append_assoc, List.singleton_append]

/-- One more mark of the kind. -/
theorem Preceded.concat (h : Preceded mark P log) (hlog : P log) :
    Preceded mark P (log ++ [mark]) :=
  throughout_concat.2 ⟨h, fun _ => hlog⟩

/-- Marks of another kind add nothing. -/
theorem Preceded.append (h : Preceded mark P log) (hnew : mark ∉ new) :
    Preceded mark P (log ++ new) := by
  induction new using List.reverseRecOn with
  | nil =>
    rw [List.append_nil]
    exact h
  | append_singleton new last ih =>
    rw [List.mem_append, List.mem_singleton, not_or] at hnew
    rw [← List.append_assoc]
    exact throughout_concat.2 ⟨ih hnew.1, fun heq => absurd heq.symm hnew.2⟩

end Preceded

theorem accepted_append : accepted (first ++ rest) = accepted first ++ accepted rest :=
  List.filterMap_append

theorem accepted_concat_acknowledged : accepted (log ++ [.acknowledged]) = accepted log :=
  accepted_concat rfl

/-- Attempts to write leave no trace at the slot. -/
theorem handshakes_append_attempts (h : ∀ mark ∈ rest, mark.isAttempt = true) :
    handshakes (first ++ rest) = handshakes first := by
  have hnone : rest.filter (fun mark => !mark.isAttempt) = [] := by
    refine List.filter_eq_nil_iff.2 ?_
    intro mark hmem
    simp [h mark hmem]
  rw [handshakes, handshakes, List.filter_append, hnone, List.append_nil]

/-- The first thing that counts at the slot is that it is armed. -/
theorem handshakes_concat_first (h : mark.isAttempt = false) (hnone : handshakes log = []) :
    handshakes (log ++ [mark]) = [mark].dropWhile (· != .armed) := by
  have hkeep : List.filter (fun mark => !mark.isAttempt) [mark] = [mark] := by simp [h]
  unfold handshakes at hnone ⊢
  rw [List.filter_append, hkeep, List.dropWhile_append, if_pos (List.isEmpty_iff.2 hnone)]

theorem length_rounds : (rounds count).length = 3 * count := by
  induction count with
  | zero => rfl
  | succ count ih =>
    rw [rounds, List.length_append, ih]
    simp only [List.length_cons, List.length_nil]
    omega

/-- What happened in whole rounds and a part of one tells how many rounds there were. -/
theorem eq_of_rounds {other : Nat} {tail tail' : UploadLog}
    (h : rounds count ++ tail = rounds other ++ tail') (htail : tail.length < 3)
    (htail' : tail'.length < 3) : count = other := by
  have hlength := congrArg List.length h
  rw [List.length_append, List.length_append, length_rounds, length_rounds] at hlength
  omega

/-- The last thing that happened at the slot, and what was attempted since. -/
theorem exists_last_handshake {marks : UploadLog} (hne : marks ≠ [])
    (h : handshakes log = marks ++ [mark]) : ∃ first rest, log = first ++ mark :: rest ∧
      handshakes first = marks ∧ ∀ mark ∈ rest, mark.isAttempt = true := by
  -- from the last mark back: an attempt is passed over
  induction log using List.reverseRecOn with
  | nil => exact absurd h.symm (by simp [handshakes])
  | append_singleton log last ih =>
    by_cases hlast : last.isAttempt = true
    · have hattempts : ∀ mark ∈ [last], mark.isAttempt = true := by
        intro mark hmem
        rw [List.mem_singleton.1 hmem]
        exact hlast
      rw [handshakes_append_attempts hattempts] at h
      obtain ⟨first, rest, rfl, hfirst, hrest⟩ := ih h
      refine ⟨first, rest ++ [last], by simp, hfirst, ?_⟩
      exact List.forall_mem_append.2 ⟨hrest, hattempts⟩
    · have hslot : last.isAttempt = false := Bool.eq_false_iff.2 hlast
      by_cases hsome : handshakes log = []
      · -- then nothing stands before it
        have hlength : (handshakes (log ++ [last])).length ≤ 1 := by
          rw [handshakes_concat_first hslot hsome]
          exact List.length_dropWhile_le _ _
        rw [h, List.length_append, List.length_singleton] at hlength
        have hempty : marks.length = 0 := by omega
        exact absurd (List.eq_nil_of_length_eq_zero hempty) hne
      · rw [handshakes_concat hslot hsome] at h
        obtain ⟨hmarks, hmark⟩ := List.append_inj' h rfl
        refine ⟨log, [], ?_, hmarks, by simp⟩
        rw [List.singleton_inj.1 hmark]

/-- The unit whose round it is when a write is due that is not due before its acknowledgement:
nothing but the units before its own was taken before. -/
theorem Due.round {data : Bytes} {before after : List (List Bytes)} {unit : List Bytes}
    (h : Due payload log data) (hunits : uploadUnits payload = before ++ unit :: after)
    (hround : handshakes log = rounds before.length ++ [.armed, .acknowledged]) :
    ∃ sent, accepted log = before.flatten ++ sent := by
  cases h with
  | @packet others later pre suf tail hothers haccepted hhandshakes htail =>
    have hshort : tail.length < 3 := by rcases htail with rfl | rfl <;> simp
    have hsame : before.length = others.length :=
      eq_of_rounds (hround.symm.trans hhandshakes) (by simp) hshort
    rw [hunits] at hothers
    obtain ⟨rfl, -⟩ := List.append_inj hothers hsame
    exact ⟨pre, haccepted⟩
  | commit _ _ hhandshakes =>
    have heq := congrArg List.length (hround.symm.trans hhandshakes)
    simp only [List.length_append, length_rounds, List.length_cons, List.length_nil] at heq
    omega

/-- When everything of a unit was taken and its acknowledgement had come, the release is owed to
that. -/
theorem Orderly.exists_release {before after : List (List Bytes)} {unit : List Bytes}
    (h : Orderly payload log) (hunits : uploadUnits payload = before ++ unit :: after)
    (haccepted : accepted log = before.flatten ++ unit)
    (hround : handshakes log = rounds before.length ++ [.armed, .acknowledged]) :
    ∃ first rest sent, log = first ++ .acknowledged :: rest ∧
      Release payload first rest before unit sent := by
  have hsplit : handshakes log = (rounds before.length ++ [.armed]) ++ [.acknowledged] := by
    rw [hround, List.append_assoc]
    rfl
  obtain ⟨first, rest, rfl, hfirst, hquiet⟩ := exists_last_handshake (by simp) hsplit
  -- what had been taken when the acknowledgement came is told by the first attempt after it
  have hsent : ∃ sent, accepted first = before.flatten ++ sent := by
    cases rest with
    | nil => exact ⟨unit, by rw [← haccepted, accepted_concat_acknowledged]⟩
    | cons mark rest =>
      cases mark with
      | attempt data taken =>
        have hdue : Due payload (first ++ [.acknowledged]) data :=
          h (first ++ [.acknowledged]) data taken rest (by simp)
        have hnow : handshakes (first ++ [.acknowledged]) =
            rounds before.length ++ [.armed, .acknowledged] := by
          rw [handshakes_concat rfl (by simp [hfirst]), hfirst, List.append_assoc]
          rfl
        obtain ⟨sent, hsent⟩ := hdue.round hunits hnow
        exact ⟨sent, by rw [← hsent, accepted_concat_acknowledged]⟩
      | armed | acknowledged | released =>
        exact absurd (hquiet _ List.mem_cons_self) (by simp [UploadMark.isAttempt])
  obtain ⟨sent, hsent⟩ := hsent
  refine ⟨first, rest, sent, rfl, ⟨after, hunits⟩, hfirst, hsent, hquiet, ?_⟩
  rw [List.append_cons, accepted_append, accepted_concat_acknowledged, hsent,
    List.append_assoc] at haccepted
  exact List.append_cancel_left haccepted

/-- The writes of the units up to one of them. -/
theorem flatten_take_units {before after : List (List Bytes)} {unit : List Bytes}
    (h : uploadUnits payload = before ++ unit :: after) :
    ((uploadUnits payload).take (before.length + 1)).flatten = before.flatten ++ unit := by
  have htake : (before ++ unit :: after).take (before.length + 1) = before ++ [unit] := by
    rw [List.take_append]
    simp
  rw [h, htake, List.flatten_append, List.flatten_singleton]

/-- A release of which the acknowledgement was not too early. -/
theorem Release.eq_of_punctual {before : List (List Bytes)} {unit sent : List Bytes}
    (h : Release payload first rest before unit sent)
    (hpunctual : accepted first = ((uploadUnits payload).take (before.length + 1)).flatten) :
    sent = unit := by
  obtain ⟨after, hunits⟩ := h.units
  rw [h.taken, flatten_take_units hunits] at hpunctual
  exact List.append_cancel_left hpunctual

end UploadLog

namespace UploadRun

open UploadLog

variable {config : LinkConfig} {payload : Bytes} {signals : Signals}
  {events past : List UploadEvent} {event : UploadEvent} {r : UploadRun} {earlier later : UploadLog}

/-! ### Marks -/

/-- The upload waits for an acknowledgement, or will do so with its next step. -/
def awaits (r : UploadRun) : Bool := r.transfer.tasks.head? = some .awaitAck

/-- Acknowledgements only come while they are waited for, or while the slot is not armed. -/
def Expected (config : LinkConfig) (payload : Bytes) (signals : Signals) :
    List UploadEvent → Prop :=
  Throughout fun past event => event = .acknowledge →
    (run config payload signals past).signals.ack.isArmed = true →
      (run config payload signals past).awaits = true

instance (config : LinkConfig) (payload : Bytes) (signals : Signals) (events : List UploadEvent) :
    Decidable (Expected config payload signals events) :=
  inferInstanceAs (Decidable (Throughout _ _))

theorem run_concat (config : LinkConfig) (payload : Bytes) (signals : Signals)
    (past : List UploadEvent) (event : UploadEvent) :
    run config payload signals (past ++ [event]) =
      step config (run config payload signals past) event := by
  rw [run, List.foldl_append]
  rfl

/-- Only a wait for an acknowledgement releases a unit, and it leaves no other mark. -/
theorem marks_of_released {t : Transfer} {taken : Bool} {s : TransferStep}
    (h : .released ∈ marks t taken s) :
    ∃ rest, t.tasks = .awaitAck :: rest ∧ completes t s.progress = true := by
  unfold marks slotMarks at h
  rcases List.mem_append.1 h with h | h
  · split at h
    · split at h <;> simp at h
    · next rest htasks =>
      split at h
      · next hcompletes => exact ⟨rest, htasks, hcompletes⟩
      · simp at h
    · simp at h
  · cases hattempt : s.attempt <;> simp [hattempt] at h

/-- An upload waits for an acknowledgement when everything of a unit was taken. -/
theorem Stage.of_awaits {rest : List Task} (h : Stage payload r) (hnone : r.result = none)
    (htasks : r.transfer.tasks = .awaitAck :: rest) : ∃ before after unit tail,
      uploadUnits payload = before ++ unit :: after ∧
      UploadLog.accepted r.log = before.flatten ++ unit ∧
      handshakes r.log = rounds before.length ++ tail ∧
      Round r.signals.ack r.transfer.ticket tail := by
  cases h with
  | @ready t signals log before after _ hremaining =>
    -- a unit that is to begin arms the slot, and the commit is written
    rw [hremaining] at htasks
    cases after with
    | nil => simp [Transfer.remaining] at htasks
    | cons unit after => simp [Transfer.remaining_cons] at htasks
  | @sending t signals log tail before after pre suf hunits hsending haccepted hhandshakes hround =>
    cases suf with
    | nil =>
      rw [List.append_nil] at hunits
      exact ⟨before, after, pre, tail, hunits, haccepted, hhandshakes, hround⟩
    | cons data suf =>
      rw [hsending] at htasks
      simp [Transfer.sending] at htasks
  | done | failed => cases hnone

/-- A unit that is released was taken, and its acknowledgement had come. -/
theorem Inv.of_released {now : Nat} {taken : Bool} (h : Inv payload r) (hnone : r.result = none)
    (hmem : .released ∈ marks r.transfer taken (r.transfer.step config now taken r.signals)) :
    marks r.transfer taken (r.transfer.step config now taken r.signals) = [.released] ∧
      Whole payload r.log := by
  obtain ⟨rest, htasks, hcompletes⟩ := marks_of_released hmem
  obtain ⟨before, after, unit, tail, hunits, haccepted, hhandshakes, hround⟩ :=
    h.stage.of_awaits hnone htasks
  have hawaits : Transfer.Awaits r.transfer r.signals rest
      (r.transfer.step config now taken r.signals) := Transfer.awaits_step htasks
  generalize r.transfer.step config now taken r.signals = s at hawaits hcompletes ⊢
  cases hawaits with
  | begins => simp [completes] at hcompletes
  | goesOn => cases hcompletes
  | missing => cases hcompletes
  | released hawait =>
    obtain ⟨rfl, -⟩ := hround.of_await hawait
    refine ⟨?_, before, after, unit, hunits, haccepted, hhandshakes⟩
    rw [marks_await htasks rfl, if_pos hcompletes]

/-! ### All releases -/

/-- What a step of the upload leaves. -/
theorem log_work {now : Nat} {taken : Bool} (hnone : r.result = none) :
    (step config r (.work now taken)).log =
      r.log ++ marks r.transfer taken (r.transfer.step config now taken r.signals) := by
  simp only [step, hnone, UploadRun.after]
  split <;> rfl

/-- Every event keeps it that what is released was taken. -/
theorem whole_step (hinv : Inv payload r) (h : Preceded .released (Whole payload) r.log)
    (event : UploadEvent) :
    Preceded .released (Whole payload) (step config r event).log := by
  cases event with
  | work now taken =>
    cases hresult : r.result with
    | some result =>
      simp only [step, hresult]
      exact h
    | none =>
      rw [log_work hresult]
      by_cases hmem : .released ∈ marks r.transfer taken
          (r.transfer.step config now taken r.signals)
      · obtain ⟨hmarks, hwhole⟩ := hinv.of_released hresult hmem
        rw [hmarks]
        exact h.concat hwhole
      · exact h.append hmem
  | acknowledge =>
    refine h.append ?_
    split <;> simp
  | permit granted => exact h

theorem whole_run (config : LinkConfig) (payload : Bytes) (events : List UploadEvent)
    (h : signals.ack.Reachable) :
    Preceded .released (Whole payload) (run config payload signals events).log := by
  induction events using List.reverseRecOn with
  | nil => exact throughout_nil
  | append_singleton past event ih =>
    rw [run_concat]
    exact whole_step (inv_run config payload past h) ih event

/-- **A release is owed to one acknowledgement**, which came after the slot was armed for the
unit that is released. -/
theorem exists_release (h : signals.ack.Reachable)
    (hlog : (run config payload signals events).log = earlier ++ .released :: later) :
    ∃ first rest before unit sent, earlier = first ++ .acknowledged :: rest ∧
      Release payload first rest before unit sent := by
  obtain ⟨before, after, unit, hunits, haccepted, hhandshakes⟩ :=
    (whole_run config payload events h).of_eq hlog
  have horderly : Orderly payload earlier := by
    intro first data taken rest heq
    refine (inv_run config payload events h).orderly first data taken
      (rest ++ .released :: later) ?_
    rw [hlog, heq, List.append_assoc, List.cons_append]
  obtain ⟨first, rest, sent, heq, hrelease⟩ :=
    horderly.exists_release hunits haccepted hhandshakes
  exact ⟨first, rest, before, unit, sent, heq, hrelease⟩

/-! ### Acknowledgements that are expected -/

/-- When an acknowledgement is waited for, everything of the unit was taken. -/
theorem Inv.punctual (h : Inv payload r) (harmed : r.signals.ack.isArmed = true)
    (hawaits : r.awaits = true) : Punctual payload r.log := by
  intro count hcount
  have hnone : r.result = none := by
    cases hresult : r.result with
    | none => rfl
    | some result =>
      -- an upload that has ended has left the slot
      have hunarmed := h.stage.unarmed (by rw [hresult]; rfl)
      rw [hunarmed] at harmed
      exact nomatch harmed
  obtain ⟨rest, htasks⟩ : ∃ rest, r.transfer.tasks = .awaitAck :: rest :=
    List.head?_eq_some_iff.1 (of_decide_eq_true hawaits)
  obtain ⟨before, after, unit, tail, hunits, haccepted, hhandshakes, hround⟩ :=
    h.stage.of_awaits hnone htasks
  have hshort : tail.length < 3 := by rcases hround.tail with rfl | rfl <;> simp
  obtain rfl : count = before.length :=
    eq_of_rounds (hcount.symm.trans hhandshakes) (by simp) hshort
  rw [haccepted, flatten_take_units hunits]

/-- A step of the upload brings no acknowledgement. -/
theorem acknowledged_not_mem_marks (t : Transfer) (taken : Bool) (s : TransferStep) :
    .acknowledged ∉ marks t taken s := by
  intro h
  unfold marks slotMarks at h
  rcases List.mem_append.1 h with h | h
  · split at h
    · split at h <;> simp at h
    · split at h <;> simp at h
    · simp at h
  · cases hattempt : s.attempt <;> simp [hattempt] at h

/-- An acknowledgement that is expected comes when everything of a unit was taken. -/
theorem punctual_step (hinv : Inv payload r)
    (h : Preceded .acknowledged (Punctual payload) r.log)
    (hexpected : event = .acknowledge → r.signals.ack.isArmed = true → r.awaits = true) :
    Preceded .acknowledged (Punctual payload) (step config r event).log := by
  cases event with
  | work now taken =>
    cases hresult : r.result with
    | some result =>
      simp only [step, hresult]
      exact h
    | none =>
      rw [log_work hresult]
      exact h.append (acknowledged_not_mem_marks _ _ _)
  | acknowledge =>
    by_cases harmed : r.signals.ack.isArmed = true
    · have hpunctual := hinv.punctual harmed (hexpected rfl harmed)
      simp only [step]
      split
      · exact h.concat hpunctual
      · exact h.append (by simp)
    · have hslot : r.signals.ack.slot = none := by
        simpa [Rendezvous.isArmed] using harmed
      rw [step_acknowledge_of_unarmed hslot]
      exact h
  | permit granted => exact h

theorem punctual_run (config : LinkConfig) (payload : Bytes) (events : List UploadEvent)
    (h : signals.ack.Reachable) (hexpected : Expected config payload signals events) :
    Preceded .acknowledged (Punctual payload) (run config payload signals events).log := by
  refine hexpected.induct (P := fun past => Preceded .acknowledged (Punctual payload)
    (run config payload signals past).log) throughout_nil ?_
  intro past event hevent ih
  rw [run_concat]
  exact punctual_step (inv_run config payload past h) ih hevent

/-- **What releases a unit.**  Whenever a wait ends with an acknowledgement, everything of the
unit was taken, and the wait is owed to one acknowledgement, which came after the units before
it were released and the slot was armed for the unit.  If acknowledgements only come while they
are waited for, everything of the unit had been taken before that came. -/
theorem released_run (h : signals.ack.Reachable)
    (hlog : (run config payload signals events).log = earlier ++ .released :: later) :
    ∃ first rest before unit sent, earlier = first ++ .acknowledged :: rest ∧
      Release payload first rest before unit sent ∧
      (Expected config payload signals events → sent = unit) := by
  obtain ⟨first, rest, before, unit, sent, rfl, hrelease⟩ := exists_release h hlog
  refine ⟨first, rest, before, unit, sent, rfl, hrelease, ?_⟩
  intro hexpected
  rw [List.append_assoc, List.cons_append] at hlog
  have hpunctual := (punctual_run config payload events h hexpected).of_eq hlog
  exact hrelease.eq_of_punctual (hpunctual before.length hrelease.round)

/-- A payload whose only chunk is cut into two packets. -/
def twoPackets : Bytes := List.replicate 20 7

/-- The upload of two packets.  Both acknowledgements come when everything of their units was
taken. -/
def patient : List UploadEvent :=
  [.work 0 true, .work 0 true, .acknowledge, .work 0 true, .work 0 true, .work 0 true,
    .work 0 true, .work 0 false, .work 1 true, .acknowledge, .work 1 true, .work 1 true]

/-- The same upload.  The second acknowledgement comes while the second packet is refused. -/
def hasty : List UploadEvent :=
  [.work 0 true, .work 0 true, .acknowledge, .work 0 true, .work 0 true, .work 0 true,
    .work 0 true, .work 0 false, .acknowledge, .work 1 true, .work 1 true, .work 1 true]

/-- The chunk is released by the acknowledgement that came after its second packet. -/
theorem released_run_patient :
    Expected {} twoPackets .empty patient ∧
      ∃ earlier, (run {} twoPackets .empty patient).log = earlier ++ [.released] ∧
        ∃ first rest before unit, earlier = first ++ .acknowledged :: rest ∧
          Release twoPackets first rest before unit unit := by
  have hexpected : Expected {} twoPackets .empty patient := by decide +kernel
  have hlog : (run {} twoPackets .empty patient).log =
      (run {} twoPackets .empty patient).log.dropLast ++ [.released] := by decide +kernel
  obtain ⟨first, rest, before, unit, sent, heq, hrelease, hsent⟩ := released_run .empty hlog
  rw [hsent hexpected] at hrelease
  exact ⟨hexpected, _, hlog, first, rest, before, unit, heq, hrelease⟩

/-- An acknowledgement that comes before the last packet of a unit was taken may release it. -/
theorem released_early :
    ¬ ∀ (config : LinkConfig) (payload : Bytes) (signals : Signals) (events : List UploadEvent)
      (earlier later : UploadLog), signals.ack.Reachable →
      (run config payload signals events).log = earlier ++ .released :: later →
        ∃ first rest before unit, earlier = first ++ .acknowledged :: rest ∧
          Release payload first rest before unit unit := by
  intro h
  have hlog : (run {} twoPackets .empty hasty).log =
      (run {} twoPackets .empty hasty).log.dropLast ++ [.released] := by decide +kernel
  obtain ⟨first, rest, before, unit, heq, hrelease⟩ := h {} twoPackets .empty hasty _ [] .empty hlog
  -- after the last acknowledgement the second packet was taken
  have hlate : ∀ count < 9,
      (run {} twoPackets .empty hasty).log.dropLast[count]? = some .acknowledged →
      (∀ mark ∈ (run {} twoPackets .empty hasty).log.dropLast.drop (count + 1),
        mark.isAttempt = true) →
      accepted ((run {} twoPackets .empty hasty).log.dropLast.drop (count + 1)) ≠ [] := by
    decide +kernel
  have hlength : first.length < 9 := by
    have hall : (run {} twoPackets .empty hasty).log.dropLast.length = 9 := by decide +kernel
    rw [heq] at hall
    simp only [List.length_append, List.length_cons] at hall
    omega
  have hlast := hlate first.length hlength
  rw [heq] at hlast
  simp only [List.getElem?_append_right (le_refl _), Nat.sub_self, List.getElem?_cons_zero,
    List.drop_length_add_append, List.drop_one, List.tail_cons] at hlast
  exact hlast trivial hrelease.quiet (List.self_eq_append_right.1 hrelease.whole.symm)

end UploadRun

end Timepiece
