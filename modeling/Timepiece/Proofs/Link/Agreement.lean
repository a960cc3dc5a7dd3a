import Mathlib
import Timepiece.Proofs.Link.Exchanges
import Timepiece.Proofs.Link.Reassembly

/-!
# Where a unit of an upload ends

The host knows from the plan of an upload where a unit ends, and waits for an acknowledgement there.
The watch knows it from the tag and the mark of a write alone.  The two agree, whatever the payload
holds.  So a transfer that waits for an acknowledgement finds one, before and after any refusals: it
never has to give up, if no write is refused too often in a row.

## Main definitions

* `EndsOnce` — of some writes only the last one is acknowledged.
* `Exchange.ofUpload` — what is taken and reported during an upload.
* `LinkConfig.Bears` — no write is refused for good.
* `Simulation.Standing` — how far host and watch have come.
* `Simulation.Met` — what a step of the upload does.

## Main results

* `endsOnce_of_mem_units` — **the two readings agree**: of the packets of a unit the watch
  acknowledges the last one only.
* `Simulation.Standing.step` — **every step of the upload is one of these**, and none of them fails.
-/

namespace Timepiece

open ScriptedWatch (endsUnit asksPermission)

/-! ### Where a unit ends -/

/-- Of some writes the watch acknowledges the last one, and answers none before. -/
inductive EndsOnce : List Bytes → Prop
  | last {data : Bytes} : endsUnit data = true → EndsOnce [data]
  | more {data : Bytes} {rest : List Bytes} : endsUnit data = false → asksPermission data = false →
    EndsOnce rest → EndsOnce (data :: rest)

theorem endsOnce_laterPackets (piece : Bytes) (rest : List Bytes) :
    EndsOnce (laterPackets (piece :: rest)) := by
  induction rest generalizing piece with
  | nil =>
    refine .last ?_
    cases piece <;> rfl
  | cons next rest ih =>
    have hmiddle : endsUnit (PacketRole.middle.tag :: piece) = false := by cases piece <;> rfl
    rw [laterPackets]
    · exact .more hmiddle rfl (ih next)
    · exact List.cons_ne_nil _ _

/-- The packets of a chunk end with the last one, whatever the chunk holds. -/
theorem endsOnce_packets (data : Bytes) : EndsOnce (packets (dataMark :: data)) := by
  rw [packets, pieces_cons]
  cases pieces packetData (data.drop (packetData - 1)) with
  | nil => exact .last rfl
  | cons piece rest =>
    rw [tagged]
    · exact .more rfl rfl (endsOnce_laterPackets piece rest)
    · exact List.cons_ne_nil _ _

/-- **The two readings agree.**  Of the packets of a unit the watch acknowledges the last one
only. -/
theorem endsOnce_of_mem_units {payload : Bytes} {unit : List Bytes}
    (h : unit ∈ uploadUnits payload) : EndsOnce unit := by
  rcases List.mem_cons.1 h with rfl | h
  · exact .last rfl
  · rw [uploadPlan_eq] at h
    obtain ⟨data, -, rfl⟩ := List.mem_map.1 h
    exact endsOnce_packets data

/-! ### What passes during an upload -/

namespace Exchange

/-- A write that was taken and stays without an answer. -/
def quiet (data : Bytes) : Exchange := ⟨data, true, []⟩

/-- A write that was taken and acknowledged. -/
def acknowledged (data : Bytes) : Exchange := ⟨data, true, [acknowledgement]⟩

/-- A unit of an upload: the last packet is acknowledged, and no other one. -/
def ofUnit (packets : List Bytes) : List Exchange :=
  packets.dropLast.map quiet ++ packets.getLast?.toList.map acknowledged

/-- The units of an upload, and the write that closes it. -/
def ofUpload (payload : Bytes) : List Exchange :=
  (uploadUnits payload).flatMap ofUnit ++ [quiet commitUpload]

theorem ofUnit_concat (packets : List Bytes) (data : Bytes) :
    ofUnit (packets ++ [data]) = packets.map quiet ++ [acknowledged data] := by
  simp [ofUnit]

theorem data_ofUnit (packets : List Bytes) : (ofUnit packets).map data = packets := by
  rcases List.eq_nil_or_concat packets with rfl | ⟨others, last, rfl⟩
  · rfl
  · rw [List.concat_eq_append, ofUnit_concat, List.map_append, List.map_map]
    exact congrArg (· ++ [last]) (List.map_id _)

/-- The writes of an upload are taken in their order, each once. -/
theorem data_ofUpload (payload : Bytes) : (ofUpload payload).map data = uploadWrites payload := by
  rw [ofUpload, uploadWrites_eq, List.map_append, List.map_flatMap]
  refine congrArg (· ++ [commitUpload]) ?_
  rw [List.flatMap_congr fun packets _ => data_ofUnit packets, List.flatMap_id']

end Exchange

/-! ### Refusals -/

/-- Some attempts in a row were refused just now. -/
def RefusedLast (refused : Nat → Bool) (attempts count : Nat) : Prop :=
  ∃ start, start + count = attempts ∧ ∀ now < count, refused (start + now) = true

/-- Among so many attempts in a row as a write is given one is taken, so that none is refused for
good. -/
def LinkConfig.Bears (config : LinkConfig) (refused : Nat → Bool) : Prop :=
  ∀ start, ∃ now < config.attempts, refused (start + now) = false

section Refusals

variable {refused : Nat → Bool} {attempts count : Nat} {config : LinkConfig}

theorem refusedLast_zero (refused : Nat → Bool) (attempts : Nat) :
    RefusedLast refused attempts 0 :=
  ⟨attempts, Nat.add_zero _, fun _ hnow => absurd hnow (Nat.not_lt_zero _)⟩

theorem RefusedLast.succ (h : RefusedLast refused attempts count)
    (hrefused : refused attempts = true) : RefusedLast refused (attempts + 1) (count + 1) := by
  obtain ⟨start, rfl, hall⟩ := h
  refine ⟨start, (Nat.add_assoc _ _ _).symm, fun now hnow => ?_⟩
  rcases Nat.lt_succ_iff_lt_or_eq.1 hnow with hbefore | rfl
  · exact hall now hbefore
  · exact hrefused

/-- A write that is refused once more may be tried again. -/
theorem RefusedLast.lt (h : RefusedLast refused attempts count) (hbears : config.Bears refused) :
    count < config.attempts := by
  obtain ⟨start, -, hall⟩ := h
  obtain ⟨now, hnow, htaken⟩ := hbears start
  by_contra hmany
  rw [hall now (by omega)] at htaken
  exact nomatch htaken

end Refusals

/-- How often the write that is first was refused. -/
def TaskMode.refusals : TaskMode → Nat
  | .resting attempts _ => attempts
  | _ => 0

/-! ### Steps of the upload -/

namespace Simulation

/-- How far host and watch have come, by the transfer, the slot, what is in the inbox, and what
passed so far. -/
inductive Standing (payload : Bytes) (t : Transfer) (ack : Rendezvous Unit) :
    List RadioEvent → List Exchange → Prop
  /-- Some units are acknowledged; the next one, or the commit, is to begin. -/
  | ready {before after : List (List Bytes)} : uploadUnits payload = before ++ after →
    t.tasks = Transfer.remaining after → ack.Idle →
    Standing payload t ack [] (before.flatMap Exchange.ofUnit)
  /-- Some packets of a unit are written, the last one is not. -/
  | sending {before after : List (List Bytes)} {pre suf : List Bytes} :
    uploadUnits payload = before ++ (pre ++ suf) :: after → EndsOnce suf →
    t.tasks = Transfer.sending suf after → ack.Armed t.ticket →
    Standing payload t ack [] (before.flatMap Exchange.ofUnit ++ pre.map Exchange.quiet)
  /-- A unit is written, and its acknowledgement was not heard yet. -/
  | coming {before after : List (List Bytes)} : uploadUnits payload = before ++ after →
    t.tasks = .awaitAck :: Transfer.remaining after → ack.Armed t.ticket →
    Standing payload t ack [acknowledgement] (before.flatMap Exchange.ofUnit)
  /-- The acknowledgement of a unit is there, and the worker did not find it yet. -/
  | here {before after : List (List Bytes)} : uploadUnits payload = before ++ after →
    t.tasks = .awaitAck :: Transfer.remaining after → ack.Answered t.ticket →
    Standing payload t ack [] (before.flatMap Exchange.ofUnit)

/-- What the radio reports of a packet that was taken. -/
def Reported (data : Bytes) (reports : List RadioEvent) : Prop :=
  endsUnit data = true ∧ reports = [acknowledgement] ∨
    endsUnit data = false ∧ asksPermission data = false ∧ reports = []

theorem suffer_reported {w : ScriptedWatch} {data : Bytes} {reports : List RadioEvent}
    (hsilent : w.silent = false) (h : Reported data reports) :
    w.suffer (.write data true) = (reports, w.noted data true) := by
  rcases h with ⟨hends, rfl⟩ | ⟨hends, hasks, rfl⟩
  · exact ScriptedWatch.suffer_of_endsUnit hsilent hends
  · exact ScriptedWatch.suffer_of_not_endsUnit hsilent hends hasks

/-- A wait for what is in the inbox ends later than now. -/
def InTime (t : Transfer) (now : Nat) (inbox : List RadioEvent) : Prop :=
  inbox ≠ [] → ∀ due, t.wakeup? = some due → now < due

/-- What a step of the upload does: it waits; it goes on without a write; it has a packet taken or
refused, after which it goes on; or the write that closes the upload is taken. -/
inductive Met (payload : Bytes) (t : Transfer) (signals : Signals) (now attempts : Nat)
    (refused : Nat → Bool) (inbox : List RadioEvent) (log : List Exchange) : TransferStep → Prop
  | waits : Met payload t signals now attempts refused inbox log ⟨.blocked, signals, none⟩
  | goesOn {next : Transfer} {signals' : Signals} :
    Standing payload next signals'.ack inbox log → next.mode.refusals = 0 →
    InTime next now inbox →
    Met payload t signals now attempts refused inbox log ⟨.running next, signals', none⟩
  | taken {next : Transfer} {data : Bytes} {reports : List RadioEvent} :
    refused attempts = false → Reported data reports →
    Standing payload next signals.ack (inbox ++ reports) (log ++ [⟨data, true, reports⟩]) →
    next.mode = .ready →
    Met payload t signals now attempts refused inbox log ⟨.running next, signals, some data⟩
  | refused {next : Transfer} {data : Bytes} : refused attempts = true →
    Standing payload next signals.ack inbox log → inbox = [] →
    RefusedLast refused (attempts + 1) next.mode.refusals →
    Met payload t signals now attempts refused inbox log ⟨.running next, signals, some data⟩
  | ends : refused attempts = false → inbox = [] → signals.ack.Idle →
    log ++ [Exchange.quiet commitUpload] = Exchange.ofUpload payload →
    Met payload t signals now attempts refused inbox log
      ⟨.finished (.ok ()), signals, some commitUpload⟩

section Steps

variable {payload : Bytes} {t : Transfer} {signals : Signals} {config : LinkConfig}
  {now attempts : Nat} {refused : Nat → Bool} {inbox : List RadioEvent} {log : List Exchange}
  {before after : List (List Bytes)}

/-- A write waits for the end of its pause, is taken, or is refused and tried again. -/
theorem step_write {data : Bytes} {guard : Option SignalSlot} {rest : List Task}
    (h : t.tasks = .write data guard :: rest)
    (hlast : RefusedLast refused attempts t.mode.refusals) (hbears : config.Bears refused) :
    t.step config now (!refused attempts) signals = ⟨.blocked, signals, none⟩ ∨
      (refused attempts = false ∧
        t.step config now (!refused attempts) signals = ⟨t.proceed rest, signals, some data⟩) ∨
      (refused attempts = true ∧ ∃ mode,
        t.step config now (!refused attempts) signals =
          ⟨.running { t with mode }, signals, some data⟩ ∧
        RefusedLast refused (attempts + 1) mode.refusals) := by
  -- the pause goes on, or the write is attempted
  have hstep : t.step config now (!refused attempts) signals = ⟨.blocked, signals, none⟩ ∨
      t.step config now (!refused attempts) signals =
        Transfer.attemptWrite config now (!refused attempts) signals t t.mode.refusals data guard
          rest := by
    rw [Transfer.step, h]
    show Transfer.stepWrite config now _ signals t data guard rest = _ ∨
      Transfer.stepWrite config now _ signals t data guard rest = _
    unfold Transfer.stepWrite
    cases t.mode with
    | resting tries due =>
      dsimp only
      split
      · exact .inl rfl
      · exact .inr rfl
    | ready | waiting | pausing => exact .inr rfl
  rcases hstep with hwaits | hattempt
  · exact .inl hwaits
  · right
    rw [hattempt]
    unfold Transfer.attemptWrite
    cases hrefused : refused attempts with
    | false => exact .inl ⟨rfl, rfl⟩
    | true =>
      have hagain := hlast.succ hrefused
      refine .inr ⟨rfl, .resting (t.mode.refusals + 1)
        (endOfWait now (LinkConfig.retryDelay t.mode.refusals)), ?_, hagain⟩
      rw [Bool.not_true, if_neg Bool.false_ne_true, if_pos (hagain.lt hbears)]

/-- A packet of a unit is written.  If it is the last one the watch acknowledges the unit. -/
theorem Met.packet {pre suf : List Bytes}
    (hunits : uploadUnits payload = before ++ (pre ++ suf) :: after) (hends : EndsOnce suf)
    (htasks : t.tasks = Transfer.sending suf after) (hslot : signals.ack.Armed t.ticket)
    (hlast : RefusedLast refused attempts t.mode.refusals) (hbears : config.Bears refused) :
    Met payload t signals now attempts refused []
      (before.flatMap Exchange.ofUnit ++ pre.map Exchange.quiet)
      (t.step config now (!refused attempts) signals) := by
  obtain ⟨data, rest, rfl⟩ : ∃ data rest, suf = data :: rest := by
    cases hends with
    | last => exact ⟨_, _, rfl⟩
    | more => exact ⟨_, _, rfl⟩
  have hfirst : t.tasks = .write data (some .ack) :: Transfer.sending rest after := htasks
  obtain hwaits | ⟨htaken, hstep⟩ | ⟨hrefused, mode, hstep, hagain⟩ :=
    step_write hfirst hlast hbears
  · rw [hwaits]
    exact .waits
  · rw [hstep, Transfer.proceed_of_ne_nil (Transfer.sending_ne_nil rest after)]
    cases hends with
    | last hend =>
      -- the unit joins those that are acknowledged
      have hnext : uploadUnits payload = (before ++ [pre ++ [data]]) ++ after := by
        rw [hunits, List.append_assoc, List.singleton_append]
      have hlog : before.flatMap Exchange.ofUnit ++ pre.map Exchange.quiet ++
          [Exchange.acknowledged data] = (before ++ [pre ++ [data]]).flatMap Exchange.ofUnit := by
        rw [List.flatMap_append, List.flatMap_singleton, Exchange.ofUnit_concat, List.append_assoc]
      refine .taken htaken (.inl ⟨hend, rfl⟩) ?_ rfl
      show Standing payload _ _ [acknowledgement] (_ ++ [Exchange.acknowledged data])
      rw [hlog]
      exact .coming hnext rfl hslot
    | more hend hasks hrest =>
      have hnext : uploadUnits payload = before ++ ((pre ++ [data]) ++ rest) :: after := by
        rw [hunits, List.append_assoc, List.singleton_append]
      have hlog : before.flatMap Exchange.ofUnit ++ pre.map Exchange.quiet ++
          [Exchange.quiet data] =
            before.flatMap Exchange.ofUnit ++ (pre ++ [data]).map Exchange.quiet := by
        rw [List.map_append, List.map_singleton, List.append_assoc]
      refine .taken htaken (.inr ⟨hend, hasks, rfl⟩) ?_ rfl
      show Standing payload _ _ [] (_ ++ [Exchange.quiet data])
      rw [hlog]
      exact .sending hnext hrest rfl hslot
  · rw [hstep]
    exact .refused hrefused (.sending hunits hends htasks hslot) rfl hagain

/-- The slot is armed for the next unit, or the write that closes the upload is due. -/
theorem Met.next (hunits : uploadUnits payload = before ++ after)
    (htasks : t.tasks = Transfer.remaining after) (hidle : signals.ack.Idle)
    (hlast : RefusedLast refused attempts t.mode.refusals) (hbears : config.Bears refused) :
    Met payload t signals now attempts refused [] (before.flatMap Exchange.ofUnit)
      (t.step config now (!refused attempts) signals) := by
  cases after with
  | nil =>
    obtain hwaits | ⟨htaken, hstep⟩ | ⟨hrefused, mode, hstep, hagain⟩ :=
      step_write htasks hlast hbears
    · rw [hwaits]
      exact .waits
    · rw [hstep]
      refine .ends htaken rfl hidle ?_
      rw [Exchange.ofUpload, hunits, List.append_nil]
    · rw [hstep]
      exact .refused hrefused (.ready hunits htasks hidle) rfl hagain
  | cons unit after =>
    have hunit : unit ∈ uploadUnits payload := by simp [hunits]
    have hfirst : uploadUnits payload = before ++ ([] ++ unit) :: after := hunits
    rw [Transfer.remaining_cons] at htasks
    rw [Transfer.step_arm htasks (Transfer.sending_ne_nil unit after)]
    refine .goesOn ?_ rfl (fun hsome => absurd rfl hsome)
    have hsending : Standing payload ⟨Transfer.sending unit after, .ready, signals.ack.next⟩
        signals.ack.arm.2 [] (before.flatMap Exchange.ofUnit ++ [].map Exchange.quiet) :=
      .sending hfirst (endsOnce_of_mem_units hunit) rfl hidle.arm
    rwa [List.map_nil, List.append_nil] at hsending

/-- A wait that begins ends later than now. -/
theorem inTime_begins (hpatient : 1 ≤ config.ackTimeout) :
    InTime { t with mode := .waiting (endOfWait now config.ackTimeout) } now inbox := by
  intro _ due hdue
  obtain rfl := Option.some.inj hdue
  have hlongest : 1 ≤ longestWait := by decide
  have hpause : 1 ≤ min config.ackTimeout longestWait := le_min hpatient hlongest
  show now < now + min config.ackTimeout longestWait
  omega

/-- The wait for an acknowledgement that was not heard yet begins, or goes on. -/
theorem Met.coming (hunits : uploadUnits payload = before ++ after)
    (htasks : t.tasks = .awaitAck :: Transfer.remaining after) (hslot : signals.ack.Armed t.ticket)
    (htime : InTime t now [acknowledgement]) (hpatient : 1 ≤ config.ackTimeout) {taken : Bool} :
    Met payload t signals now attempts refused [acknowledgement] (before.flatMap Exchange.ofUnit)
      (t.step config now taken signals) := by
  rw [Transfer.step, htasks]
  show Met _ _ _ _ _ _ _ _ (Transfer.stepAck config now signals t (Transfer.remaining after))
  unfold Transfer.stepAck
  cases hmode : t.mode with
  | waiting deadline =>
    have hearly : now < deadline := htime (List.cons_ne_nil _ _) deadline (by
      rw [Transfer.wakeup?, hmode])
    have hawait : signals.ack.await? t.ticket (deadline ≤ now) = none := by
      rw [Rendezvous.await?, hslot.look_eq]
      simp [hearly]
    dsimp only
    rw [hawait]
    exact .waits
  | ready | resting | pausing =>
    exact .goesOn (.coming hunits htasks hslot) rfl (inTime_begins hpatient)

/-- The acknowledgement that is there is found, and the next unit follows. -/
theorem Met.here (hunits : uploadUnits payload = before ++ after)
    (htasks : t.tasks = .awaitAck :: Transfer.remaining after)
    (hslot : signals.ack.Answered t.ticket) (hpatient : 1 ≤ config.ackTimeout) {taken : Bool} :
    Met payload t signals now attempts refused [] (before.flatMap Exchange.ofUnit)
      (t.step config now taken signals) := by
  rw [Transfer.step, htasks]
  show Met _ _ _ _ _ _ _ _ (Transfer.stepAck config now signals t (Transfer.remaining after))
  unfold Transfer.stepAck
  cases t.mode with
  | waiting deadline =>
    obtain ⟨value, hlook⟩ := hslot.look_eq
    dsimp only
    rw [Rendezvous.await?, hlook]
    dsimp only
    rw [Transfer.proceed_of_ne_nil (Transfer.remaining_ne_nil after)]
    exact .goesOn (.ready hunits rfl hslot.drop) rfl (fun hsome => absurd rfl hsome)
  | ready | resting | pausing =>
    exact .goesOn (.here hunits htasks hslot) rfl (inTime_begins hpatient)

/-- **What a step of the upload does**, wherever host and watch stand. -/
theorem Standing.step (h : Standing payload t signals.ack inbox log)
    (hlast : RefusedLast refused attempts t.mode.refusals) (hbears : config.Bears refused)
    (htime : InTime t now inbox) (hpatient : 1 ≤ config.ackTimeout) :
    Met payload t signals now attempts refused inbox log
      (t.step config now (!refused attempts) signals) := by
  cases h with
  | ready hunits htasks hidle => exact .next hunits htasks hidle hlast hbears
  | sending hunits hends htasks hslot => exact .packet hunits hends htasks hslot hlast hbears
  | coming hunits htasks hslot => exact .coming hunits htasks hslot htime hpatient
  | here hunits htasks hslot => exact .here hunits htasks hslot hpatient

end Steps

end Simulation

end Timepiece
