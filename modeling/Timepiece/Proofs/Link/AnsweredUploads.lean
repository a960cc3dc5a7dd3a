import Mathlib
import Timepiece.Proofs.Link.Agreement

/-!
# Uploads to a watch that acknowledges them

An upload to a watch that answers succeeds, in whatever order its two sides make their moves, as
long as not too many writes in a row are refused: every unit is acknowledged once, in answer to its
last packet, and no acknowledgement is left over.

## Main definitions

* `Simulation.Queued`, `Simulation.Writing`, `Simulation.Completed` — the upload waits to be taken
  up, the worker is at it, and it has succeeded.
* `Simulation.Prepared` — the connection can be used, and nothing is going on.

## Main results

* `Simulation.Writing.work`, `Simulation.Writing.succ` — **what every act does to an upload**.
* `Simulation.exists_completed` — the upload succeeds at some time.
* `Simulation.uploaded` — **the upload succeeds**, with the exchanges of an upload and no others.
-/

namespace Timepiece

namespace Simulation

/-! ### Uploads in the world -/

/-- What holds while an upload goes on: the connection can be used, the watch answers, no write is
refused for good, and what was refused stayed without an answer. -/
structure Going (request : Nat) (refused : Nat → Bool) (s : Simulation) (log : List Exchange) :
    Prop where
  connected : s.session.isConnected = true
  answers : s.watch.silent = false
  patient : 1 ≤ s.session.config.ackTimeout
  bears : s.session.config.Bears refused
  unsettled : s.reply? request = none
  unanswered : ∀ exchange ∈ log, exchange.taken = false → exchange.reports = []

/-- The upload waits to be taken up. -/
structure Queued (payload : Bytes) (request : Nat) (refused : Nat → Bool) (s : Simulation)
    (log : List Exchange) : Prop extends Going request refused s log where
  worker : s.session.worker = .idle
  queue : ∃ rest, s.session.queue = .upload payload request :: rest
  slot : s.session.signals.ack.Idle
  inbox : s.inbox = []
  untouched : Exchange.accepted log = []

/-- The worker is at the upload. -/
structure Writing (payload : Bytes) (request : Nat) (refused : Nat → Bool) (s : Simulation)
    (log : List Exchange) : Prop extends Going request refused s log where
  transfer : ∃ t, s.session.worker = .transferring (.request request) t ∧
    Standing payload t s.session.signals.ack s.inbox (Exchange.accepted log) ∧
    RefusedLast refused s.watch.counts.attempts t.mode.refusals ∧ InTime t s.now s.inbox

/-- The upload has succeeded. -/
structure Completed (payload : Bytes) (request : Nat) (s : Simulation) (log : List Exchange) :
    Prop where
  /-- The request is answered with success. -/
  settled : s.reply? request = some (.ok ())
  /-- The units were taken one after the other, each acknowledged with its last packet, and then
  the write that closes the upload. -/
  accepted : Exchange.accepted log = Exchange.ofUpload payload
  /-- What was refused stayed without an answer. -/
  unanswered : ∀ exchange ∈ log, exchange.taken = false → exchange.reports = []
  /-- No acknowledgement is on its way. -/
  inbox : s.inbox = []
  /-- No acknowledgement is waited for, and none was left. -/
  slot : s.session.signals.ack.Idle

section Worlds

variable {payload : Bytes} {request : Nat} {refused : Nat → Bool} {s : Simulation}
  {log : List Exchange} {act : Act}

theorem Going.still (h : Going request refused s log) (hwork : act ≠ .work)
    (hheard : act = .hear → s.inbox = []) :
    Still act s (s.act refused act) ∧ s.exchanges refused act = [] ∧
      Going request refused (s.act refused act) (log ++ s.exchanges refused act) := by
  obtain ⟨hstill, hnone⟩ := still_act h.connected hwork hheard
  have hconfig := config_act refused s act
  refine ⟨hstill, hnone, hstill.connected, hstill.silent.trans h.answers, hconfig ▸ h.patient,
    hconfig ▸ h.bears, ?_, ?_⟩
  · rw [reply?, hstill.replies]
    exact h.unsettled
  · rw [hnone, List.append_nil]
    exact h.unanswered

/-- Until it is taken up the upload waits. -/
theorem Queued.still (h : Queued payload request refused s log) (hwork : act ≠ .work) :
    Queued payload request refused (s.act refused act) (log ++ s.exchanges refused act) := by
  obtain ⟨hstill, hnone, hgoing⟩ := h.toGoing.still hwork fun _ => h.inbox
  obtain ⟨rest, hqueue⟩ := h.queue
  have hgrows := hstill.queue
  rw [hqueue] at hgrows
  obtain ⟨more, hmore⟩ := hgrows
  refine ⟨hgoing, hstill.worker.trans h.worker, ⟨rest ++ more, hmore.symm⟩, ?_,
    hstill.inbox.trans h.inbox, ?_⟩
  · rw [hstill.signals]
    exact h.slot
  · rw [hnone, List.append_nil]
    exact h.untouched

/-- The worker goes on with the upload when it makes its next step. -/
theorem Writing.still (h : Writing payload request refused s log) (hwork : act ≠ .work)
    (hheard : act = .hear → s.inbox = [])
    (hpunctual : ∀ moment, act = .pass moment → s.inbox ≠ [] →
      ∀ due, s.session.worker.due? = some due → moment < due) :
    Writing payload request refused (s.act refused act) (log ++ s.exchanges refused act) := by
  obtain ⟨hstill, hnone, hgoing⟩ := h.toGoing.still hwork hheard
  obtain ⟨t, hworker, hstanding, hlast, htime⟩ := h.transfer
  refine ⟨hgoing, t, hstill.worker.trans hworker, ?_, ?_, ?_⟩
  · rw [hstill.signals, hstill.inbox, hnone, List.append_nil]
    exact hstanding
  · rw [hstill.attempts]
    exact hlast
  · rw [hstill.inbox, hstill.now]
    intro hsome due hdue
    have hearly := htime hsome due hdue
    rw [hworker] at hpunctual
    refine max_lt hearly ?_
    cases act with
    | pass moment => exact hpunctual moment rfl hsome due hdue
    | work | hear | ring => exact Nat.zero_lt_of_lt hearly

/-- The acknowledgement that is heard is the one that is waited for. -/
theorem Writing.hear (h : Writing payload request refused s log) (hsome : s.inbox ≠ []) :
    Writing payload request refused (s.act refused .hear) (log ++ s.exchanges refused .hear) := by
  obtain ⟨t, hworker, hstanding, hlast, -⟩ := h.transfer
  have hinbox : s.inbox = [acknowledgement] := by
    generalize s.inbox = inbox at hstanding hsome ⊢
    generalize Exchange.accepted log = accepted at hstanding
    cases hstanding with
    | ready | sending | here => exact absurd rfl hsome
    | coming => rfl
  obtain ⟨⟨called, turns, hact⟩, hnone⟩ := hear_acknowledgement refused hinbox
  rw [hnone, List.append_nil, hact]
  refine ⟨⟨h.connected, h.answers, h.patient, h.bears, h.unsettled, h.unanswered⟩, t, hworker, ?_,
    hlast, fun hnot => absurd rfl hnot⟩
  rw [hinbox] at hstanding
  generalize Exchange.accepted log = accepted at hstanding ⊢
  cases hstanding with
  | coming hunits htasks hslot => exact .here hunits htasks (hslot.fulfill ())

/-- After a step of the worker the upload goes on. -/
theorem Going.writes {session : Session} {watch : ScriptedWatch} {reports : List RadioEvent}
    {new : List Exchange} {t : Transfer} (h : Going request refused s log)
    (hwrought : s.Wrought refused session watch reports [] new)
    (hworker : session.worker = .transferring (.request request) t)
    (hnow : session.now = s.now) (hanswers : watch.silent = false)
    (hnew : ∀ exchange ∈ new, exchange.taken = false → exchange.reports = [])
    (hstanding : Standing payload t session.signals.ack (s.inbox ++ reports)
      (Exchange.accepted log ++ Exchange.accepted new))
    (hlast : RefusedLast refused watch.counts.attempts t.mode.refusals)
    (htime : InTime t s.now (s.inbox ++ reports)) :
    Writing payload request refused (s.act refused .work) (log ++ s.exchanges refused .work) := by
  have hconfig := config_act refused s .work
  have hconnected : (s.act refused .work).session.isConnected = true := by
    rw [session_act]
    exact (Session.sameConnection_step _ h.connected rfl).connected
  refine ⟨⟨hconnected, ?_, hconfig ▸ h.patient, hconfig ▸ h.bears, ?_, ?_⟩, t, ?_, ?_, ?_, ?_⟩
  · rw [hwrought.watch]
    exact hanswers
  · rw [reply?, hwrought.replies]
    exact h.unsettled
  · rw [hwrought.exchanges]
    exact List.forall_mem_append.2 ⟨h.unanswered, hnew⟩
  · rw [hwrought.session]
    exact hworker
  · rw [hwrought.session, hwrought.inbox, hwrought.exchanges, Exchange.accepted_append]
    exact hstanding
  · rw [hwrought.watch]
    exact hlast
  · rw [now, hwrought.session, hwrought.inbox, hnow]
    exact htime

/-- After a step of the worker that does nothing outside the upload goes on. -/
theorem Going.rests {session : Session} {t : Transfer} (h : Going request refused s log)
    (hwork : s.session.work ((s.scripted refused).watch.luck s.clock) = ([], session))
    (hworker : session.worker = .transferring (.request request) t) (hnow : session.now = s.now)
    (hstanding : Standing payload t session.signals.ack s.inbox (Exchange.accepted log))
    (hlast : RefusedLast refused s.watch.counts.attempts t.mode.refusals)
    (htime : InTime t s.now s.inbox) :
    Writing payload request refused (s.act refused .work) (log ++ s.exchanges refused .work) := by
  have hlog : Exchange.accepted log ++ Exchange.accepted [] = Exchange.accepted log :=
    List.append_nil _
  refine h.writes (wrought_silent hwork) hworker hnow h.answers ?_ ?_ hlast ?_
  · exact fun _ hmem => absurd hmem List.not_mem_nil
  · rw [List.append_nil, hlog]
    exact hstanding
  · rw [List.append_nil]
    exact htime

/-- The upload is taken up with the next step of the worker. -/
theorem Queued.work (h : Queued payload request refused s log) :
    Writing payload request refused (s.act refused .work) (log ++ s.exchanges refused .work) := by
  obtain ⟨rest, hqueue⟩ := h.queue
  have htakes : s.session.takes? .work = some (.upload payload request) := by
    rw [Session.takes?, h.worker]
    dsimp only
    rw [hqueue]
    rfl
  obtain ⟨rest', -, -, hstep⟩ :=
    Session.work_of_takes ((s.scripted refused).watch.luck s.clock) htakes
  have hconnected : (s.session.shifted rest').isConnected = true := h.connected
  have hwork : s.session.work ((s.scripted refused).watch.luck s.clock) =
      ([], { s.session.shifted rest' with
        worker := .transferring (.request request) (.ofUpload payload) }) := by
    refine hstep.trans ?_
    show (s.session.shifted rest').beginRequest request (.request request)
      (.ok (.ofUpload payload)) = _
    rw [Session.beginRequest, if_pos hconnected]
  have hunits : uploadUnits payload = [] ++ uploadUnits payload := rfl
  refine h.toGoing.rests hwork rfl rfl ?_ (refusedLast_zero _ _) fun hsome => absurd h.inbox hsome
  rw [h.inbox, h.untouched]
  exact .ready hunits (Transfer.uploadTasks_eq payload) h.slot

/-- With a step of the worker the upload goes on, or succeeds. -/
theorem Writing.work (h : Writing payload request refused s log) :
    Writing payload request refused (s.act refused .work) (log ++ s.exchanges refused .work) ∨
      Completed payload request (s.act refused .work) (log ++ s.exchanges refused .work) := by
  obtain ⟨t, hworker, hstanding, hlast, htime⟩ := h.transfer
  have haccepts := accepts_scripted refused s
  have hmet : Met payload t s.session.signals s.session.now s.watch.counts.attempts refused s.inbox
      (Exchange.accepted log) (t.step s.session.config s.session.now
        ((s.scripted refused).watch.luck s.clock).accepts s.session.signals) := by
    rw [haccepts]
    exact hstanding.step hlast h.bears htime h.patient
  generalize hstep : t.step s.session.config s.session.now
    ((s.scripted refused).watch.luck s.clock).accepts s.session.signals = step at hmet
  generalize haccepted : Exchange.accepted log = accepted at hmet
  subst haccepted
  cases hmet with
  | waits =>
    exact .inl (h.toGoing.rests (Session.work_of_blocked hworker hstep) hworker rfl hstanding hlast
      htime)
  | @goesOn next signals' hnext hrefusals hintime =>
    refine .inl (h.toGoing.rests (Session.work_of_running hworker hstep) rfl rfl hnext ?_ hintime)
    rw [hrefusals]
    exact refusedLast_zero _ _
  | @taken next data reports htaken hreported hnext hready =>
    have hwork := Session.work_of_running hworker hstep
    rw [haccepts, htaken, Bool.not_false] at hwork
    have hwrought := wrought_write none hwork (suffer_reported h.answers hreported)
    refine .inl (h.toGoing.writes hwrought rfl rfl h.answers (by simp) hnext ?_ ?_)
    · rw [hready]
      exact refusedLast_zero _ _
    · intro _ due hdue
      rw [Transfer.wakeup?, hready] at hdue
      cases hdue
  | @refused next data hrefused hnext hempty hagain =>
    have hwork := Session.work_of_running hworker hstep
    rw [haccepts, hrefused, Bool.not_true] at hwork
    have hwrought := wrought_write none hwork (ScriptedWatch.suffer_of_refused hrefused)
    have hlog : Exchange.accepted log ++ Exchange.accepted [⟨data, false, []⟩] =
        Exchange.accepted log := List.append_nil _
    refine .inl (h.toGoing.writes hwrought rfl rfl h.answers (by simp) ?_ hagain ?_)
    · rw [hlog, List.append_nil]
      exact hnext
    · rw [hempty]
      exact fun hsome => absurd rfl hsome
  | ends htaken hempty hidle hlog =>
    have hwork := Session.work_of_finished hworker hstep
    rw [haccepts, htaken, Bool.not_false] at hwork
    have hquiet : (s.scripted refused).watch.suffer (.write commitUpload true) =
        ([], (s.scripted refused).watch.noted commitUpload true) :=
      ScriptedWatch.suffer_of_not_endsUnit h.answers rfl rfl
    have hwrought := wrought_write (some (request, .ok ())) hwork hquiet
    right
    refine ⟨?_, ?_, ?_, ?_, ?_⟩
    · rw [reply?, hwrought.replies]
      simp
    · rw [hwrought.exchanges, Exchange.accepted_append]
      exact hlog
    · rw [hwrought.exchanges]
      exact List.forall_mem_append.2 ⟨h.unanswered, by simp⟩
    · rw [hwrought.inbox, hempty]
      rfl
    · rw [hwrought.session]
      exact hidle

/-- The upload is not settled yet. -/
def Underway (payload : Bytes) (request : Nat) (refused : Nat → Bool) (s : Simulation)
    (log : List Exchange) : Prop :=
  Queued payload request refused s log ∨ Writing payload request refused s log

theorem Underway.unsettled (h : Underway payload request refused s log) :
    s.reply? request = none :=
  h.elim (fun hqueued => hqueued.unsettled) fun hwriting => hwriting.unsettled

theorem Completed.not_underway (h : Completed payload request s log) :
    ¬ Underway payload request refused s log := by
  intro hunderway
  have hnone := hunderway.unsettled.symm.trans h.settled
  exact nomatch hnone

end Worlds

/-! ### Runs -/

section Runs

variable {payload : Bytes} {request : Nat} {refused : Nat → Bool} {s : Simulation}
  {acts : Nat → Act} {count : Nat}

/-- The upload goes on with every act, or succeeds. -/
theorem Writing.succ (hpunctual : s.Punctual refused acts)
    (h : Writing payload request refused (s.world refused acts count)
      (s.exchanged refused acts count)) :
    Writing payload request refused (s.world refused acts (count + 1))
        (s.exchanged refused acts (count + 1)) ∨
      Completed payload request (s.world refused acts (count + 1))
        (s.exchanged refused acts (count + 1)) := by
  have hpass := hpunctual count
  rw [world, exchanged]
  generalize acts count = act at hpass ⊢
  by_cases hwork : act = .work
  · subst hwork
    exact h.work
  · left
    by_cases hheard : act = .hear → (s.world refused acts count).inbox = []
    · exact h.still hwork hheard hpass
    · obtain ⟨rfl, hsome⟩ := Classical.not_imp.1 hheard
      exact h.hear hsome

theorem Underway.succ (hpunctual : s.Punctual refused acts)
    (h : Underway payload request refused (s.world refused acts count)
      (s.exchanged refused acts count)) :
    Underway payload request refused (s.world refused acts (count + 1))
        (s.exchanged refused acts (count + 1)) ∨
      Completed payload request (s.world refused acts (count + 1))
        (s.exchanged refused acts (count + 1)) := by
  rcases h with hqueued | hwriting
  · left
    rw [world, exchanged]
    by_cases hwork : acts count = .work
    · rw [hwork]
      exact .inr hqueued.work
    · exact .inl (hqueued.still hwork)
  · exact (hwriting.succ hpunctual).imp_left .inr

/-- The worker takes the upload up with its first step, and is done with it at some time. -/
theorem exists_not_underway (hpunctual : s.Punctual refused acts) (hfair : s.Fair refused acts) :
    ∃ count, ¬ Underway payload request refused (s.world refused acts count)
      (s.exchanged refused acts count) := by
  by_contra hnone
  have hall : ∀ count, Underway payload request refused (s.world refused acts count)
      (s.exchanged refused acts count) := by
    intro count
    by_contra hnot
    exact hnone ⟨count, hnot⟩
  obtain ⟨first, -, hwork, -⟩ := hfair 0 0
  -- from the first step on the worker is at the upload
  have hwriting : ∀ more, Writing payload request refused (s.world refused acts (first + 1 + more))
      (s.exchanged refused acts (first + 1 + more)) := by
    intro more
    induction more with
    | zero =>
      rcases hall first with hqueued | hwriting
      · have hnext := hqueued.work
        rw [← hwork] at hnext
        exact hnext
      · exact (hwriting.succ hpunctual).resolve_right fun hdone =>
          hdone.not_underway (hall (first + 1))
    | succ more ih =>
      exact (ih.succ hpunctual).resolve_right fun hdone =>
        hdone.not_underway (hall (first + 1 + more + 1))
  obtain ⟨later, hlater, -, hidle⟩ := Session.drains hfair.moves (first + 1)
  obtain ⟨more, rfl⟩ := Nat.exists_eq_add_of_le hlater
  obtain ⟨t, hbusy, -⟩ := (hwriting more).transfer
  rw [after_moves, hbusy] at hidle
  exact nomatch hidle

/-- There is a first moment at which the upload has succeeded. -/
theorem exists_completed (hpunctual : s.Punctual refused acts) (hfair : s.Fair refused acts)
    (h : Underway payload request refused s []) :
    ∃ count, (∀ earlier < count, (s.world refused acts earlier).reply? request = none) ∧
      Completed payload request (s.world refused acts count) (s.exchanged refused acts count) := by
  classical
  have hsome : ∃ count, ¬ Underway payload request refused (s.world refused acts count)
      (s.exchanged refused acts count) := exists_not_underway hpunctual hfair
  have hbefore : ∀ earlier < Nat.find hsome, Underway payload request refused
      (s.world refused acts earlier) (s.exchanged refused acts earlier) := by
    intro earlier hearlier
    exact not_not.1 (Nat.find_min hsome hearlier)
  refine ⟨Nat.find hsome, fun earlier hearlier => (hbefore earlier hearlier).unsettled, ?_⟩
  have hnot := Nat.find_spec hsome
  generalize Nat.find hsome = count at hbefore hnot ⊢
  cases count with
  | zero => exact absurd h hnot
  | succ count =>
    exact ((hbefore count (Nat.lt_succ_self count)).succ hpunctual).resolve_left hnot

end Runs

/-! ### Uploads -/

/-- The connection can be used, nothing is going on, and the watch answers. -/
structure Prepared (s : Simulation) : Prop where
  /-- The session came here from its start. -/
  reached : ∃ config services moves, s.session = (Session.start config services).after moves
  connected : s.session.isConnected = true
  worker : s.session.worker = .idle
  queue : s.session.queue = []
  entering : s.session.entering = []
  senders : s.session.senders = []
  inbox : s.inbox = []
  answers : s.watch.silent = false
  /-- The number of the next request is not taken. -/
  unsettled : s.reply? s.nextRequest = none

/-- An upload that is asked for waits to be taken up. -/
theorem Prepared.queued {s : Simulation} {refused : Nat → Bool} (h : s.Prepared) (payload : Bytes)
    (hpatient : 1 ≤ s.session.config.ackTimeout) (hbears : s.session.config.Bears refused) :
    Queued payload s.nextRequest refused (s.submit (.upload payload)).2 [] := by
  obtain ⟨config, services, moves, hreached⟩ := h.reached
  have hidle : s.session.signals.ack.Idle := by
    refine (Session.tidy_of_idle h.worker).1 ?_
    rw [hreached]
    exact Session.tidy_after config services moves
  have hroom : s.session.hasRoom = true := by
    simp [Session.hasRoom, h.senders, h.queue, h.entering, LinkConfig.capacity]
  have hsubmit : s.session.submit (.upload payload s.nextRequest) =
      { s.session with queue := [.upload payload s.nextRequest] } := by
    rw [Session.submit, if_pos hroom, h.queue]
    rfl
  obtain ⟨called, turns, hnext⟩ := s.submit_eq (.upload payload)
  rw [hsubmit] at hnext
  rw [hnext]
  exact ⟨⟨h.connected, h.answers, hpatient, hbears, h.unsettled, by simp⟩, h.worker, ⟨[], rfl⟩,
    hidle, h.inbox, rfl⟩

/-- **An upload to a watch that answers succeeds**, if no write is refused for good.  The watch
takes the writes of the upload in their order, each once; it acknowledges every unit once, in answer
to its last packet; and no acknowledgement is left over. -/
theorem uploaded {s : Simulation} {refused : Nat → Bool} {acts : Nat → Act} (payload : Bytes)
    (h : s.Prepared) (hpatient : 1 ≤ s.session.config.ackTimeout)
    (hbears : s.session.config.Bears refused)
    (hpunctual : (s.submit (.upload payload)).2.Punctual refused acts)
    (hfair : (s.submit (.upload payload)).2.Fair refused acts) :
    ∃ count,
      (∀ earlier < count,
        ((s.submit (.upload payload)).2.world refused acts earlier).reply? s.nextRequest = none) ∧
      Completed payload s.nextRequest ((s.submit (.upload payload)).2.world refused acts count)
        ((s.submit (.upload payload)).2.exchanged refused acts count) ∧
      ((s.submit (.upload payload)).2.world refused acts count).watch.writes =
        (uploadWrites payload).reverse ++ s.watch.writes := by
  obtain ⟨count, hbefore, hcompleted⟩ :=
    exists_completed hpunctual hfair (.inl (h.queued payload hpatient hbears))
  refine ⟨count, hbefore, hcompleted, ?_⟩
  rw [writes_world, hcompleted.accepted, Exchange.data_ofUpload]
  obtain ⟨called, turns, hnext⟩ := s.submit_eq (.upload payload)
  rw [hnext]

/-- A watch that answers, and a session that is connected to it. -/
def connectedOnce : Simulation :=
  { start {} {} false 0 with session := (Session.start {} .none).after (Session.asking.take 5) }

/-- Every other attempt to write is refused. -/
def everyOther (attempt : Nat) : Bool := attempt % 2 = 0

/-- The worker makes a step in every three milliseconds, and the session hears what there is while
the upload goes on. -/
def inTurns (count : Nat) : Act :=
  if count % 3 = 0 then .work
  else if count % 3 = 1 ∧ count < 39 then .hear
  else .pass (1000 + count)

theorem prepared_connectedOnce : connectedOnce.Prepared where
  reached := ⟨{}, .none, Session.asking.take 5, rfl⟩
  connected := by decide +kernel
  worker := rfl
  queue := rfl
  entering := rfl
  senders := rfl
  inbox := rfl
  answers := rfl
  unsettled := rfl

theorem bears_everyOther : connectedOnce.session.config.Bears everyOther := by
  intro start
  have hconfig : connectedOnce.session.config = {} := Session.config_after _ _
  rw [hconfig]
  by_cases heven : start % 2 = 0
  · exact ⟨1, by decide, by simp [everyOther]; omega⟩
  · exact ⟨0, by decide, by simp [everyOther]; omega⟩

/-- A worker that has nothing to do stays so while time passes. -/
theorem idle_act {refused : Nat → Bool} {s : Simulation} {act : Act}
    (hact : act = .work ∨ ∃ moment, act = .pass moment)
    (hworker : s.session.worker = .idle) (hqueue : s.session.queue = []) :
    (s.act refused act).session.worker = .idle ∧ (s.act refused act).session.queue = [] := by
  rw [session_act]
  rcases hact with rfl | ⟨moment, rfl⟩
  · show (s.session.work _).2.worker = .idle ∧ (s.session.work _).2.queue = []
    rw [Session.work_of_empty hworker hqueue]
    exact ⟨hworker, hqueue⟩
  · exact ⟨hworker, hqueue⟩

/-- A worker that has nothing left to do is idle. -/
theorem idle_of_load {config : LinkConfig} {worker : Worker} (h : worker.load config = 0) :
    worker = .idle := by
  cases worker with
  | idle => rfl
  | pushing | transferring =>
    rw [Worker.load] at h
    omega

/-- When the upload has succeeded the worker is idle for ever. -/
theorem idle_inTurns (more : Nat) :
    let last := (connectedOnce.submit (.upload [1, 2, 3])).2.world everyOther inTurns (39 + more)
    last.session.worker = .idle ∧ last.session.queue = [] := by
  induction more with
  | zero =>
    refine ⟨@idle_of_load {} _ ?_, List.isEmpty_iff.1 ?_⟩
    · decide +kernel
    · decide +kernel
  | succ more ih =>
    refine idle_act ?_ ih.1 ih.2
    show inTurns (39 + more) = .work ∨ ∃ moment, inTurns (39 + more) = .pass moment
    rw [inTurns]
    split
    · exact .inl rfl
    · rw [if_neg (by omega)]
      exact .inr ⟨_, rfl⟩

theorem punctual_inTurns :
    (connectedOnce.submit (.upload [1, 2, 3])).2.Punctual everyOther inTurns := by
  intro count moment hpass hsome due hdue
  by_cases hearly : count < 39
  · -- what is reported is heard before time passes
    have hheard : ∀ count < 39, count % 3 = 2 →
        ((connectedOnce.submit (.upload [1, 2, 3])).2.world everyOther inTurns count).inbox =
          [] := by decide +kernel
    have hturn : count % 3 = 2 := by
      unfold inTurns at hpass
      split at hpass
      · exact nomatch hpass
      · split at hpass
        · exact nomatch hpass
        · omega
    exact absurd (hheard count hearly hturn) hsome
  · obtain ⟨more, rfl⟩ := Nat.exists_eq_add_of_le (Nat.not_lt.1 hearly)
    rw [(idle_inTurns more).1] at hdue
    exact nomatch hdue

theorem fair_inTurns : (connectedOnce.submit (.upload [1, 2, 3])).2.Fair everyOther inTurns := by
  intro count moment
  obtain ⟨third, hcount, hmoment⟩ : ∃ third, count ≤ third ∧ moment ≤ third :=
    ⟨max count moment, le_max_left _ _, le_max_right _ _⟩
  have hwork : inTurns (3 * third + 2 + 1) = .work := if_pos (by omega)
  have hpass : inTurns (3 * third + 2) = .pass (1000 + (3 * third + 2)) := by
    rw [inTurns, if_neg (by omega), if_neg (by omega)]
  refine ⟨3 * third + 2 + 1, by omega, hwork, ?_⟩
  rw [now, world, session_act, hpass]
  show moment ≤ max _ (1000 + (3 * third + 2))
  omega

/-- Three bytes are uploaded while every other attempt to write is refused. -/
theorem uploaded_everyOther :
    let begun := (connectedOnce.submit (.upload [1, 2, 3])).2
    (connectedOnce.Prepared ∧ connectedOnce.session.config.Bears everyOther ∧
        begun.Punctual everyOther inTurns ∧ begun.Fair everyOther inTurns) ∧
      ∃ count, Completed [1, 2, 3] 0 (begun.world everyOther inTurns count)
          (begun.exchanged everyOther inTurns count) ∧
        (begun.world everyOther inTurns count).watch.writes =
          [[0x43, 0x22], [0x43, 0x21, 1, 2, 3], [0x43, 0x20]] := by
  have hpatient : 1 ≤ connectedOnce.session.config.ackTimeout := by decide +kernel
  obtain ⟨count, -, hcompleted, hwrites⟩ := uploaded [1, 2, 3] prepared_connectedOnce hpatient
    bears_everyOther punctual_inTurns fair_inTurns
  have hthree : (uploadWrites [1, 2, 3]).reverse ++ connectedOnce.watch.writes =
      [[0x43, 0x22], [0x43, 0x21, 1, 2, 3], [0x43, 0x20]] := by decide +kernel
  exact ⟨⟨prepared_connectedOnce, bears_everyOther, punctual_inTurns, fair_inTurns⟩, count,
    hcompleted, hwrites.trans hthree⟩

end Simulation

end Timepiece
