import Mathlib
import Timepiece.Link.Simulation.Sessions
import Timepiece.Proofs.Link.Answers
import Timepiece.Proofs.Link.Deliveries
import Timepiece.Proofs.Link.Progress

/-!
# What passes between a session and its watch

A session and its watch go on by turns, in any order: the worker makes a step, the session hears
what the radio reported first, an alarm goes off, or time passes.  Which writes are refused is given
beforehand, by the number of the attempt.  What passes between the two is a row of attempts to
write, with what the radio reported of each.

## Main definitions

* `Exchange` — an attempt to write, and what was reported of it.
* `Simulation.Act`, `Simulation.act`, `Simulation.world` — what may happen next, what comes of it,
  and the world after some acts.
* `Simulation.exchanged` — what passed between the session and its watch.
* `Simulation.Punctual`, `Simulation.Fair` — no report comes too late for a wait, and the worker
  goes on.
* `Simulation.Still`, `Simulation.Wrought` — what an act leaves as it is, and what comes of a step
  of the worker.

## Main results

* `Simulation.after_moves` — the session goes through these moves.
* `Simulation.writes_world` — **what the watch has is what it took**.
* `Simulation.still_act`, `Simulation.hear_acknowledgement`, `Simulation.wrought_write` — what comes
  of the acts.
-/

namespace Timepiece

/-! ### Exchanges -/

/-- An attempt to write, whether it was taken, and what the radio reported of it. -/
structure Exchange where
  data : Bytes
  taken : Bool
  reports : List RadioEvent
  deriving DecidableEq, Repr

/-- The report that acknowledges a unit of an upload. -/
def acknowledgement : RadioEvent := .received Report.acknowledged.encode

namespace Exchange

/-- What was taken. -/
def accepted (log : List Exchange) : List Exchange := log.filter (·.taken)

@[simp] theorem accepted_append (log more : List Exchange) :
    accepted (log ++ more) = accepted log ++ accepted more := List.filter_append _ _

end Exchange

namespace ScriptedWatch

/-- The exchange that an effect of a session is, if it is one. -/
def exchange? (w : ScriptedWatch) : Effect → Option Exchange
  | .write data taken => some ⟨data, taken, (w.suffer (.write data taken)).1⟩
  | _ => none

/-- The exchanges of some effects, one after the other. -/
def exchanges (w : ScriptedWatch) : List Effect → List Exchange
  | [] => []
  | effect :: rest => (w.exchange? effect).toList ++ (w.suffer effect).2.exchanges rest

variable {w : ScriptedWatch} {data : Bytes}

/-- The watch after an attempt to write. -/
def noted (w : ScriptedWatch) (data : Bytes) (taken : Bool) : ScriptedWatch :=
  { w with
    counts := { w.counts with attempts := w.counts.attempts + 1 }
    writes := if taken then data :: w.writes else w.writes }

/-- The last write of a unit is acknowledged. -/
theorem suffer_of_endsUnit (hsilent : w.silent = false) (hends : endsUnit data = true) :
    w.suffer (.write data true) = ([acknowledgement], w.noted data true) := by
  simp [suffer, count, take, answer?, hsilent, hends, noted, acknowledgement]

/-- Any other write but the request for a notification stays without an answer. -/
theorem suffer_of_not_endsUnit (hsilent : w.silent = false) (hends : endsUnit data = false)
    (hasks : asksPermission data = false) :
    w.suffer (.write data true) = ([], w.noted data true) := by
  simp [suffer, count, take, answer?, hsilent, hends, hasks, noted]

theorem suffer_of_refused (hrefuses : w.refusesAll = true) :
    w.suffer (.write data false) = ([], w.noted data false) := by
  simp [suffer, count, refuse, hrefuses, noted]

theorem writes_answer? (w : ScriptedWatch) (data : Bytes) :
    (w.answer? data).2.writes = w.writes := by
  unfold answer?
  split
  · rfl
  · split
    · rfl
    · split <;> rfl

/-- The watch keeps what it takes. -/
theorem writes_suffer (w : ScriptedWatch) (effect : Effect) : (w.suffer effect).2.writes =
    ((Exchange.accepted (w.exchange? effect).toList).map Exchange.data).reverse ++ w.writes := by
  cases effect with
  | write data taken =>
    cases taken with
    | true => exact writes_answer? _ data
    | false =>
      show (refuse _).writes = w.writes
      unfold refuse
      split <;> rfl
  | openLink | reconnect | discover | armNotifications =>
    unfold suffer
    dsimp only
    split <;> rfl
  | _ => rfl

end ScriptedWatch

/-! ### Alarms and pauses -/

namespace Session

variable {s : Session} {move : Move}

/-- An alarm that goes off while the connection can be used does nothing outside: the clock of the
watch is to be set, or nothing is left to do. -/
theorem ring_of_connected (luck : Luck) (h : s.isConnected = true) : (s.ring luck).1 = [] := by
  have hstate : s.lifecycle.state = .connected := of_decide_eq_true h
  unfold ring
  split
  · next alarm alarms _ =>
    cases alarm with
    | settled epoch =>
      have hnot : ¬ (epoch = s.lifecycle.epoch ∧ s.lifecycle.state = .discovering) := by
        rw [hstate]
        exact fun hboth => nomatch hboth.2
      simp [hear, tell, Alarm.input, Lifecycle.step, Lifecycle.settle, hnot, executeAll]
    | clockSyncDue epoch =>
      simp only [hear, tell, Alarm.input, Lifecycle.step]
      split <;> rfl
  · rfl

/-- After an alarm, or when time has passed, the session goes on with what it was doing. -/
theorem rests_step {moment : Nat} (luck : Luck) (hconnected : s.isConnected = true)
    (hmove : move = .alarm ∧ moment = 0 ∨ move = .wait moment) :
    ∃ next, s.step luck move = ([], next) ∧ next.worker = s.worker ∧ next.signals = s.signals ∧
      s.queue <+: next.queue ∧ next.isConnected = true ∧ next.now = max s.now moment := by
  rcases hmove with ⟨rfl, rfl⟩ | rfl
  · obtain ⟨lifecycle, alarms, cache, queue, hring⟩ := s.ring_eq luck
    have hqueue := (beside_ring luck s).queue
    have hcalm : Move.disturbs .alarm = false := rfl
    have hkept := (sameConnection_step luck hconnected hcalm).connected
    have hstep : s.step luck .alarm = ([], (s.ring luck).2) :=
      Prod.ext (ring_of_connected luck hconnected) rfl
    rw [hstep] at hkept
    refine ⟨_, hstep, ?_, ?_, hqueue, hkept, ?_⟩
    · rw [hring]
    · rw [hring]
    · rw [hring, Nat.max_zero]
  · exact ⟨_, rfl, rfl, rfl, List.prefix_refl _, hconnected, rfl⟩

section Transfers

variable {luck : Luck} {purpose : Purpose} {transfer next : Transfer} {signals : Signals}
  {attempt : Option Bytes}

theorem work_of_running (hworker : s.worker = .transferring purpose transfer)
    (hstep : transfer.step s.config s.now luck.accepts s.signals =
      ⟨.running next, signals, attempt⟩) :
    s.work luck = (attempt.toList.map fun data => .write data luck.accepts,
      { s with signals, worker := .transferring purpose next }) := by
  rw [work_of_transfer hworker, advance, hstep]

theorem work_of_blocked (hworker : s.worker = .transferring purpose transfer)
    (hstep : transfer.step s.config s.now luck.accepts s.signals = ⟨.blocked, s.signals, none⟩) :
    s.work luck = ([], s) := by
  rw [work_of_transfer hworker, advance, hstep]
  rfl

theorem work_of_finished {request : Nat} {result : LinkResult}
    (hworker : s.worker = .transferring (.request request) transfer)
    (hstep : transfer.step s.config s.now luck.accepts s.signals =
      ⟨.finished result, signals, attempt⟩) :
    s.work luck = ((attempt.toList.map fun data => .write data luck.accepts) ++
      answer (some request) result, { s with signals, worker := .idle }) := by
  rw [work_of_transfer hworker, advance, hstep]
  rfl

end Transfers

end Session

/-! ### Worlds -/

namespace Simulation

/-- What may happen next while nobody outside does anything. -/
inductive Act where
  /-- The worker makes a step. -/
  | work
  /-- The session hears what the radio reported first. -/
  | hear
  /-- The first alarm that is due goes off. -/
  | ring
  /-- Time passes. -/
  | pass (moment : Nat)
  deriving DecidableEq, Repr

/-- The world in which the next attempt to write is refused or not, as its number says. -/
def scripted (refused : Nat → Bool) (s : Simulation) : Simulation :=
  { s with watch :=
    { s.watch with refusesAll := refused s.watch.counts.attempts, refusals := 0 } }

/-- The move of the session that an act is.  If there is nothing to hear, none is made. -/
def prompt (s : Simulation) : Act → Simulation × Move
  | .work => (s, .work)
  | .hear =>
    match s.inbox with
    | [] => (s, .wait 0)
    | event :: inbox => ({ s with inbox }, .radio event)
  | .ring => (s, .alarm)
  | .pass moment => (s, .wait moment)

/-- What comes of an act. -/
def act (refused : Nat → Bool) (s : Simulation) (act : Act) : Simulation :=
  let (s, move) := (s.scripted refused).prompt act
  s.move move

/-- What passes between the session and its watch with an act. -/
def exchanges (refused : Nat → Bool) (s : Simulation) (act : Act) : List Exchange :=
  let (s, move) := (s.scripted refused).prompt act
  s.watch.exchanges (s.session.step (s.watch.luck s.clock) move).1

/-- The world after the first of an endless sequence of acts. -/
def world (refused : Nat → Bool) (s : Simulation) (acts : Nat → Act) : Nat → Simulation
  | 0 => s
  | count + 1 => (world refused s acts count).act refused (acts count)

/-- What passed between the session and its watch with the first of an endless sequence of acts. -/
def exchanged (refused : Nat → Bool) (s : Simulation) (acts : Nat → Act) : Nat → List Exchange
  | 0 => []
  | count + 1 =>
    exchanged refused s acts count ++ (world refused s acts count).exchanges refused (acts count)

/-- While something was reported that was not heard yet, time does not pass to the end of a
wait. -/
def Punctual (refused : Nat → Bool) (s : Simulation) (acts : Nat → Act) : Prop :=
  ∀ count moment, acts count = .pass moment → (s.world refused acts count).inbox ≠ [] →
    ∀ due, (s.world refused acts count).session.worker.due? = some due → moment < due

/-- The worker is given steps again and again while time passes. -/
def Fair (refused : Nat → Bool) (s : Simulation) (acts : Nat → Act) : Prop :=
  ∀ count moment, ∃ later, count ≤ later ∧ acts later = .work ∧
    moment ≤ (s.world refused acts later).now

variable {refused : Nat → Bool} {s : Simulation} {acts : Nat → Act} {effects : List Effect}
  {session : Session} {move : Move}

/-! ### Moves -/

/-- Who waits for his turn does not matter here. -/
theorem rouse_eq (s : Simulation) : ∃ called turns, s.rouse = { s with called, turns } := by
  unfold rouse queueUp
  split <;> split <;> exact ⟨_, _, rfl⟩

theorem watch_apply (s : Simulation) (effect : Effect) :
    (s.apply effect).watch = (s.watch.suffer effect).2 := by
  cases effect <;> rfl

theorem session_apply (s : Simulation) (effect : Effect) :
    (s.apply effect).session = s.session := by
  cases effect <;> rfl

theorem session_foldl_apply (s : Simulation) (effects : List Effect) :
    (effects.foldl apply s).session = s.session := by
  induction effects generalizing s with
  | nil => rfl
  | cons effect rest ih => exact (ih _).trans (s.session_apply effect)

/-- The watch keeps what it takes. -/
theorem writes_foldl_apply (s : Simulation) (effects : List Effect) :
    (effects.foldl apply s).watch.writes =
      ((Exchange.accepted (s.watch.exchanges effects)).map Exchange.data).reverse ++
        s.watch.writes := by
  induction effects generalizing s with
  | nil => rfl
  | cons effect rest ih =>
    rw [List.foldl_cons, ih, watch_apply, ScriptedWatch.writes_suffer, ScriptedWatch.exchanges,
      Exchange.accepted_append, List.map_append, List.reverse_append, List.append_assoc]

/-- With a move the session makes that move, and the effects go to the world outside. -/
theorem move_eq (s : Simulation) (move : Move)
    (h : s.session.step (s.watch.luck s.clock) move = (effects, session)) :
    ∃ called turns, s.move move =
      { effects.foldl apply { s with session } with called, turns } := by
  unfold Simulation.move
  rw [h]
  exact rouse_eq _

theorem session_move (s : Simulation) (move : Move) :
    (s.move move).session = (s.session.step (s.watch.luck s.clock) move).2 := by
  obtain ⟨called, turns, hmove⟩ := s.move_eq move rfl
  rw [hmove]
  exact session_foldl_apply _ _

/-- Work that is submitted comes to the session under the number of a new request. -/
theorem submit_eq (s : Simulation) (job : Nat → Job) : ∃ called turns,
    (s.submit job).2 =
      { s with
        session := s.session.submit (job s.nextRequest)
        nextRequest := s.nextRequest + 1, called, turns } :=
  move_eq { s with nextRequest := s.nextRequest + 1 } (.submit (job s.nextRequest)) rfl

/-! ### Acts -/

theorem session_prompt (s : Simulation) (act : Act) : (s.prompt act).1.session = s.session := by
  cases act with
  | hear =>
    unfold prompt
    dsimp only
    split <;> rfl
  | work | ring | pass => rfl

/-- The move of the session that an act is, with what the session meets. -/
def moved (refused : Nat → Bool) (s : Simulation) (act : Act) : Luck × Move :=
  let (s, move) := (s.scripted refused).prompt act
  (s.watch.luck s.clock, move)

theorem session_act (refused : Nat → Bool) (s : Simulation) (act : Act) :
    (s.act refused act).session =
      (s.session.step (s.moved refused act).1 (s.moved refused act).2).2 := by
  have hsession : ((s.scripted refused).prompt act).1.session = s.session :=
    session_prompt (s.scripted refused) act
  rw [← hsession]
  exact session_move _ _

theorem config_act (refused : Nat → Bool) (s : Simulation) (act : Act) :
    (s.act refused act).session.config = s.session.config := by
  rw [session_act]
  exact Session.config_step _ _ _

/-- The session goes through these moves. -/
theorem after_moves (refused : Nat → Bool) (s : Simulation) (acts : Nat → Act) (count : Nat) :
    s.session.after
        (Session.first (fun now => (s.world refused acts now).moved refused (acts now)) count) =
      (s.world refused acts count).session := by
  induction count with
  | zero => rfl
  | succ count ih =>
    rw [Session.after_first_succ, ih]
    exact (session_act refused _ _).symm

theorem Fair.moves (h : s.Fair refused acts) :
    s.session.Fair fun now => (s.world refused acts now).moved refused (acts now) := by
  intro count moment
  obtain ⟨later, hlater, hwork, hmoment⟩ := h count moment
  refine ⟨later, hlater, ?_, ?_⟩
  · dsimp only
    rw [hwork]
    rfl
  · rw [after_moves]
    exact hmoment

/-- The watch keeps what it took. -/
theorem writes_act (refused : Nat → Bool) (s : Simulation) (act : Act) :
    (s.act refused act).watch.writes =
      ((Exchange.accepted (s.exchanges refused act)).map Exchange.data).reverse ++
        s.watch.writes := by
  unfold Simulation.act Simulation.exchanges
  have hwrites : ((s.scripted refused).prompt act).1.watch.writes = s.watch.writes := by
    cases act with
    | hear =>
      unfold prompt
      dsimp only
      split <;> rfl
    | work | ring | pass => rfl
  generalize (s.scripted refused).prompt act = prompted at hwrites
  obtain ⟨s', move⟩ := prompted
  obtain ⟨called, turns, hmove⟩ := s'.move_eq move rfl
  dsimp only at hwrites ⊢
  rw [hmove, ← hwrites]
  exact writes_foldl_apply _ _

theorem writes_world (refused : Nat → Bool) (s : Simulation) (acts : Nat → Act) (count : Nat) :
    (s.world refused acts count).watch.writes =
      ((Exchange.accepted (s.exchanged refused acts count)).map Exchange.data).reverse ++
        s.watch.writes := by
  induction count with
  | zero => rfl
  | succ count ih =>
    rw [world, writes_act, ih, exchanged, Exchange.accepted_append, List.map_append,
      List.reverse_append, List.append_assoc]

/-! ### What alarms and time leave as it is -/

/-- The moment up to which time passes with an act. -/
def Act.moment : Act → Nat
  | pass moment => moment
  | _ => 0

/-- The session goes on with what it was doing, and the watch was not reached. -/
structure Still (act : Act) (s s' : Simulation) : Prop where
  worker : s'.session.worker = s.session.worker
  signals : s'.session.signals = s.session.signals
  queue : s.session.queue <+: s'.session.queue
  connected : s'.session.isConnected = true
  now : s'.now = max s.now act.moment
  inbox : s'.inbox = s.inbox
  silent : s'.watch.silent = s.watch.silent
  attempts : s'.watch.counts.attempts = s.watch.counts.attempts
  replies : s'.replies = s.replies

/-- An act with which the worker makes no step and nothing is heard leaves the work in hand as it
is. -/
theorem still_act {act : Act} (hconnected : s.session.isConnected = true) (hwork : act ≠ .work)
    (hheard : act = .hear → s.inbox = []) :
    Still act s (s.act refused act) ∧ s.exchanges refused act = [] := by
  -- an alarm goes off, or the session waits
  obtain ⟨move, hprompt, hmove⟩ : ∃ move,
      (s.scripted refused).prompt act = (s.scripted refused, move) ∧
        (move = .alarm ∧ act.moment = 0 ∨ move = .wait act.moment) := by
    cases act with
    | work => exact absurd rfl hwork
    | hear =>
      have hempty : (s.scripted refused).inbox = [] := hheard rfl
      exact ⟨.wait 0, by rw [prompt, hempty], .inr rfl⟩
    | ring => exact ⟨.alarm, rfl, .inl ⟨rfl, rfl⟩⟩
    | pass moment => exact ⟨.wait moment, rfl, .inr rfl⟩
  obtain ⟨next, hstep, hworker, hsignals, hqueue, hkept, hnow⟩ :=
    Session.rests_step ((s.scripted refused).watch.luck (s.scripted refused).clock) hconnected hmove
  obtain ⟨called, turns, hact⟩ := (s.scripted refused).move_eq move hstep
  unfold Simulation.act Simulation.exchanges
  rw [hprompt]
  dsimp only
  rw [hact]
  refine ⟨⟨hworker, hsignals, hqueue, hkept, hnow, rfl, rfl, rfl, rfl⟩, ?_⟩
  show (s.scripted refused).watch.exchanges (s.session.step _ move).1 = []
  rw [hstep]
  rfl

/-! ### What is heard and done -/

/-- An acknowledgement that is heard is handed to the slot. -/
theorem hear_acknowledgement (refused : Nat → Bool) (hinbox : s.inbox = [acknowledgement]) :
    (∃ called turns, s.act refused .hear =
      { s.scripted refused with
        session := { s.session with signals :=
          { s.session.signals with ack := (s.session.signals.ack.fulfill ()).2 } }
        inbox := [], called, turns }) ∧
      s.exchanges refused .hear = [] := by
  have hprompt : (s.scripted refused).prompt .hear =
      ({ s.scripted refused with inbox := [] }, .radio acknowledgement) := by
    have hfirst : (s.scripted refused).inbox = [acknowledgement] := hinbox
    rw [prompt, hfirst]
  unfold Simulation.act Simulation.exchanges
  rw [hprompt]
  exact ⟨move_eq { s.scripted refused with inbox := [] } (.radio acknowledgement) rfl, rfl⟩

/-- What comes of a step of the worker: what becomes of the session and of the watch, what is added
to the inbox and to the results of requests, and what passed between the two. -/
structure Wrought (refused : Nat → Bool) (s : Simulation) (session : Session)
    (watch : ScriptedWatch) (reports : List RadioEvent) (replies : List (Nat × LinkResult))
    (new : List Exchange) : Prop where
  session : (s.act refused .work).session = session
  watch : (s.act refused .work).watch = watch
  inbox : (s.act refused .work).inbox = s.inbox ++ reports
  replies : (s.act refused .work).replies = replies ++ s.replies
  exchanges : s.exchanges refused .work = new

/-- A step with which the worker does nothing outside. -/
theorem wrought_silent
    (h : s.session.work ((s.scripted refused).watch.luck s.clock) = ([], session)) :
    s.Wrought refused session (s.scripted refused).watch [] [] [] := by
  obtain ⟨called, turns, hact⟩ := (s.scripted refused).move_eq .work h
  change s.act refused .work = _ at hact
  refine ⟨?_, ?_, ?_, ?_, ?_⟩
  · rw [hact]
    rfl
  · rw [hact]
    rfl
  · rw [hact, List.append_nil]
    rfl
  · rw [hact]
    rfl
  · exact congrArg
      (fun result : List Effect × Session => (s.scripted refused).watch.exchanges result.1) h

/-- An attempt to write reaches the watch, and what that reports is added to the inbox.  Then a
request may be answered. -/
theorem wrought_write {data : Bytes} {taken : Bool} {reports : List RadioEvent}
    {watch : ScriptedWatch} (outcome : Option (Nat × LinkResult))
    (h : s.session.work ((s.scripted refused).watch.luck s.clock) =
      (.write data taken :: (outcome.map fun reply => .reply reply.1 reply.2).toList, session))
    (hreports : (s.scripted refused).watch.suffer (.write data taken) = (reports, watch)) :
    s.Wrought refused session watch reports outcome.toList [⟨data, taken, reports⟩] := by
  obtain ⟨called, turns, hact⟩ := (s.scripted refused).move_eq .work h
  change s.act refused .work = _ at hact
  have happly : apply { s.scripted refused with session } (.write data taken) =
      { s.scripted refused with session, watch, inbox := s.inbox ++ reports } := by
    unfold apply
    dsimp only
    rw [hreports]
    rfl
  have hexchanges : s.exchanges refused .work =
      (s.scripted refused).watch.exchanges
        (.write data taken :: (outcome.map fun reply => .reply reply.1 reply.2).toList) :=
    congrArg
      (fun result : List Effect × Session => (s.scripted refused).watch.exchanges result.1) h
  rw [ScriptedWatch.exchanges, ScriptedWatch.exchange?, hreports] at hexchanges
  rw [List.foldl_cons, happly] at hact
  have hnone : s.exchanges refused .work = [⟨data, taken, reports⟩] := by
    cases outcome <;> exact hexchanges
  refine ⟨?_, ?_, ?_, ?_, hnone⟩
  all_goals
    rw [hact]
    cases outcome <;> rfl

theorem accepts_scripted (refused : Nat → Bool) (s : Simulation) :
    ((s.scripted refused).watch.luck s.clock).accepts = !refused s.watch.counts.attempts :=
  Bool.and_true _

end Simulation

end Timepiece
