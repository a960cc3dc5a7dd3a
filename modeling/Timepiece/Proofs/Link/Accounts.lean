import Mathlib
import Timepiece.Proofs.Link.Mirroring

/-!
# Accounts of the work

The account of a piece of work tells what the worker did with it: attempts to write, and an
answer if one is expected.  If the connection cannot be used when it is taken up nothing is
attempted.  Otherwise the writes of which it consists are attempted in their order until one of
them is refused for good or an answer of the watch is missing, and then the request is answered.

## Main definitions

* `Taking`, `Account` — a piece of work that was taken up, and what was done with it.
* `Taking.Script` — the writes of which a piece of work consists.
* `Account.Settled`, `Account.Open` — the worker is done with a piece of work, or is not.
* `Account.Engaged`, `Account.Going` — the worker is at a piece of work.

## Main results

* `Session.begins_step`, `Account.Going.step` — **what a move adds to the account** of the piece of
  work that is taken up, or was taken up last.
-/

namespace Timepiece

/-! ### Work and what is expected of it -/

/-- The number of a request that is answered when the worker is done with it. -/
def Job.request? : Job → Option Nat
  | .upload _ request => some request
  | .notification _ _ request => some request
  | .command _ request => some request
  | _ => none

/-- The properties that a piece of work is to push. -/
def Job.picks? : Job → Option (Property → Bool)
  | .push key => some fun property => property.key = key
  | .pushExtension extension => some fun property => property.extension = extension
  | .pushAll => some fun _ => true
  | _ => none

/-- A piece of work that was taken up, with the session and its luck at that time. -/
structure Taking where
  session : Session
  luck : Luck
  job : Job

/-- The writes with which properties are told values. -/
def pushWrites (entries : List ((Nat × Property) × Option Value)) : List Bytes :=
  entries.map fun entry => pushWrite entry.1 entry.2

/-- The writes of which a piece of work consists.  Properties may be left out of a push. -/
inductive Taking.Script (t : Taking) : List Bytes → Prop
  | upload {writes : List Bytes} : t.job.Sends t.session.config writes → Script t writes
  | command {command : Command} {request : Nat} : t.job = .command command request →
    Script t [command.encode]
  | push {picked : Property → Bool} {entries : List ((Nat × Property) × Option Value)} :
    t.job.picks? = some picked → (entries.map Prod.fst).Sublist (t.session.pick picked) →
    Script t (pushWrites entries)
  | clock {command : Command} : t.job = .syncClock →
    Command.setTime? t.luck.clock = .ok command → Script t [command.encode]

/-- What was done with a piece of work. -/
structure Account where
  taking : Taking
  /-- The attempts to write and the answers. -/
  record : List Effect

namespace Account

open Session

/-- The worker is done with a piece of work.  If the connection could not be used when it was taken
up, nothing was attempted.  Otherwise writes were attempted in their order.  If it is a request, it
was answered once, after all that. -/
inductive Settled (a : Account) : Prop
  | refused : a.taking.session.isConnected = false →
    a.record = answer a.taking.job.request? (.error .notConnected) → Settled a
  | done {attempts : List Effect} {result : LinkResult} : a.taking.session.isConnected = true →
    (∀ effect ∈ attempts, effect.isWrite = true) →
    a.record = attempts ++ answer a.taking.job.request? result →
    (accepted attempts = [] ∨ ∃ writes, a.taking.Script (accepted attempts ++ writes)) →
    (a.taking.job.request?.isSome = true → result = .ok () → a.taking.Script (accepted attempts)) →
    Settled a

/-- The worker is not done with a piece of work.  The connection could be used when it was taken
up, and writes were attempted in their order. -/
structure Open (a : Account) : Prop where
  connected : a.taking.session.isConnected = true
  attempts : ∀ effect ∈ a.record, effect.isWrite = true
  script : ∃ writes, a.taking.Script (accepted a.record ++ writes)

/-- What the worker still has to do for a piece of work. -/
inductive Engaged (a : Account) : Worker → Prop
  | pushing {picked : Property → Bool} {entries : List ((Nat × Property) × Option Value)}
    {pending : List (Nat × Property)} : a.taking.job.picks? = some picked →
    accepted a.record = pushWrites entries →
    (entries.map Prod.fst ++ pending).Sublist (a.taking.session.pick picked) →
    Engaged a (.pushing pending)
  | telling {picked : Property → Bool} {entries : List ((Nat × Property) × Option Value)}
    {entry : Nat × Property} {key : PropertyKey} {value : Option Value}
    {pending : List (Nat × Property)} {transfer : Transfer} : a.taking.job.picks? = some picked →
    accepted a.record = pushWrites entries →
    (entries.map Prod.fst ++ entry :: pending).Sublist (a.taking.session.pick picked) →
    transfer.tasks = [.write (pushWrite entry value) none] →
    Engaged a (.transferring (.push key value pending) transfer)
  | serving {purpose : Purpose} {transfer : Transfer} : purpose.isPush = false →
    purpose.request? = a.taking.job.request? →
    (∀ writes, Transfer.Scripts transfer.tasks writes →
      a.taking.Script (accepted a.record ++ writes)) →
    Engaged a (.transferring purpose transfer)

/-- The worker is at a piece of work. -/
structure Going (a : Account) (worker : Worker) : Prop where
  connected : a.taking.session.isConnected = true
  attempts : ∀ effect ∈ a.record, effect.isWrite = true
  engaged : a.Engaged worker

/-- The account with more that was done. -/
def add (a : Account) (more : List Effect) : Account := { a with record := a.record ++ more }

end Account

namespace Session

variable {s : Session} {luck : Luck} {move : Move} {purpose : Purpose} {transfer : Transfer}

/-! ### What the worker does -/

theorem filter_ofWorker_of_silent {effects : List Effect} (h : Silent effects) :
    effects.filter Effect.ofWorker = [] := by
  refine List.filter_eq_nil_iff.2 ?_
  intro effect hmem
  rw [h effect hmem]
  exact Bool.false_ne_true

theorem filter_ofWorker_of_writes {effects : List Effect}
    (h : ∀ effect ∈ effects, effect.isWrite = true) : effects.filter Effect.ofWorker = effects := by
  refine List.filter_eq_self.2 ?_
  intro effect hmem
  have hwrite := h effect hmem
  cases effect with
  | write => rfl
  | _ => exact nomatch hwrite

theorem filter_ofWorker_answer (request : Option Nat) (result : LinkResult) :
    (answer request result).filter Effect.ofWorker = answer request result := by
  cases request <;> rfl

/-- What was taken is told by what the worker did. -/
theorem accepted_filter_ofWorker (effects : List Effect) :
    accepted (effects.filter Effect.ofWorker) = accepted effects := by
  induction effects with
  | nil => rfl
  | cons effect rest ih =>
    cases effect with
    | write data taken =>
      cases taken
      · exact ih
      · exact congrArg (data :: ·) ih
    | _ => exact ih

/-- With a step of a push nothing is done but to write. -/
theorem writes_advance_push (luck : Luck) (s : Session) {key : PropertyKey} {value : Option Value}
    {pending : List (Nat × Property)} (transfer : Transfer) :
    ∀ effect ∈ (s.advance luck (.push key value pending) transfer).1, effect.isWrite = true := by
  unfold advance
  generalize transfer.step s.config s.now luck.accepts s.signals = step
  dsimp only
  split
  · exact writes_attempted step luck.accepts
  · exact writes_attempted step luck.accepts
  · next result _ =>
    have hnone :
        ({ s with signals := step.signals }.conclude (.push key value pending) result).1 = [] :=
      conclude_fst _ _ _
    rw [hnone, List.append_nil]
    exact writes_attempted step luck.accepts

/-! ### Work that is taken up -/

/-- What becomes of a piece of work that is taken up: the worker is at it, or is done with it at
once. -/
def Begins (t : Taking) (result : List Effect × Session) : Prop :=
  (⟨t, result.1.filter Effect.ofWorker⟩ : Account).Going result.2.worker ∨
    result.2.worker = .idle ∧ (⟨t, result.1.filter Effect.ofWorker⟩ : Account).Settled

/-- A request for a transfer that is refused at once. -/
theorem settled_of_fault {t : Taking} {number : Nat} {fault : LinkFault}
    (hconnected : t.session.isConnected = true) (hnumber : t.job.request? = some number) :
    (⟨t, [.reply number (.error fault)]⟩ : Account).Settled := by
  refine @Account.Settled.done _ [] (.error fault) hconnected
    (fun _ hmem => absurd hmem List.not_mem_nil) ?_ (.inl rfl) (fun _ hok => nomatch hok)
  rw [hnumber]
  rfl

/-- A piece of work that has nothing to write and is not answered. -/
theorem settled_of_nothing {t : Taking} (hnumber : t.job.request? = none) :
    (⟨t, []⟩ : Account).Settled := by
  cases hconnected : t.session.isConnected with
  | false =>
    refine .refused hconnected ?_
    rw [hnumber]
    rfl
  | true =>
    refine @Account.Settled.done _ [] (.ok ()) hconnected
      (fun _ hmem => absurd hmem List.not_mem_nil) ?_ (.inl rfl) ?_
    · rw [hnumber]
      rfl
    · intro hsome
      rw [hnumber] at hsome
      exact nomatch hsome

variable {t : Taking} {s' : Session}

/-- A request begins a transfer, or is refused. -/
theorem begins_beginRequest {number : Nat} {made : Except LinkFault Transfer}
    (hidle : s'.worker = .idle) (hsame : s'.isConnected = t.session.isConnected)
    (hpurpose : purpose.isPush = false) (hrequest : purpose.request? = some number)
    (hnumber : t.job.request? = some number)
    (hmade : ∀ transfer, made = .ok transfer → ∀ writes,
      Transfer.Scripts transfer.tasks writes → t.Script writes) :
    Begins t (s'.beginRequest number purpose made) := by
  unfold beginRequest
  split
  · next hconnected =>
    have hconnected : t.session.isConnected = true := hsame.symm.trans hconnected
    split
    · next transfer =>
      refine .inl ⟨hconnected, fun _ hmem => absurd hmem List.not_mem_nil, ?_⟩
      exact .serving hpurpose (hrequest.trans hnumber.symm) (hmade transfer rfl)
    · exact .inr ⟨hidle, settled_of_fault hconnected hnumber⟩
  · next hunconnected =>
    refine .inr ⟨hidle, .refused (hsame.symm.trans (Bool.eq_false_iff.2 hunconnected)) ?_⟩
    rw [hnumber]
    rfl

/-- A push begins with the properties that are picked. -/
theorem begins_beginPush {picked : Property → Bool} (hidle : s'.worker = .idle)
    (hsame : s'.isConnected = t.session.isConnected)
    (hpick : s'.pick picked = t.session.pick picked)
    (hpicks : t.job.picks? = some picked) (hnumber : t.job.request? = none) :
    Begins t (s'.beginPush picked) := by
  unfold beginPush
  split
  · next hconnected =>
    refine .inl ⟨hsame.symm.trans hconnected, fun _ hmem => absurd hmem List.not_mem_nil, ?_⟩
    rw [hpick]
    exact @Account.Engaged.pushing _ picked [] _ hpicks rfl (List.Sublist.refl _)
  · exact .inr ⟨hidle, settled_of_nothing hnumber⟩

/-- The script of a transfer that consists of one write. -/
theorem scripts_ofWrite {data : Bytes} {writes : List Bytes}
    (h : Transfer.Scripts (Transfer.ofWrite data).tasks writes) : writes = [data] := by
  cases h with
  | write h =>
    cases h
    rfl

/-- **A piece of work that is taken up is begun, or done at once.** -/
theorem begins_step {job : Job} (luck : Luck) (h : s.takes? move = some job) :
    Begins ⟨s, luck, job⟩ (s.step luck move) := by
  obtain ⟨rest, hidle, -, hstep⟩ := work_of_takes luck h
  rw [hstep]
  cases job with
  | upload payload number =>
    refine begins_beginRequest (t := ⟨s, luck, .upload payload number⟩) hidle rfl rfl rfl rfl ?_
    intro transfer hmade writes hscript
    obtain rfl := Except.ok.inj hmade
    rw [Transfer.Scripts.of_uploadTasks hscript]
    exact .upload .upload
  | notification notification handler number =>
    refine begins_beginRequest (t := ⟨s, luck, .notification notification handler number⟩)
      hidle rfl ?_ ?_ rfl ?_
    · split <;> rfl
    · split <;> rfl
    · intro transfer hmade writes hscript
      exact .upload (sends_notificationTransfer hmade handler number hscript)
  | command command number =>
    refine begins_beginRequest (t := ⟨s, luck, .command command number⟩) hidle rfl rfl rfl rfl ?_
    intro transfer hmade writes hscript
    obtain rfl := Except.ok.inj hmade
    rw [scripts_ofWrite hscript]
    exact .command rfl
  | push key =>
    exact begins_beginPush (t := ⟨s, luck, .push key⟩) hidle rfl rfl rfl rfl
  | pushExtension extension =>
    exact begins_beginPush (t := ⟨s, luck, .pushExtension extension⟩) hidle rfl rfl rfl rfl
  | pushAll => exact begins_beginPush (t := ⟨s, luck, .pushAll⟩) hidle rfl rfl rfl rfl
  | syncClock =>
    have hnothing : Begins ⟨s, luck, .syncClock⟩ ([], s.shifted rest) :=
      .inr ⟨hidle, settled_of_nothing rfl⟩
    unfold begin
    dsimp only
    split
    · next hconnected =>
      split
      · next command hcommand =>
        refine .inl ⟨hconnected, fun _ hmem => absurd hmem List.not_mem_nil, ?_⟩
        refine .serving rfl rfl ?_
        intro writes hscript
        rw [scripts_ofWrite hscript]
        exact .clock rfl hcommand
      · exact hnothing
    · exact hnothing

/-! ### Work that goes on -/

theorem request?_of_picks {job : Job} {picked : Property → Bool} (h : job.picks? = some picked) :
    job.request? = none := by
  cases job with
  | push | pushExtension | pushAll | syncClock => rfl
  | upload | notification | command => exact nomatch h

end Session

namespace Account

open Session

variable {s : Session} {luck : Luck} {move : Move} {a : Account} {purpose : Purpose}
  {transfer : Transfer} {worker : Worker} {more : List Effect}

theorem accepted_add (a : Account) (more : List Effect) :
    accepted (a.add more).record = accepted a.record ++ accepted more := accepted_append

theorem add_nil (a : Account) : a.add [] = a := by
  unfold add
  rw [List.append_nil]

/-- The worker is still at the piece of work after it attempted more. -/
theorem Going.add (h : a.Going worker) {next : Worker}
    (hmore : ∀ effect ∈ more, effect.isWrite = true) (hengaged : (a.add more).Engaged next) :
    (a.add more).Going next :=
  ⟨h.connected, List.forall_mem_append.2 ⟨h.attempts, hmore⟩, hengaged⟩

/-- A push is done when no property is left to be looked at. -/
theorem Going.settled_push (h : a.Going (.pushing [])) : a.Settled := by
  obtain ⟨hconnected, hattempts, hengaged⟩ := h
  cases hengaged with
  | pushing hpicks haccepted hsublist =>
    have hnumber := request?_of_picks hpicks
    rw [List.append_nil] at hsublist
    refine @Settled.done _ a.record (.ok ()) hconnected hattempts ?_ (.inr ?_) ?_
    · rw [hnumber]
      exact (List.append_nil _).symm
    · refine ⟨[], ?_⟩
      rw [List.append_nil, haccepted]
      exact .push hpicks hsublist
    · intro hsome
      rw [hnumber] at hsome
      exact nomatch hsome

/-- Looking at a property writes nothing. -/
theorem Going.look {entry : Nat × Property} {pending : List (Nat × Property)}
    (h : a.Going (.pushing (entry :: pending))) :
    a.Going (s.pushOne entry.1 entry.2 pending).worker := by
  obtain ⟨hconnected, hattempts, hengaged⟩ := h
  cases hengaged with
  | @pushing picked entries _ hpicks haccepted hsublist =>
    refine ⟨hconnected, hattempts, ?_⟩
    obtain ⟨-, hnext⟩ | ⟨-, hnext⟩ := s.pushOne_cases entry pending
    · rw [hnext]
      have hskip : (entries.map Prod.fst ++ pending).Sublist
          (entries.map Prod.fst ++ entry :: pending) :=
        (List.Sublist.refl _).append (List.sublist_cons_self entry pending)
      exact .pushing hpicks haccepted (hskip.trans hsublist)
    · rw [hnext]
      exact .telling hpicks haccepted hsublist rfl

/-- A step of a push. -/
theorem Going.tell {key : PropertyKey} {value : Option Value} {pending : List (Nat × Property)}
    (h : a.Going (.transferring (.push key value pending) transfer))
    (hworker : s.worker = .transferring (.push key value pending) transfer) :
    (a.add (s.advance luck (.push key value pending) transfer).1).Going
      (s.advance luck (.push key value pending) transfer).2.worker := by
  have hwrites : ∀ effect ∈ (s.advance luck (.push key value pending) transfer).1,
      effect.isWrite = true := writes_advance_push luck s transfer
  cases h.engaged with
  | serving hpush => exact nomatch hpush
  | @telling picked entries entry _ _ _ _ hpicks haccepted hsublist htasks =>
    refine h.add hwrites ?_
    have hpushed := pushed_advance luck hworker htasks
    have hdropped : (entries.map Prod.fst ++ pending).Sublist
        (a.taking.session.pick picked) :=
      ((List.Sublist.refl _).append (List.sublist_cons_self entry pending)).trans hsublist
    generalize s.advance luck (.push key value pending) transfer = result at hpushed ⊢
    cases hpushed with
    | told hwritten hnext _ =>
      rw [hnext]
      -- the property joins those that were told their values
      refine @Engaged.pushing _ picked (entries ++ [(entry, value)]) _ hpicks ?_ ?_
      · rw [accepted_add, haccepted, hwritten, pushWrites, pushWrites, List.map_append]
        rfl
      · rw [List.map_append, List.append_assoc]
        exact hsublist
    | refused hwritten hnext _ =>
      rw [hnext]
      refine .pushing hpicks ?_ hdropped
      rw [accepted_add, hwritten, List.append_nil, haccepted]
    | goesOn hwritten hnext hagain _ =>
      rw [hnext]
      refine .telling hpicks ?_ hsublist hagain
      rw [accepted_add, hwritten, List.append_nil, haccepted]

/-- A step of a transfer that is no push. -/
theorem Going.serve (h : a.Going (.transferring purpose transfer)) (hpush : purpose.isPush = false)
    (hworker : s.worker = .transferring purpose transfer) :
    (a.add ((s.advance luck purpose transfer).1.filter Effect.ofWorker)).Going
        (s.advance luck purpose transfer).2.worker ∨
      (s.advance luck purpose transfer).2.worker = .idle ∧
        (a.add ((s.advance luck purpose transfer).1.filter Effect.ofWorker)).Settled := by
  cases h.engaged with
  | telling => exact nomatch hpush
  | serving _ hrequest hscript =>
    have hserves := serves_advance luck s hworker hpush
    generalize s.advance luck purpose transfer = result at hserves ⊢
    cases hserves with
    | goesOn hnext hwrites hscripts =>
      rw [hnext, filter_ofWorker_of_writes hwrites]
      refine .inl (h.add hwrites (.serving hpush hrequest ?_))
      intro writes hwrites
      rw [accepted_add, List.append_assoc]
      exact hscript _ (hscripts writes hwrites)
    | @ends attempts outcome hidle hwrites heffects hok herror =>
      refine .inr ⟨hidle, ?_⟩
      rw [heffects, List.filter_append, filter_ofWorker_of_writes hwrites, filter_ofWorker_answer]
      have hwhole : outcome = .ok () → a.taking.Script (accepted (a.record ++ attempts)) := by
        intro hsuccess
        rw [accepted_append]
        exact hscript _ (hok hsuccess)
      refine @Settled.done _ (a.record ++ attempts) outcome h.connected
        (List.forall_mem_append.2 ⟨h.attempts, hwrites⟩) ?_ (.inr ?_) fun _ => hwhole
      · rw [hrequest]
        exact (List.append_assoc _ _ _).symm
      · cases outcome with
        | ok => exact ⟨[], by rw [List.append_nil]; exact hwhole rfl⟩
        | error fault =>
          -- what was left could have been written
          obtain ⟨writes, hwrites⟩ := Transfer.exists_scripts transfer.tasks
          refine ⟨writes, ?_⟩
          rw [accepted_append, herror fault rfl, List.append_nil]
          exact hscript writes hwrites

/-- **A move leaves the worker at a piece of work, or it is done with it.** -/
theorem Going.step (h : a.Going s.worker) (luck : Luck) (htakes : s.takes? move = none) :
    (a.add ((s.step luck move).1.filter Effect.ofWorker)).Going (s.step luck move).2.worker ∨
      (s.step luck move).2.worker = .idle ∧
        (a.add ((s.step luck move).1.filter Effect.ofWorker)).Settled := by
  by_cases hwork : move = .work
  · subst hwork
    have hworks := works_work luck s
    show (a.add ((s.work luck).1.filter Effect.ofWorker)).Going (s.work luck).2.worker ∨
      (s.work luck).2.worker = .idle ∧ (a.add ((s.work luck).1.filter Effect.ofWorker)).Settled
    generalize s.work luck = result at hworks ⊢
    cases hworks with
    | rests =>
      rw [List.filter_nil, add_nil]
      exact .inl h
    | takes hjob => exact nomatch hjob.symm.trans htakes
    | ends hworker =>
      rw [hworker] at h
      rw [List.filter_nil, add_nil]
      exact .inr ⟨rfl, h.settled_push⟩
    | looks hworker =>
      rw [hworker] at h
      rw [List.filter_nil, add_nil]
      exact .inl h.look
    | @advances purpose transfer hworker =>
      rw [hworker] at h
      cases purpose with
      | push key value pending =>
        rw [filter_ofWorker_of_writes (writes_advance_push luck s transfer)]
        exact .inl (h.tell hworker)
      | request | alert | clock => exact h.serve rfl hworker
  · rw [filter_ofWorker_of_silent (silent_step luck s hwork), worker_step luck s hwork, add_nil]
    exact .inl h

/-- The worker is not done with a piece of work that it is at. -/
theorem Going.isOpen (h : a.Going worker) : a.Open := by
  obtain ⟨hconnected, hattempts, hengaged⟩ := h
  refine ⟨hconnected, hattempts, ?_⟩
  cases hengaged with
  | @pushing picked entries pending hpicks haccepted hsublist =>
    refine ⟨[], ?_⟩
    rw [List.append_nil, haccepted]
    exact .push hpicks ((List.sublist_append_left _ _).trans hsublist)
  | @telling picked entries entry _ _ pending _ hpicks haccepted hsublist =>
    refine ⟨[], ?_⟩
    rw [List.append_nil, haccepted]
    exact .push hpicks ((List.sublist_append_left _ _).trans hsublist)
  | @serving purpose transfer _ _ hscript =>
    obtain ⟨writes, hwrites⟩ := Transfer.exists_scripts transfer.tasks
    exact ⟨writes, hscript writes hwrites⟩

theorem not_going_idle : ¬ a.Going .idle := fun h => nomatch h.engaged

end Account

end Timepiece
