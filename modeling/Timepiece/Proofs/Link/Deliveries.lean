import Mathlib
import Timepiece.Proofs.Link.Losses
import Timepiece.Proofs.Link.SessionEffects

/-!
# Uploads that succeed

An upload is refused if the connection cannot be used when the worker takes it up.  From then on
the worker does not look at the connection any more: it writes, waits for the watch, and tries
again what was refused.  So an upload that succeeds was written as a whole, and over one
connection if nothing happened to that; but if the link is lost and made again while the worker
waits, the rest of the upload goes over the new connection.

## Main definitions

* `Job.upload?`, `Job.Sends` — an upload, and the writes of which it consists.
* `LinkInput.disturbs`, `Move.disturbs` — with what a connection begins or ends.
* `Session.SameConnection`, `Session.Undivided` — the connection is kept, and is kept while an
  upload is written.
* `Session.Delivers` — an upload is taken up and succeeds.

## Main results

* `Session.sameConnection_step` — **a connection is only lost with a move that disturbs it**.
* `Session.script_of_succeeded` — a transfer that succeeds had its script taken.
* `Session.delivered_whole` — **an upload that succeeds was written as a whole**, over the
  connection with which it began as long as that is not disturbed.
-/

namespace Timepiece

/-- The number of the request for an upload. -/
def Job.upload? : Job → Option Nat
  | .upload _ request => some request
  | .notification _ _ request => some request
  | _ => none

/-- The writes of which an upload consists.  A notification is asked for until it is permitted,
though not more often than is set. -/
inductive Job.Sends (config : LinkConfig) : Job → List Bytes → Prop
  | upload {payload : Bytes} {request : Nat} :
    Sends config (.upload payload request) (uploadWrites payload)
  | notification {notification : Notification} {handler : Option String} {request count : Nat}
    {payload : Bytes} : notification.payload = .ok payload → 1 ≤ count → count ≤ config.requests →
    Sends config (.notification notification handler request)
      (List.replicate count (Transfer.notificationRequest payload) ++
        (notificationPackets payload ++ [Command.commitNotification.encode]))

/-- Whether a connection begins or ends with an input, or may do so. -/
def LinkInput.disturbs : LinkInput → Bool
  | .connect _ | .connectFailed | .linkUp | .linkDown | .close => true
  | _ => false

/-- Whether a connection begins or ends with a move, or may do so. -/
def Move.disturbs : Move → Bool
  | .radio .linkUp | .radio .linkDown | .request (.connect _) | .request .close => true
  | _ => false

namespace Session

variable {s s' s'' : Session} {luck : Luck} {move : Move} {moves during : List (Luck × Move)}
  {job : Job} {request : Nat} {purpose : Purpose} {transfer : Transfer}

/-! ### The connection -/

/-- The connection is the one that there was, and can be used. -/
structure SameConnection (s s' : Session) : Prop where
  connected : s'.isConnected = true
  address : s'.lifecycle.address = s.lifecycle.address
  epoch : s'.lifecycle.epoch = s.lifecycle.epoch

theorem SameConnection.trans (h : SameConnection s s') (h' : SameConnection s' s'') :
    SameConnection s s'' :=
  ⟨h'.connected, h'.address.trans h.address, h'.epoch.trans h.epoch⟩

theorem sameConnection_of_lifecycle (h : s.isConnected = true)
    (hlifecycle : s'.lifecycle = s.lifecycle) : SameConnection s s' := by
  refine ⟨?_, by rw [hlifecycle], by rw [hlifecycle]⟩
  rw [isConnected, state, hlifecycle]
  exact h

/-- A connection is not touched by directives with which none is made. -/
theorem lifecycle_execute (luck : Luck) (s : Session) {directive : Directive}
    (h : directive.connects = false) : (s.execute luck directive).2.2.lifecycle = s.lifecycle := by
  cases directive with
  | openLink | reconnect => exact nomatch h
  | syncClock =>
    show (s.offer .syncClock).lifecycle = s.lifecycle
    obtain ⟨queue, hoffer⟩ := s.offer_eq .syncClock
    rw [hoffer]
  | discover | scheduleSettle | armNotifications | clearPushCache | scheduleClockSync | disconnect
  | close => rfl

theorem lifecycle_executeAll (luck : Luck) (s : Session) {directives : List Directive}
    (h : ∀ d ∈ directives, d.connects = false) :
    (s.executeAll luck directives).2.2.lifecycle = s.lifecycle := by
  induction directives generalizing s with
  | nil => rfl
  | cons directive rest ih =>
    have hrest : ∀ d ∈ rest, d.connects = false := fun d hmem => h d (List.mem_cons_of_mem _ hmem)
    exact (ih _ hrest).trans (lifecycle_execute luck s (h directive List.mem_cons_self))

/-- A connection that can be used stays as it is if nothing disturbs it. -/
theorem settled_step {m : Lifecycle} {input : LinkInput} (h : m.state = .connected)
    (hinput : input.disturbs = false) :
    (m.step input).2.state = .connected ∧ (m.step input).2.address = m.address ∧
      (m.step input).2.epoch = m.epoch := by
  cases input with
  | connect | connectFailed | linkUp | linkDown | close => exact nomatch hinput
  | settled epoch =>
    -- nothing is settled twice
    have hnot : ¬ (epoch = m.epoch ∧ m.state = .discovering) := by
      rw [h]
      exact fun hboth => nomatch hboth.2
    rw [Lifecycle.step, Lifecycle.settle, if_neg hnot]
    exact ⟨h, rfl, rfl⟩
  | servicesDiscovered | clockSyncDue | disconnect =>
    unfold Lifecycle.step
    dsimp only
    split <;> exact ⟨h, rfl, rfl⟩
  | setAutoReconnect => exact ⟨h, rfl, rfl⟩

theorem sameConnection_tell (luck : Luck) (input : LinkInput) (h : s.isConnected = true)
    (hinput : input.disturbs = false) : SameConnection s (s.tell luck input).2.2 := by
  have hunconnected : ∀ d ∈ (s.lifecycle.step input).1, d.connects = false := by
    refine Lifecycle.unconnected_step ?_ ?_
    · rintro address rfl
      exact nomatch hinput
    · rintro rfl
      exact nomatch hinput
  have hlifecycle : (s.tell luck input).2.2.lifecycle = (s.lifecycle.step input).2 :=
    lifecycle_executeAll luck _ hunconnected
  obtain ⟨hstate, haddress, hepoch⟩ := settled_step (of_decide_eq_true h) hinput
  refine ⟨?_, by rw [hlifecycle, haddress], by rw [hlifecycle, hepoch]⟩
  rw [isConnected, state, hlifecycle, hstate]
  rfl

theorem sameConnection_dispatch (h : s.isConnected = true) (report : Report) :
    SameConnection s (s.dispatch report).2 := by
  refine sameConnection_of_lifecycle h ?_
  cases report with
  | activeWatchSet id =>
    show (s.activate id).lifecycle = s.lifecycle
    obtain ⟨queue, hactivate⟩ := s.activate_eq id
    rw [hactivate]
  | callFunction index =>
    unfold dispatch
    dsimp only
    split <;> rfl
  | acknowledged | permission | notification => rfl

/-- **A connection is only lost with a move that disturbs it.** -/
theorem sameConnection_step (luck : Luck) (h : s.isConnected = true)
    (hmove : move.disturbs = false) : SameConnection s (s.step luck move).2 := by
  cases move with
  | submit job =>
    obtain ⟨queue, senders, hsubmit⟩ := s.submit_eq job
    have hlifecycle : (s.submit job).lifecycle = s.lifecycle := by rw [hsubmit]
    exact sameConnection_of_lifecycle h hlifecycle
  | offer job =>
    obtain ⟨queue, hoffer⟩ := s.offer_eq job
    have hlifecycle : (s.offer job).lifecycle = s.lifecycle := by rw [hoffer]
    exact sameConnection_of_lifecycle h hlifecycle
  | enter | wait | services => exact sameConnection_of_lifecycle h rfl
  | request request =>
    cases request with
    | connect | close => exact nomatch hmove
    | disconnect => exact sameConnection_tell luck .disconnect h rfl
    | setAutoReconnect enabled => exact sameConnection_tell luck (.setAutoReconnect enabled) h rfl
  | radio event =>
    cases event with
    | linkUp | linkDown => exact nomatch hmove
    | servicesDiscovered success =>
      exact sameConnection_tell luck (.servicesDiscovered success) h rfl
    | received data =>
      show SameConnection s (s.receive luck (.received data)).2
      unfold receive
      dsimp only
      split
      · exact sameConnection_dispatch h _
      · exact sameConnection_of_lifecycle h rfl
  | alarm =>
    show SameConnection s (s.ring luck).2
    unfold ring
    split
    · next alarm alarms _ =>
      have halarm : alarm.input.disturbs = false := by cases alarm <;> rfl
      have hrest : SameConnection s { s with alarms } := sameConnection_of_lifecycle h rfl
      exact hrest.trans (sameConnection_tell luck alarm.input hrest.connected halarm)
    · exact sameConnection_of_lifecycle h rfl
  | work => exact sameConnection_of_lifecycle h (worked_work luck s).lifecycle

/-- A connection that can be used is kept while it is not disturbed. -/
theorem sameConnection_after (h : s.isConnected = true)
    (hmoves : ∀ move ∈ moves, move.2.disturbs = false) : SameConnection s (s.after moves) := by
  induction moves using List.reverseRecOn with
  | nil => exact sameConnection_of_lifecycle h rfl
  | append_singleton past last ih =>
    obtain ⟨hpast, hlast⟩ := List.forall_mem_append.1 hmoves
    have hbefore := ih hpast
    rw [after_concat]
    exact hbefore.trans
      (sameConnection_step last.1 hbefore.connected (hlast last (List.mem_singleton.2 rfl)))

/-! ### Uploads -/

/-- A transfer that succeeds had its script taken, and nothing else was written meanwhile. -/
theorem script_of_succeeded (hworker : s.worker = .transferring purpose transfer)
    (hpurpose : purpose.isPush = false) (htaken : s.taken moves = [])
    (hdone : request ∈ succeeded (s.effects moves)) :
    Transfer.Scripts transfer.tasks (accepted (s.effects moves)) := by
  -- from the first move on: the script of the tasks that are left then is known before
  induction moves generalizing s transfer with
  | nil => exact absurd hdone List.not_mem_nil
  | cons head rest ih =>
    obtain ⟨luck, move⟩ := head
    have heffects : s.effects ((luck, move) :: rest) =
        (s.step luck move).1 ++ (s.step luck move).2.effects rest := rfl
    have hrest : (s.step luck move).2.taken rest = [] := (List.append_eq_nil_iff.1 htaken).2
    rw [heffects, succeeded_append] at hdone
    rw [heffects, accepted_append]
    by_cases hwork : move = .work
    · subst hwork
      have hserved : Served purpose transfer (s.step luck .work) := by
        show Served purpose transfer (s.work luck)
        rw [work_of_transfer hworker]
        exact served_advance luck s hworker hpurpose
      cases hserved with
      | goesOn hnext hnone hscripts =>
        rw [hnone, List.nil_append] at hdone
        exact hscripts _ (ih hnext hrest hdone)
      | succeeds hidle hscript =>
        rw [(silent_rest hidle hrest).accepted_eq, List.append_nil]
        exact hscript
      | fails hidle _ hnone =>
        rw [hnone, (silent_rest hidle hrest).succeeded_eq] at hdone
        exact absurd hdone List.not_mem_nil
    · have hsilent : Silent (s.step luck move).1 := silent_step luck s hwork
      rw [hsilent.succeeded_eq, List.nil_append] at hdone
      rw [hsilent.accepted_eq, List.nil_append]
      exact ih ((worker_step luck s hwork).trans hworker) hrest hdone

/-- A request is refused, or the connection can be used and the transfer begins. -/
theorem beginRequest_cases (s : Session) (number : Nat) (purpose : Purpose)
    (made : Except LinkFault Transfer) :
    (s.beginRequest number purpose made).2 = s ∨
      s.isConnected = true ∧ ∃ transfer, made = .ok transfer ∧
        (s.beginRequest number purpose made).2 =
          { s with worker := .transferring purpose transfer } := by
  unfold beginRequest
  split
  · next hconnected =>
    cases made with
    | ok transfer => exact .inr ⟨hconnected, transfer, rfl, rfl⟩
    | error fault => exact .inl rfl
  · exact .inl rfl

/-- The transfer of a notification is made for its payload. -/
theorem sends_notificationTransfer {config : LinkConfig} {notification : Notification}
    (h : notificationTransfer config notification = .ok transfer) (handler : Option String)
    (number : Nat) {writes : List Bytes} (hscript : Transfer.Scripts transfer.tasks writes) :
    Job.Sends config (.notification notification handler number) writes := by
  unfold notificationTransfer Transfer.ofNotification at h
  split at h
  · next payload hpayload =>
    split at h
    · obtain rfl := Except.ok.inj h
      obtain ⟨count, hleast, hmost, rfl⟩ := Transfer.Scripts.of_notification hscript
      have hrequests : max 1 config.requests = config.requests :=
        max_eq_right (le_max_left 1 config.maxPermissionRequests)
      exact .notification hpayload hleast (hrequests ▸ hmost)
    · exact nomatch h
  · exact nomatch h

/-- An upload that is taken up is refused, or the connection can be used and a transfer of its
writes begins. -/
theorem begin_upload (luck : Luck) (hidle : s.worker = .idle)
    (hupload : job.upload? = some request) :
    (s.begin luck job).2.worker = .idle ∨
      s.isConnected = true ∧ ∃ purpose transfer, purpose.isPush = false ∧
        (s.begin luck job).2.worker = .transferring purpose transfer ∧
        ∀ writes, Transfer.Scripts transfer.tasks writes → job.Sends s.config writes := by
  cases job with
  | upload payload number =>
    obtain hrefused | ⟨hconnected, transfer, hmade, hnext⟩ :=
      s.beginRequest_cases number (.request number) (.ok (.ofUpload payload))
    · exact .inl ((congrArg worker hrefused).trans hidle)
    · obtain rfl := Except.ok.inj hmade
      refine .inr ⟨hconnected, .request number, _, rfl, congrArg worker hnext, ?_⟩
      intro writes hscript
      rw [Transfer.Scripts.of_uploadTasks hscript]
      exact .upload
  | notification notification handler number =>
    have hpurpose : (if notification.isAlert = true then Purpose.alert handler number
        else .request number).isPush = false := by split <;> rfl
    obtain hrefused | ⟨hconnected, transfer, hmade, hnext⟩ :=
      s.beginRequest_cases number _ (notificationTransfer s.config notification)
    · exact .inl ((congrArg worker hrefused).trans hidle)
    · exact .inr ⟨hconnected, _, transfer, hpurpose, congrArg worker hnext,
        fun writes hscript => sends_notificationTransfer hmade handler number hscript⟩
  | command | push | pushExtension | pushAll | syncClock => exact nomatch hupload

/-- An upload is taken up, and it succeeds during the moves after that.  No other work is taken up
until then. -/
structure Delivers (s : Session) (luck : Luck) (job : Job) (request : Nat)
    (during : List (Luck × Move)) : Prop where
  takes : s.takes? .work = some job
  upload : job.upload? = some request
  alone : (s.step luck .work).2.taken during = []
  succeeds : request ∈ succeeded ((s.step luck .work).2.effects during)

/-- From the first write that is taken to the last one the connection can be used, and is not
disturbed. -/
def Undivided (s : Session) (moves : List (Luck × Move)) : Prop :=
  ∀ earlier move later, moves = earlier ++ move :: later → accepted (s.effects earlier) ≠ [] →
    accepted ((s.after (earlier ++ [move])).effects later) ≠ [] →
      move.2.disturbs = false ∧ (s.after (earlier ++ [move])).isConnected = true

/-- **An upload that succeeds was written as a whole.**  When it was taken up the connection could
be used, and from then on the writes of the upload were taken in their order, and no others.  As
long as the connection was not disturbed, they were taken over the one with which it began. -/
theorem delivered_whole (h : s.Delivers luck job request during) :
    s.isConnected = true ∧
      job.Sends s.config (accepted ((s.step luck .work).2.effects during)) ∧
      ∀ earlier, earlier <+: during → (∀ move ∈ earlier, move.2.disturbs = false) →
        SameConnection s ((s.step luck .work).2.after earlier) := by
  obtain ⟨rest, hidle, -, hstep⟩ := work_of_takes luck h.takes
  have halone := h.alone
  have hsucceeds := h.succeeds
  obtain hrefused | ⟨hconnected, purpose, transfer, hpurpose, hworker, hsends⟩ :=
    (s.shifted rest).begin_upload luck hidle h.upload
  · rw [← hstep] at hrefused
    rw [(silent_rest hrefused halone).succeeded_eq] at hsucceeds
    exact absurd hsucceeds List.not_mem_nil
  · rw [← hstep] at hworker
    refine ⟨hconnected, hsends _ (script_of_succeeded hworker hpurpose halone hsucceeds), ?_⟩
    intro earlier _ hcalm
    have hbegun : SameConnection s (s.step luck .work).2 :=
      sameConnection_of_lifecycle hconnected (worked_work luck s).lifecycle
    exact hbegun.trans (sameConnection_after hbegun.connected hcalm)

/-- A bulk upload of three bytes is asked for. -/
def asking : List (Luck × Move) :=
  [(radio true, .request (.connect "C4:7C:8D:6A:10:02")), (radio true, .radio .linkUp),
    (radio true, .radio (.servicesDiscovered true)), (radio true, .wait 1000),
    (radio true, .alarm), (radio true, .submit (.upload [1, 2, 3] 1))]

/-- A packet of the upload is written, and its acknowledgement is waited for. -/
def writing : List (Luck × Move) := List.replicate 3 (radio true, .work)

/-- The watch acknowledges, and the worker goes on. -/
def going : List (Luck × Move) := [(radio true, .radio (.received [5])), (radio true, .work)]

/-- The link is lost and made again. -/
def dropping : List (Luck × Move) :=
  [(radio true, .radio .linkDown), (radio true, .radio .linkUp),
    (radio true, .radio (.servicesDiscovered true)), (radio true, .wait 2000),
    (radio true, .alarm)]

/-- Three bytes are uploaded over one connection. -/
theorem delivered_whole_calm :
    ((start {} .none).after asking).Delivers (radio true) (.upload [1, 2, 3] 1) 1
        (writing ++ going ++ writing ++ going ++ [(radio true, .work)]) ∧
      ((start {} .none).after asking).SameConnection
        ((((start {} .none).after asking).step (radio true) .work).2.after
          (writing ++ going ++ writing ++ going ++ [(radio true, .work)])) := by
  have hdelivers : ((start {} .none).after asking).Delivers (radio true) (.upload [1, 2, 3] 1) 1
      (writing ++ going ++ writing ++ going ++ [(radio true, .work)]) :=
    ⟨rfl, rfl, List.eq_nil_of_length_eq_zero (by decide +kernel), by decide +kernel⟩
  obtain ⟨-, -, hsame⟩ := delivered_whole hdelivers
  exact ⟨hdelivers, hsame _ (List.prefix_refl _) (by decide)⟩

/-- The link is lost while the first acknowledgement is waited for, and the rest of the upload goes
over the connection that is made then. -/
theorem delivered_divided :
    ¬ ∀ (config : LinkConfig) (services : Services) (past during : List (Luck × Move)) (luck : Luck)
      (job : Job) (request : Nat),
      ((start config services).after past).Delivers luck job request during →
        (((start config services).after past).step luck .work).2.Undivided during := by
  intro h
  have hdelivers : ((start {} .none).after asking).Delivers (radio true) (.upload [1, 2, 3] 1) 1
      (writing ++ dropping ++ going ++ writing ++ going ++ [(radio true, .work)]) :=
    ⟨rfl, rfl, List.eq_nil_of_length_eq_zero (by decide +kernel), by decide +kernel⟩
  obtain ⟨hcalm, -⟩ := h {} .none asking _ _ _ _ hdelivers writing (radio true, .radio .linkDown)
    (dropping.tail ++ going ++ writing ++ going ++ [(radio true, .work)]) rfl (by decide +kernel)
    (by decide +kernel)
  exact nomatch hcalm

end Session

end Timepiece
