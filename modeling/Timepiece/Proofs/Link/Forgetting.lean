import Mathlib
import Timepiece.Proofs.Link.Deliveries

/-!
# When what was pushed is forgotten

What was pushed is forgotten when a connection begins to be used, and when the watch reports which
watch set it shows.  No other move of the side that hears touches what is noted of the pushes, and
the active watch set only changes with such a report.

## Main definitions

* `Session.switches?` — the known watch set that becomes the active one with a move.
* `Session.Forgets` — what was pushed is forgotten with a move.

## Main results

* `Session.cache_step` — **what was pushed is only forgotten with a move that forgets it**.
* `Session.cache_of_forgets` — **with such a move all of it is forgotten**.
* `Session.switched`, `Session.active_step` — when the active watch set changes.
-/

namespace Timepiece

namespace Session

variable {s : Session} {luck : Luck} {move : Move} {bundle : Bundle}

/-- What was pushed is forgotten with a move: a connection begins to be used, or the watch reports
which watch set it shows. -/
def Forgets (s : Session) (luck : Luck) (move : Move) : Prop :=
  (s.isConnected = false ∧ (s.step luck move).2.isConnected = true) ∨
    ∃ data id, move = .radio (.received data) ∧ Report.decode data = .ok (.activeWatchSet id)

theorem cache_execute (luck : Luck) (s : Session) {directive : Directive}
    (h : directive ≠ .clearPushCache) : (s.execute luck directive).2.2.cache = s.cache := by
  cases directive with
  | clearPushCache => exact absurd rfl h
  | openLink | reconnect =>
    unfold execute
    dsimp only
    split <;> rfl
  | syncClock =>
    show (s.offer .syncClock).cache = s.cache
    obtain ⟨queue, hoffer⟩ := s.offer_eq .syncClock
    rw [hoffer]
  | discover | scheduleSettle | armNotifications | scheduleClockSync | disconnect | close => rfl

theorem cache_executeAll (luck : Luck) (s : Session) {directives : List Directive}
    (h : .clearPushCache ∉ directives) : (s.executeAll luck directives).2.2.cache = s.cache := by
  induction directives generalizing s with
  | nil => rfl
  | cons directive rest ih =>
    obtain ⟨hfirst, hrest⟩ := not_or.1 (mt List.mem_cons.2 h)
    exact (ih _ hrest).trans (cache_execute luck s (Ne.symm hfirst))

/-- What was pushed is to be forgotten when a connection has settled. -/
theorem clears_step {m : Lifecycle} {input : LinkInput}
    (h : .clearPushCache ∈ (m.step input).1) : ∃ epoch, input = .settled epoch ∧
      m.state = .discovering ∧ (m.step input).2.state = .connected := by
  cases input with
  | settled epoch =>
    refine ⟨epoch, rfl, ?_⟩
    simp only [Lifecycle.step, Lifecycle.settle] at h ⊢
    split at h
    · next hsettles =>
      rw [if_pos hsettles]
      exact ⟨hsettles.2, rfl⟩
    · exact absurd h List.not_mem_nil
  | connect address =>
    simp only [Lifecycle.step, Lifecycle.connect] at h
    split at h <;> simp at h
  | linkDown =>
    simp only [Lifecycle.step, Lifecycle.lose, Lifecycle.connect] at h
    split at h
    · simp at h
    · split at h
      · split at h <;> simp at h
      · simp at h
  | connectFailed | linkUp | setAutoReconnect => simp [Lifecycle.step] at h
  | servicesDiscovered | clockSyncDue | disconnect | close =>
    simp only [Lifecycle.step] at h
    split at h <;> simp at h

/-- With an input what was pushed is kept, or it is forgotten because the connection begins to be
used. -/
theorem cache_tell (luck : Luck) (s : Session) (input : LinkInput) :
    (s.tell luck input).2.2.cache = s.cache ∨ (s.tell luck input).2.2.cache = .empty ∧
      s.isConnected = false ∧ (s.tell luck input).2.2.isConnected = true := by
  by_cases hclears : .clearPushCache ∈ (s.lifecycle.step input).1
  · refine (beside_tell luck s input).cache.imp_right fun hempty => ⟨hempty, ?_, ?_⟩
    · obtain ⟨epoch, -, hbefore, -⟩ := clears_step hclears
      simp [isConnected, state, hbefore]
    · obtain ⟨epoch, rfl, -, hafter⟩ := clears_step hclears
      have hunconnected : ∀ d ∈ (s.lifecycle.step (.settled epoch)).1, d.connects = false :=
        Lifecycle.unconnected_step (by simp) (by simp)
      have hlifecycle : (s.tell luck (.settled epoch)).2.2.lifecycle =
          (s.lifecycle.step (.settled epoch)).2 := lifecycle_executeAll luck _ hunconnected
      rw [isConnected, state, hlifecycle, hafter]
      rfl
  · exact .inl (cache_executeAll luck _ hclears)

theorem cache_told (input : LinkInput) (h : (s.step luck move).2 = (s.tell luck input).2.2) :
    (s.step luck move).2.cache = s.cache ∨
      (s.step luck move).2.cache = .empty ∧ s.Forgets luck move := by
  unfold Forgets
  rw [h]
  exact (cache_tell luck s input).imp_right fun hforgets => ⟨hforgets.1, .inl hforgets.2⟩

/-- A report only makes the session forget what was pushed if it is about the watch set. -/
theorem cache_receive (luck : Luck) (s : Session) (data : Bytes) :
    (s.step luck (.radio (.received data))).2.cache = s.cache ∨
      (s.step luck (.radio (.received data))).2.cache = .empty ∧
        s.Forgets luck (.radio (.received data)) := by
  show (s.receive luck (.received data)).2.cache = s.cache ∨
    (s.receive luck (.received data)).2.cache = .empty ∧ _
  unfold receive
  dsimp only
  split
  · next report hreport =>
    cases report with
    | activeWatchSet id =>
      refine .inr ⟨?_, .inr ⟨data, id, rfl, hreport⟩⟩
      show (s.activate id).cache = .empty
      obtain ⟨queue, hactivate⟩ := s.activate_eq id
      rw [hactivate]
    | callFunction index =>
      refine .inl ?_
      unfold dispatch
      dsimp only
      split <;> rfl
    | acknowledged | permission | notification => exact .inl rfl
  · exact .inl rfl

/-- What was pushed is only forgotten with a move that forgets it. -/
theorem cache_step (luck : Luck) (s : Session) (hwork : move ≠ .work) :
    (s.step luck move).2.cache = s.cache ∨
      (s.step luck move).2.cache = .empty ∧ s.Forgets luck move := by
  cases move with
  | work => exact absurd rfl hwork
  | submit job =>
    obtain ⟨queue, senders, hsubmit⟩ := s.submit_eq job
    have hcache : (s.submit job).cache = s.cache := by rw [hsubmit]
    exact .inl hcache
  | offer job =>
    obtain ⟨queue, hoffer⟩ := s.offer_eq job
    have hcache : (s.offer job).cache = s.cache := by rw [hoffer]
    exact .inl hcache
  | enter | wait | services => exact .inl rfl
  | request request =>
    cases request with
    | connect address => exact cache_told (.connect address) rfl
    | disconnect => exact cache_told .disconnect rfl
    | close => exact cache_told .close rfl
    | setAutoReconnect enabled => exact cache_told (.setAutoReconnect enabled) rfl
  | radio event =>
    cases event with
    | linkUp => exact cache_told .linkUp rfl
    | linkDown => exact cache_told .linkDown rfl
    | servicesDiscovered success => exact cache_told (.servicesDiscovered success) rfl
    | received data => exact cache_receive luck s data
  | alarm =>
    show (s.ring luck).2.cache = s.cache ∨ (s.ring luck).2.cache = .empty ∧
      ((s.isConnected = false ∧ (s.ring luck).2.isConnected = true) ∨ _)
    unfold ring
    split
    · next alarm alarms _ =>
      exact (cache_tell luck { s with alarms } alarm.input).imp_right
        fun hforgets => ⟨hforgets.1, .inl hforgets.2⟩
    · exact .inl rfl

/-! ### The active watch set -/

/-- The known watch set that becomes the active one with a move. -/
def switches? (s : Session) : Move → Option Bundle
  | .radio (.received data) =>
    match Report.decode data with
    | .ok (.activeWatchSet id) => s.services.find id
    | _ => none
  | _ => none

/-- With the report of a watch set what was pushed is forgotten, whether the watch set is known or
not. -/
theorem switched {data : Bytes} {id : UInt32} (luck : Luck)
    (hreport : Report.decode data = .ok (.activeWatchSet id)) :
    (s.step luck (.radio (.received data))).2.cache = .empty ∧
      (s.step luck (.radio (.received data))).2.active = s.switches? (.radio (.received data)) := by
  show (s.receive luck (.received data)).2.cache = .empty ∧
    (s.receive luck (.received data)).2.active = _
  simp only [receive, hreport, dispatch, switches?]
  obtain ⟨queue, hactivate⟩ := s.activate_eq id
  rw [hactivate]
  exact ⟨rfl, rfl⟩

/-- The active watch set stays with every move that is no such report. -/
theorem active_step (luck : Luck) (s : Session)
    (h : ¬ ∃ data id, move = .radio (.received data) ∧
      Report.decode data = .ok (.activeWatchSet id)) :
    (s.step luck move).2.active = s.active := by
  by_cases hwork : move = .work
  · rw [hwork]
    exact (worked_work luck s).active
  · cases move with
    | services => rfl
    | _ =>
      refine (beside_step luck hwork (fun data hmove id hreport => ?_) (by simp)).active
      exact h ⟨data, id, hmove, hreport⟩

/-! ### Nothing is left -/

/-- What was pushed is to be forgotten whenever a connection begins to be used. -/
theorem clears_of_connected {m : Lifecycle} {input : LinkInput} (hbefore : m.state ≠ .connected)
    (hafter : (m.step input).2.state = .connected) : .clearPushCache ∈ (m.step input).1 := by
  have hturn := m.turn_step input
  obtain rfl := hturn.settles hbefore hafter
  generalize m.step (.settled m.epoch) = result at hturn hafter ⊢
  cases hturn with
  | settled => simp
  | ignored => exact absurd hafter hbefore

/-- Once what was pushed is forgotten, nothing that has to be done then brings it back. -/
theorem cache_of_clears (luck : Luck) (s : Session) {directives : List Directive}
    (h : .clearPushCache ∈ directives) : (s.executeAll luck directives).2.2.cache = .empty := by
  induction directives generalizing s with
  | nil => exact absurd h List.not_mem_nil
  | cons directive rest ih =>
    rcases List.mem_cons.1 h with rfl | hrest
    · have hempty : (s.execute luck .clearPushCache).2.2.cache = .empty := rfl
      obtain hkept | hforgotten :=
        (beside_executeAll luck (s.execute luck .clearPushCache).2.2 rest).cache
      · exact hkept.trans hempty
      · exact hforgotten
    · exact ih _ hrest

/-- What has to be done makes no connection usable. -/
theorem connected_of_executeAll (luck : Luck) (s : Session) {directives : List Directive}
    (h : (s.executeAll luck directives).2.2.isConnected = true) : s.isConnected = true := by
  induction directives generalizing s with
  | nil => exact h
  | cons directive rest ih =>
    have hnext : (s.execute luck directive).2.2.isConnected = true := ih _ h
    by_cases hconnects : directive.connects = false
    · rw [isConnected, state, lifecycle_execute luck s hconnects] at hnext
      exact hnext
    · cases directive with
      | openLink | reconnect =>
        unfold execute at hnext
        dsimp only at hnext
        split at hnext
        · exact hnext
        · cases hnext
      | _ => exact absurd rfl hconnects

theorem cache_told_connected (luck : Luck) (s : Session) (input : LinkInput)
    (hbefore : s.isConnected = false) (hafter : (s.tell luck input).2.2.isConnected = true) :
    (s.tell luck input).2.2.cache = .empty := by
  have hstate : (s.lifecycle.step input).2.state = .connected :=
    of_decide_eq_true (connected_of_executeAll luck { s with
      lifecycle := (s.lifecycle.step input).2 } hafter)
  exact cache_of_clears luck _ (clears_of_connected (of_decide_eq_false hbefore) hstate)

theorem isConnected_of_lifecycle {s' : Session} (h : s'.lifecycle = s.lifecycle) :
    s'.isConnected = s.isConnected := by
  rw [isConnected, state, h]
  rfl

/-- **A connection begins to be used with nothing noted.** -/
theorem cache_of_connected (luck : Luck) (move : Move) (hbefore : s.isConnected = false)
    (hafter : (s.step luck move).2.isConnected = true) :
    (s.step luck move).2.cache = .empty := by
  have hchanged : (s.step luck move).2.lifecycle ≠ s.lifecycle := by
    intro hsame
    rw [isConnected_of_lifecycle hsame, hbefore] at hafter
    exact Bool.false_ne_true hafter
  cases move with
  | submit job =>
    obtain ⟨queue, senders, hsubmit⟩ := s.submit_eq job
    have hlifecycle : (s.submit job).lifecycle = s.lifecycle := by rw [hsubmit]
    exact absurd hlifecycle hchanged
  | offer job =>
    obtain ⟨queue, hoffer⟩ := s.offer_eq job
    have hlifecycle : (s.offer job).lifecycle = s.lifecycle := by rw [hoffer]
    exact absurd hlifecycle hchanged
  | enter | wait | services => exact absurd rfl hchanged
  | work => exact absurd (worked_work luck s).lifecycle hchanged
  | request request =>
    obtain ⟨input, htold⟩ := requested_eq luck s request
    change (s.requested luck request).2.isConnected = true at hafter
    show (s.requested luck request).2.cache = .empty
    rw [htold] at hafter ⊢
    exact cache_told_connected luck s input hbefore hafter
  | radio event =>
    change (s.receive luck event).2.isConnected = true at hafter
    change (s.receive luck event).2.lifecycle ≠ s.lifecycle at hchanged
    show (s.receive luck event).2.cache = .empty
    obtain ⟨input, htold⟩ | ⟨id, hswitched⟩ | ⟨signals, hsignals, -⟩ := receive_cases luck s event
    · rw [htold] at hafter ⊢
      exact cache_told_connected luck s input hbefore hafter
    · obtain ⟨queue, hactivate⟩ := s.activate_eq id
      rw [hswitched, hactivate]
    · rw [hsignals] at hchanged
      exact absurd rfl hchanged
  | alarm =>
    change (s.ring luck).2.isConnected = true at hafter
    change (s.ring luck).2.lifecycle ≠ s.lifecycle at hchanged
    show (s.ring luck).2.cache = .empty
    unfold ring at hafter hchanged ⊢
    cases hdue : s.alarms.takeDue? s.now with
    | some due =>
      rw [hdue] at hafter
      exact cache_told_connected luck { s with alarms := due.2 } due.1.input hbefore hafter
    | none =>
      rw [hdue] at hchanged
      exact absurd rfl hchanged

/-- **With a move that forgets what was pushed nothing of it is left.** -/
theorem cache_of_forgets (h : s.Forgets luck move) : (s.step luck move).2.cache = .empty := by
  obtain ⟨hbefore, hafter⟩ | ⟨data, id, rfl, hreport⟩ := h
  · exact cache_of_connected luck move hbefore hafter
  · exact (switched luck hreport).1

end Session

end Timepiece
