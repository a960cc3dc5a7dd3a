import Mathlib
import Timepiece.Proofs.Link.Handles

/-!
# Connections that are opened again

A connection for which there is a handle is opened again through it: when it is asked for a
second time, and when its link is lost without the host having asked for that.

The handle counts as held from the moment at which a connection is opened, whether that
succeeds or not, so that after a failure the radio may be asked to use a handle that it never
had.

## Main definitions

* `Trial`, `Lifecycle.history` — inputs and directives, with whether the connection could be
  started.
* `radioHandle`, `OpenedLast` — the handle that the radio has, and how it came to have it.
* `Lifecycle.asksAgain` — the inputs with which the same connection is asked for again.
* `Lifecycle.Abandoned` — a connection that could not be opened is not asked for again.

## Main results

* `Lifecycle.reconnect_mem_iff` — when a connection is opened again.
* `Lifecycle.radioHandle_history` — **the handle of a connection is the one that the radio was
  told to open last**.
* `Lifecycle.reopens_iff_abandoned` — a connection is only opened again through a handle that
  the radio has exactly if those that could not be opened are not asked for again.
-/

namespace Timepiece

/-! ### Handles of the radio -/

/-- Whether a connection is made with a directive. -/
def Directive.connects : Directive → Bool
  | .openLink _ | .reconnect => true
  | _ => false

/-- Whether the radio gets a handle with a directive, or loses one. -/
def Directive.handles : Directive → Bool
  | .openLink _ | .close => true
  | _ => false

/-- What happens to the handle of the radio with a directive. -/
def Directive.held (held : Option (String × Bool)) : Directive × Bool → Option (String × Bool)
  | (.openLink address, started) => some (address, started)
  | (.close, _) => none
  | _ => held

/-- The handle that the radio has after some directives: the address that it is for, and
whether it could be opened. -/
def radioHandle (log : List (Directive × Bool)) : Option (String × Bool) :=
  log.foldl Directive.held none

/-- The connection that was opened last is one to the address, it could be started or not, and
its handle was not given back since. -/
def OpenedLast (log : List (Directive × Bool)) (address : String) (started : Bool) : Prop :=
  ∃ earlier later, log = earlier ++ (.openLink address, started) :: later ∧
    ∀ done ∈ later, done.1.handles = false

section Radio

variable {log more : List (Directive × Bool)} {held : Option (String × Bool)} {address : String}
  {started : Bool}

theorem foldl_held_of_unhandled (h : ∀ done ∈ more, done.1.handles = false) :
    more.foldl Directive.held held = held := by
  induction more with
  | nil => rfl
  | cons done rest ih =>
    obtain ⟨directive, result⟩ := done
    have hstay : Directive.held held (directive, result) = held := by
      have hdirective := h (directive, result) List.mem_cons_self
      cases directive with
      | openLink | close => exact nomatch hdirective
      | _ => rfl
    rw [List.foldl_cons, hstay]
    exact ih fun done hmem => h done (List.mem_cons_of_mem _ hmem)

theorem radioHandle_append_of_unhandled (h : ∀ done ∈ more, done.1.handles = false) :
    radioHandle (log ++ more) = radioHandle log := by
  rw [radioHandle, List.foldl_append]
  exact foldl_held_of_unhandled h

/-- The radio has the handle that was opened last and not given back. -/
theorem openedLast_iff : OpenedLast log address started ↔
    radioHandle log = some (address, started) := by
  constructor
  · rintro ⟨earlier, later, rfl, hlater⟩
    rw [List.append_cons, radioHandle_append_of_unhandled hlater, radioHandle,
      List.foldl_append]
    rfl
  · intro h
    -- from the last directive back
    induction log using List.reverseRecOn with
    | nil => exact nomatch h
    | append_singleton log done ih =>
      obtain ⟨directive, result⟩ := done
      by_cases hdirective : directive.handles = true
      · rw [radioHandle, List.foldl_append] at h
        cases directive with
        | openLink other =>
          obtain ⟨rfl, rfl⟩ := Prod.mk.inj (Option.some.inj h)
          exact ⟨log, [], rfl, by simp⟩
        | close => exact nomatch h
        | _ => exact nomatch hdirective
      · have hunhandled : ∀ done ∈ [(directive, result)], done.1.handles = false := by
          simpa using hdirective
        rw [radioHandle_append_of_unhandled hunhandled] at h
        obtain ⟨earlier, later, rfl, hlater⟩ := ih h
        refine ⟨earlier, later ++ [(directive, result)], by simp, fun done hmem => ?_⟩
        rcases List.mem_append.1 hmem with hmem | hmem
        · exact hlater done hmem
        · exact hunhandled done hmem

end Radio

/-! ### Trials -/

/-- An input, and whether a connection that is opened with it can be started. -/
structure Trial where
  input : LinkInput
  starts : Bool
  deriving DecidableEq, Repr

namespace Lifecycle

/-- The connection after some trials. -/
def reached (m : Lifecycle) (trials : List Trial) : Lifecycle := m.after (trials.map Trial.input)

/-- What had to be done during some trials, with whether it could be started. -/
def history (m : Lifecycle) : List Trial → List (Directive × Bool)
  | [] => []
  | trial :: rest =>
    (m.step trial.input).1.map (·, trial.starts) ++ (m.step trial.input).2.history rest

variable {m : Lifecycle} {input : LinkInput} {past : List Trial} {trial : Trial}

@[simp] theorem reached_concat (m : Lifecycle) (past : List Trial) (trial : Trial) :
    m.reached (past ++ [trial]) = ((m.reached past).step trial.input).2 := by
  simp [reached]

theorem history_append (m : Lifecycle) (past rest : List Trial) :
    m.history (past ++ rest) = m.history past ++ (m.reached past).history rest := by
  induction past generalizing m with
  | nil => rfl
  | cons trial past ih =>
    rw [List.cons_append, history, history, ih, List.append_assoc]
    rfl

theorem history_concat (m : Lifecycle) (past : List Trial) (trial : Trial) :
    m.history (past ++ [trial]) =
      m.history past ++ ((m.reached past).step trial.input).1.map (·, trial.starts) := by
  rw [history_append, history, history, List.append_nil]

/-! ### Asking again -/

/-- Whether the same connection is asked for again with an input. -/
def asksAgain (m : Lifecycle) : LinkInput → Bool
  | .connect address => m.address = some address
  | .linkDown => m.autoReconnect && !m.disconnectRequested
  | _ => false

/-- When its link is lost, a connection is opened again or it is gone. -/
theorem lose_eq (h : m.Addressed) : m.lose =
    if m.hasHandle = true ∧ m.asksAgain .linkDown = true then
      ([.reconnect], { m.lost with state := .connecting })
    else ([], m.lost) := by
  obtain ⟨state, address, hasHandle, autoReconnect, clockSync, requested, epoch⟩ := m
  have haddress : hasHandle = true → address.isSome = true := h
  cases hasHandle <;> cases autoReconnect <;> cases requested <;> try rfl
  -- what is left is the connection that is opened again
  obtain ⟨address, rfl⟩ := Option.isSome_iff_exists.1 (haddress rfl)
  simp [lose, lost, connect, asksAgain]

/-- A connection is opened again if there is a handle and the same connection is asked for. -/
theorem reconnect_mem_iff (h : m.Addressed) :
    .reconnect ∈ (m.step input).1 ↔ m.hasHandle = true ∧ m.asksAgain input = true := by
  cases input with
  | connect address =>
    show .reconnect ∈ (m.connect address).1 ↔ _
    rw [connect, asksAgain]
    split <;> simp_all
  | linkDown =>
    show .reconnect ∈ m.lose.1 ↔ _
    rw [lose_eq h]
    split <;> simp_all
  | connectFailed | linkUp | setAutoReconnect => simp [step, asksAgain]
  | servicesDiscovered | clockSyncDue | disconnect | close =>
    simp only [step, asksAgain]
    split <;> simp
  | settled epoch =>
    simp only [step, settle, asksAgain]
    split <;> cases m.clockSync <;> simp

/-! ### The handle of a connection -/

/-- The address for which a connection has a handle. -/
def handle? (m : Lifecycle) : Option String := if m.hasHandle = true then m.address else none

variable {result : List Directive × Lifecycle} {radio : Option (String × Bool)} {started : Bool}

/-- The directives of an input do to the handle of the radio what the input does to the handle
of the connection. -/
theorem Turn.handle (h : m.Turn input result) (hradio : radio.map Prod.fst = m.handle?) :
    ((result.1.map (·, started)).foldl Directive.held radio).map Prod.fst = result.2.handle? := by
  have stays {directives : List Directive} (hnone : ∀ d ∈ directives, d.handles = false) :
      ((directives.map (·, started)).foldl Directive.held radio).map Prod.fst = m.handle? := by
    rw [foldl_held_of_unhandled (by simpa using hnone), hradio]
  cases h with
  | asked =>
    unfold connect
    split
    · exact stays (by simp [Directive.handles])
    · rfl
  | again _ _ hhandle haddress =>
    have hagain : m.lost.hasHandle = true ∧ m.lost.address = some _ := ⟨hhandle, haddress⟩
    rw [connect, if_pos hagain]
    exact stays (by simp [Directive.handles])
  | closed => rfl
  | settled =>
    refine stays ?_
    cases m.clockSync <;> simp [Directive.handles]
  | ignored | failed | up | discovered | due | gone | ending | chosen =>
    exact stays (by simp [Directive.handles])

theorem addressed_after (autoReconnect clockSync : Bool) (inputs : List LinkInput) :
    ((start autoReconnect clockSync).after inputs).Addressed := by
  induction inputs using List.reverseRecOn with
  | nil => exact addressed_start autoReconnect clockSync
  | append_singleton past input ih =>
    rw [after_append, after_singleton]
    exact ih.turn (turn_step _ input)

theorem addressed_reached (autoReconnect clockSync : Bool) (trials : List Trial) :
    ((start autoReconnect clockSync).reached trials).Addressed :=
  addressed_after autoReconnect clockSync _

/-- **The handle of a connection is the one that the radio was told to open last**, whether that
succeeded or not. -/
theorem radioHandle_history (autoReconnect clockSync : Bool) (trials : List Trial) :
    (radioHandle ((start autoReconnect clockSync).history trials)).map Prod.fst =
      ((start autoReconnect clockSync).reached trials).handle? := by
  induction trials using List.reverseRecOn with
  | nil => rfl
  | append_singleton past trial ih =>
    rw [history_concat, reached_concat, radioHandle, List.foldl_append]
    exact (turn_step _ trial.input).handle ih

/-- When a connection is opened again, the one that was opened last was to its address, and its
handle was not given back. -/
theorem openedLast_of_reconnect {autoReconnect clockSync : Bool}
    (h : .reconnect ∈ (((start autoReconnect clockSync).reached past).step input).1) :
    ∃ address started, ((start autoReconnect clockSync).reached past).address = some address ∧
      OpenedLast ((start autoReconnect clockSync).history past) address started := by
  have haddressed := addressed_reached autoReconnect clockSync past
  have hhandle := ((reconnect_mem_iff haddressed).1 h).1
  obtain ⟨address, haddress⟩ := Option.isSome_iff_exists.1 (haddressed hhandle)
  have hradio := radioHandle_history autoReconnect clockSync past
  rw [handle?, if_pos hhandle, haddress] at hradio
  obtain ⟨⟨opened, started⟩, hopened, hsame⟩ := Option.map_eq_some_iff.1 hradio
  obtain rfl : opened = address := hsame
  exact ⟨opened, started, haddress, openedLast_iff.2 hopened⟩

/-- A connection that could not be opened is not asked for again before another one is opened or
its handle is given back. -/
def Abandoned (m : Lifecycle) : List Trial → Prop :=
  Throughout fun past trial => ∀ address, OpenedLast (m.history past) address false →
    (m.reached past).asksAgain trial.input = false

/-- A connection that cannot be started is told so before anything else happens. -/
def Reported (m : Lifecycle) : List Trial → Prop :=
  Throughout fun past trial => ∀ last, past.getLast? = some last → last.starts = false →
    (∃ d ∈ ((m.reached past.dropLast).step last.input).1, d.connects = true) →
      trial.input = .connectFailed

/-- **A connection is only opened again through the handle that was opened for it last**, and
not given back since.  That the handle could be opened is true of every connection that is opened
again exactly if those that could not be opened are not asked for again. -/
theorem reopens_iff_abandoned (autoReconnect clockSync : Bool) (trials : List Trial) :
    (∀ past trial, past ++ [trial] <+: trials →
      .reconnect ∈ (((start autoReconnect clockSync).reached past).step trial.input).1 →
        ∃ address started, ((start autoReconnect clockSync).reached past).address = some address ∧
          OpenedLast ((start autoReconnect clockSync).history past) address started) ∧
    ((∀ past trial, past ++ [trial] <+: trials →
      .reconnect ∈ (((start autoReconnect clockSync).reached past).step trial.input).1 →
        ∃ address, ((start autoReconnect clockSync).reached past).address = some address ∧
          OpenedLast ((start autoReconnect clockSync).history past) address true) ↔
      (start autoReconnect clockSync).Abandoned trials) := by
  refine ⟨fun past trial _ h => openedLast_of_reconnect h, fun hopened => ?_, fun habandoned => ?_⟩
  · intro past trial hinit address hfailed
    by_contra hasks
    rw [Bool.not_eq_false] at hasks
    have haddressed := addressed_reached autoReconnect clockSync past
    -- the handle counts as held although it could not be opened
    have hhandle : ((start autoReconnect clockSync).reached past).hasHandle = true := by
      have hradio := radioHandle_history autoReconnect clockSync past
      rw [openedLast_iff.1 hfailed, handle?] at hradio
      by_contra hnone
      rw [if_neg hnone] at hradio
      exact nomatch hradio
    obtain ⟨other, -, hother⟩ :=
      hopened past trial hinit ((reconnect_mem_iff haddressed).2 ⟨hhandle, hasks⟩)
    rw [openedLast_iff] at hfailed hother
    rw [hfailed] at hother
    exact nomatch hother
  · intro past trial hinit h
    obtain ⟨address, started, haddress, hopened⟩ := openedLast_of_reconnect h
    cases started with
    | true => exact ⟨address, haddress, hopened⟩
    | false =>
      have hasks := ((reconnect_mem_iff (addressed_reached _ _ past)).1 h).2
      exact absurd hasks (by simp [habandoned past trial hinit address hopened])

/-- A connection that could not be opened is given up for another one, whose link is lost. -/
theorem reopens_iff_abandoned_other :
    let past : List Trial := [⟨.connect "C4:7C:8D:6A:10:02", false⟩, ⟨.connectFailed, true⟩,
      ⟨.connect "00:11:22:33:44:55", true⟩, ⟨.linkUp, true⟩]
    (start true false).Abandoned (past ++ [⟨.linkDown, true⟩]) ∧
      OpenedLast ((start true false).history past) "00:11:22:33:44:55" true := by
  intro past
  have habandoned : (start true false).Abandoned (past ++ [⟨.linkDown, true⟩]) := by
    simp [past, Abandoned, throughout_cons, throughout_nil, openedLast_iff, radioHandle,
      Directive.held, history, reached, after, run, step, connect, asksAgain, start]
  obtain ⟨address, haddress, hopened⟩ := ((reopens_iff_abandoned true false _).2.2 habandoned)
    past _ (List.prefix_refl _) (by decide +kernel)
  obtain rfl : "00:11:22:33:44:55" = address := Option.some.inj haddress
  exact ⟨habandoned, hopened⟩

/-- A connection may be opened again through a handle that the radio never had: the first time it
was asked for it could not be opened. -/
theorem reopens_unopened :
    ¬ ∀ (autoReconnect clockSync : Bool) (trials past : List Trial) (trial : Trial),
      (start autoReconnect clockSync).Reported trials → past ++ [trial] <+: trials →
      .reconnect ∈ (((start autoReconnect clockSync).reached past).step trial.input).1 →
        ∃ address, ((start autoReconnect clockSync).reached past).address = some address ∧
          OpenedLast ((start autoReconnect clockSync).history past) address true := by
  intro h
  let failed : List Trial := [⟨.connect "C4:7C:8D:6A:10:02", false⟩, ⟨.connectFailed, true⟩]
  let again : Trial := ⟨.connect "C4:7C:8D:6A:10:02", true⟩
  have hreported : (start true false).Reported (failed ++ [again]) := by
    simp [failed, again, Reported, throughout_cons, throughout_nil]
  obtain ⟨address, -, hopened⟩ :=
    h true false _ failed again hreported (List.prefix_refl _) (by decide +kernel)
  rw [openedLast_iff] at hopened
  have hfailed : radioHandle ((start true false).history failed) =
      some ("C4:7C:8D:6A:10:02", false) := by decide +kernel
  rw [hfailed] at hopened
  exact nomatch hopened

end Lifecycle

end Timepiece
