import Mathlib
import Timepiece.Proofs.Link.Reopening

/-!
# Links that are lost

When the link is lost the connection is opened again, unless the host wants it to end.  That
wish is remembered until the link is lost or a connection is asked for.  So a link that is
reported lost a second time brings back a connection that the host wanted to end.

## Main definitions

* `lastRequest?`, `sinceRequest` — what the host asked for last, and what came after it.
* `Wanted`, `MayReturn` — the host wants the connection, and it may be opened again.
* `Lifecycle.Remembers` — what the connection knows of that.
* `Lifecycle.Left` — a link that is lost now is not brought back.

## Main results

* `Lifecycle.Remembers.step`, `Lifecycle.Left.step` — what an input does to the wish for an end.
* `Lifecycle.Left.unconnected` — no connection is made when the host has left.
* `Lifecycle.lost_answer` — **when a connection whose link is lost is opened again**.
-/

namespace Timepiece

/-! ### Requests of the host -/

/-- Whether the host asks for a connection or for its end with an input. -/
def LinkInput.isRequest : LinkInput → Bool
  | .connect _ | .disconnect | .close => true
  | _ => false

/-- What the host asked for last. -/
def lastRequest? (past : List LinkInput) : Option LinkInput :=
  past.reverse.find? LinkInput.isRequest

/-- What happened since the host asked for something, the last of it first. -/
def sinceRequest (past : List LinkInput) : List LinkInput :=
  past.reverse.takeWhile fun input => !input.isRequest

section Requests

variable (past : List LinkInput) (input : LinkInput)

theorem lastRequest?_concat : lastRequest? (past ++ [input]) =
    if input.isRequest = true then some input else lastRequest? past := by
  rw [lastRequest?, List.reverse_concat, List.find?_cons]
  cases input.isRequest <;> rfl

theorem sinceRequest_concat : sinceRequest (past ++ [input]) =
    if input.isRequest = true then [] else input :: sinceRequest past := by
  rw [sinceRequest, List.reverse_concat, List.takeWhile_cons]
  cases input.isRequest <;> rfl

end Requests

/-- The host wants the connection: it was asked for last. -/
def Wanted (past : List LinkInput) : Prop := ∃ address, lastRequest? past = some (.connect address)

/-- The connection may be opened again: the host wants it, or the link was lost since the host
wanted it to end. -/
def MayReturn (past : List LinkInput) : Prop := Wanted past ∨ .linkDown ∈ sinceRequest past

theorem mayReturn_concat {past : List LinkInput} {input : LinkInput}
    (h : input.isRequest = false) :
    MayReturn (past ++ [input]) ↔ input = .linkDown ∨ MayReturn past := by
  simp only [MayReturn, Wanted, lastRequest?_concat, sinceRequest_concat, h, Bool.false_eq_true,
    if_false, List.mem_cons]
  rw [or_left_comm, eq_comm]

namespace Lifecycle

variable {m : Lifecycle} {past rest : List LinkInput} {input : LinkInput}
  {result : List Directive × Lifecycle}

/-! ### What is remembered -/

/-- While there is a handle, the wish for an end is remembered until the connection may be opened
again. -/
def Remembers (past : List LinkInput) (m : Lifecycle) : Prop :=
  m.hasHandle = true → (m.disconnectRequested = false ↔ MayReturn past)

theorem connect_disconnectRequested (m : Lifecycle) (address : String) :
    (m.connect address).2.disconnectRequested = false := by
  unfold connect
  split <;> rfl

/-- The link of a connection is reported up or lost, a pause or a discovery ends, or the host says
what is to become of lost connections: the handle and the wish for an end stay. -/
theorem stays_step (hrequest : input.isRequest = false) (hlost : input ≠ .linkDown) :
    (m.step input).2.hasHandle = m.hasHandle ∧
      (m.step input).2.disconnectRequested = m.disconnectRequested := by
  cases input with
  | connect | disconnect | close => exact nomatch hrequest
  | linkDown => exact absurd rfl hlost
  | connectFailed | linkUp | setAutoReconnect => exact ⟨rfl, rfl⟩
  | servicesDiscovered | settled | clockSyncDue =>
    unfold step
    try unfold settle
    dsimp only
    split <;> exact ⟨rfl, rfl⟩

/-- With the link the wish for an end is gone. -/
theorem lose_disconnectRequested (m : Lifecycle) : m.lose.2.disconnectRequested = false := by
  have hturn := m.turn_lose
  generalize m.lose = result at hturn
  cases hturn with
  | ignored hguarded => exact nomatch hguarded
  | gone => rfl
  | again => exact connect_disconnectRequested m.lost _

/-- **What is remembered changes with an input as the wish does.** -/
theorem Remembers.step (h : Remembers past m) : Remembers (past ++ [input]) (m.step input).2 := by
  by_cases hplain : input.isRequest = false ∧ input ≠ .linkDown
  · obtain ⟨hhandle, hrequested⟩ := m.stays_step hplain.1 hplain.2
    rw [Remembers, hhandle, hrequested, mayReturn_concat hplain.1]
    exact fun hheld => (h hheld).trans (or_iff_right hplain.2).symm
  cases input with
  | connect address =>
    have hwanted : Wanted (past ++ [.connect address]) :=
      ⟨address, lastRequest?_concat past (.connect address)⟩
    exact fun _ => iff_of_true (connect_disconnectRequested m address) (.inl hwanted)
  | linkDown =>
    have hreturns : MayReturn (past ++ [.linkDown]) := (mayReturn_concat rfl).2 (.inl rfl)
    exact fun _ => iff_of_true m.lose_disconnectRequested hreturns
  | disconnect =>
    unfold Lifecycle.step
    dsimp only
    split
    · refine fun _ => iff_of_false (by simp) ?_
      rintro (⟨address, hlast⟩ | hlost)
      · rw [lastRequest?_concat] at hlast
        exact nomatch hlast
      · rw [sinceRequest_concat] at hlost
        exact absurd hlost List.not_mem_nil
    · next hnone => exact fun hhandle => absurd hhandle hnone
  | close =>
    unfold Lifecycle.step
    dsimp only
    split
    · exact fun hhandle => nomatch hhandle
    · next hnone => exact fun hhandle => absurd hhandle hnone
  | connectFailed | linkUp | servicesDiscovered | settled | clockSyncDue | setAutoReconnect =>
    exact absurd ⟨rfl, nofun⟩ hplain

/-- After a sequence of inputs the wish for an end is remembered, if there is a handle. -/
theorem remembers_after (autoReconnect clockSync : Bool) (inputs : List LinkInput) :
    Remembers inputs ((start autoReconnect clockSync).after inputs) := by
  induction inputs using List.reverseRecOn with
  | nil => exact fun hhandle => nomatch hhandle
  | append_singleton past input ih =>
    rw [after_append, after_singleton]
    exact ih.step

/-! ### The host has left -/

/-- A connection that is lost now is not opened again: there is no handle, or the host wants an
end. -/
def Left (m : Lifecycle) : Prop := m.hasHandle = true → m.disconnectRequested = true

theorem left_disconnect (m : Lifecycle) : (m.step .disconnect).2.Left := by
  unfold Lifecycle.step
  dsimp only
  split
  · exact fun _ => rfl
  · next hnone => exact fun hhandle => absurd hhandle hnone

/-- The host stays away until a connection is asked for or the link is lost. -/
theorem Left.step (h : m.Left) (hconnect : ∀ address, input ≠ .connect address)
    (hlost : input ≠ .linkDown) : (m.step input).2.Left := by
  by_cases hrequest : input.isRequest = false
  · obtain ⟨hhandle, hrequested⟩ := m.stays_step hrequest hlost
    rw [Left, hhandle, hrequested]
    exact h
  cases input with
  | connect address => exact absurd rfl (hconnect address)
  | disconnect => exact m.left_disconnect
  | close =>
    unfold Lifecycle.step
    dsimp only
    split
    · exact fun hhandle => nomatch hhandle
    · next hnone => exact fun hhandle => absurd hhandle hnone
  | connectFailed | linkUp | servicesDiscovered | settled | clockSyncDue | setAutoReconnect
  | linkDown => exact absurd rfl hrequest

/-- A connection is only made when it is asked for, or when the link is lost. -/
theorem unconnected_step (hconnect : ∀ address, input ≠ .connect address)
    (hlost : input ≠ .linkDown) : ∀ d ∈ (m.step input).1, d.connects = false := by
  cases input with
  | connect address => exact absurd rfl (hconnect address)
  | linkDown => exact absurd rfl hlost
  | connectFailed | linkUp | setAutoReconnect => simp [Lifecycle.step, Directive.connects]
  | servicesDiscovered | clockSyncDue | disconnect | close =>
    simp only [Lifecycle.step]
    split <;> simp [Directive.connects]
  | settled =>
    simp only [Lifecycle.step, settle]
    split
    · cases m.clockSync <;> simp [Directive.connects]
    · simp

/-- A link that is lost when the host has left is not brought back. -/
theorem Left.lose (h : m.Left) (haddressed : m.Addressed) : m.lose = ([], m.lost) := by
  rw [lose_eq haddressed, if_neg]
  rintro ⟨hhandle, hagain⟩
  simp [asksAgain, h hhandle] at hagain

/-- No connection is made while none is asked for and the link is not lost. -/
theorem unconnected_of_up (hconnect : ∀ address, .connect address ∉ rest)
    (hlost : .linkDown ∉ rest) : ∀ d ∈ m.directives rest, d.connects = false := by
  induction rest using List.reverseRecOn with
  | nil => simp
  | append_singleton past input ih =>
    simp only [List.mem_append, List.mem_singleton, not_or] at hconnect hlost
    rw [directives_concat]
    intro d hmem
    rcases List.mem_append.1 hmem with hmem | hmem
    · exact ih (fun address => (hconnect address).1) hlost.1 d hmem
    · exact unconnected_step (fun address => Ne.symm (hconnect address).2) (Ne.symm hlost.2) d hmem

/-- When the host has left no connection is made before one is asked for, if the link is lost at
most once. -/
theorem Left.unconnected (h : m.Left) (haddressed : m.Addressed)
    (hconnect : ∀ address, .connect address ∉ rest) (hlost : rest.count .linkDown ≤ 1) :
    ∀ d ∈ m.directives rest, d.connects = false := by
  induction rest generalizing m with
  | nil => simp
  | cons input rest ih =>
    have hrest : ∀ address, .connect address ∉ rest := fun address hmem =>
      hconnect address (List.mem_cons_of_mem _ hmem)
    have hinput : ∀ address, input ≠ .connect address := fun address hsame =>
      hconnect address (hsame ▸ List.mem_cons_self)
    have hdirectives : m.directives (input :: rest) =
        (m.step input).1 ++ (m.step input).2.directives rest := rfl
    rw [hdirectives]
    intro d hmem
    by_cases hdown : input = .linkDown
    · -- this is the one time that the link is lost
      subst hdown
      have hno : .linkDown ∉ rest := by
        rw [List.count_cons_self] at hlost
        exact List.count_eq_zero.1 (by omega)
      have hanswer : (m.step .linkDown).1 = [] := congrArg Prod.fst (h.lose haddressed)
      rw [hanswer, List.nil_append] at hmem
      exact unconnected_of_up hrest hno d hmem
    · rcases List.mem_append.1 hmem with hmem | hmem
      · exact unconnected_step hinput hdown d hmem
      · rw [List.count_cons_of_ne (by simpa using hdown)] at hlost
        exact ih (h.step hinput hdown) (haddressed.turn (turn_step m input)) hrest hlost d hmem

/-! ### Lost links -/

/-- **When a connection whose link is lost is opened again**: if lost connections are, there is a
handle, and the host asked for a connection last or the link was already lost since its last
request.  Otherwise nothing is to be done and the connection is gone.  So between the wish for an
end and the next connection that is asked for nothing is opened, if the link is lost only once. -/
theorem lost_answer (autoReconnect clockSync : Bool) (past rest : List LinkInput) :
    let m := (start autoReconnect clockSync).after past
    (m.autoReconnect = true ∧ m.hasHandle = true ∧
        (Wanted past ∨ .linkDown ∈ sinceRequest past) →
      (m.step .linkDown).1 = [.reconnect] ∧ (m.step .linkDown).2.address = m.address ∧
        (m.step .linkDown).2.state = .connecting) ∧
    (¬ (m.autoReconnect = true ∧ m.hasHandle = true ∧
        (Wanted past ∨ .linkDown ∈ sinceRequest past)) →
      (m.step .linkDown).1 = [] ∧ (m.step .linkDown).2.state = .disconnected) ∧
    ((∀ address, .connect address ∉ rest) → rest.count .linkDown ≤ 1 →
      ∀ d ∈ (m.after [.disconnect]).directives rest, d.connects = false) := by
  intro m
  have haddressed : m.Addressed :=
    addressed_after autoReconnect clockSync past
  have hremembers : Remembers past m := remembers_after autoReconnect clockSync past
  have hagain : m.hasHandle = true ∧ m.asksAgain .linkDown = true ↔
      m.autoReconnect = true ∧ m.hasHandle = true ∧
        (Wanted past ∨ .linkDown ∈ sinceRequest past) := by
    simp only [asksAgain, Bool.and_eq_true, Bool.not_eq_true']
    constructor
    · rintro ⟨hhandle, hauto, hrequested⟩
      exact ⟨hauto, hhandle, (hremembers hhandle).1 hrequested⟩
    · rintro ⟨hauto, hhandle, hreturns⟩
      exact ⟨hhandle, hauto, (hremembers hhandle).2 hreturns⟩
  have hstep : m.step .linkDown = m.lose := rfl
  rw [← hagain, hstep, lose_eq haddressed]
  refine ⟨fun h => ?_, fun h => ?_, fun hconnect hlost => ?_⟩
  · rw [if_pos h]
    exact ⟨rfl, rfl, rfl⟩
  · rw [if_neg h]
    exact ⟨rfl, rfl⟩
  · exact m.left_disconnect.unconnected (haddressed.turn (turn_step m .disconnect)) hconnect hlost

/-- The host wants an end, the link is lost, and the connection is asked for again before its link
is lost once more. -/
theorem lost_answer_wanted :
    let past : List LinkInput := [.connect "C4:7C:8D:6A:10:02", .linkUp, .disconnect, .linkDown,
      .connect "C4:7C:8D:6A:10:02", .linkUp]
    Wanted past ∧ (((start true false).after past).step .linkDown).1 = [.reconnect] ∧
      ∀ d ∈ (((start true false).after past).after [.disconnect]).directives
        [.linkDown, .linkUp, .servicesDiscovered true], d.connects = false := by
  intro past
  have hwanted : Wanted past := ⟨"C4:7C:8D:6A:10:02", rfl⟩
  obtain ⟨hagain, -, hquiet⟩ := lost_answer true false past
    [.linkDown, .linkUp, .servicesDiscovered true]
  exact ⟨hwanted, (hagain ⟨by decide +kernel, by decide +kernel, .inl hwanted⟩).1,
    hquiet (by simp) (by decide)⟩

/-- A connection that the host wanted to end comes back when its link is reported lost twice. -/
theorem returns_unwanted :
    ¬ ∀ (autoReconnect clockSync : Bool) (past rest : List LinkInput),
      let m := (start autoReconnect clockSync).after past
      (m.autoReconnect = true ∧ m.hasHandle = true ∧ Wanted past →
        (m.step .linkDown).1 = [.reconnect] ∧ (m.step .linkDown).2.address = m.address ∧
          (m.step .linkDown).2.state = .connecting) ∧
      (¬ (m.autoReconnect = true ∧ m.hasHandle = true ∧ Wanted past) →
        (m.step .linkDown).1 = [] ∧ (m.step .linkDown).2.state = .disconnected) ∧
      ((∀ address, .connect address ∉ rest) →
        ∀ d ∈ (m.after [.disconnect]).directives rest, d.connects = false) := by
  intro h
  let past : List LinkInput :=
    [.connect "C4:7C:8D:6A:10:02", .linkUp, .disconnect, .linkDown]
  have hunwanted : ¬ Wanted past := by
    rintro ⟨address, hlast⟩
    exact nomatch hlast
  obtain ⟨hanswer, -⟩ := (h true false past []).2.1 fun hall => hunwanted hall.2.2
  exact absurd hanswer (by decide +kernel)

end Lifecycle

end Timepiece
