import Mathlib
import Timepiece.Link.Lifecycle
import Timepiece.Proofs.Link.Histories

/-!
# Connections over time

What has become of a connection after some inputs, and what had to be done meanwhile, is
followed from input to input.  What a single input can do is said here once; everything
about runs is derived from it.

## Main definitions

* `Lifecycle.after` — the connection after some inputs.
* `Lifecycle.directives` — what had to be done meanwhile.
* `LinkInput.begins` — the inputs with which a new handshake begins.
* `Lifecycle.Turn` — what an input can do to a connection.

## Main results

* `Lifecycle.turn_step` — **an input does one of these things**.
* `Lifecycle.Turn.epoch` — the epoch stays, or is counted up by one.
* `Lifecycle.Turn.schedules` — which inputs begin a pause.
* `Lifecycle.Turn.settles` — **a connection settles only when a pause of the present epoch
  ends**.
-/

namespace Timepiece

/-- Whether a new handshake begins with an input: a connection is asked for, or the link
comes up. -/
def LinkInput.begins : LinkInput → Bool
  | .connect _ => true
  | .linkUp => true
  | _ => false

/-- Whether an input can come at the wrong time, and is ignored then. -/
def LinkInput.guarded : LinkInput → Bool
  | .servicesDiscovered _ | .settled _ | .clockSyncDue _ | .disconnect | .close => true
  | _ => false

namespace Lifecycle

/-! ### One input -/

section Step

variable (m : Lifecycle) (input : LinkInput)

theorem connect_epoch (address : String) : (m.connect address).2.epoch = m.epoch := by
  unfold connect
  split <;> rfl

theorem connect_state (address : String) : (m.connect address).2.state = .connecting := by
  unfold connect
  split <;> rfl

/-- The directives with which a handshake begins begin no pause. -/
theorem not_schedules_connect {address : String} {epoch : Nat} :
    .scheduleSettle epoch ∉ (m.connect address).1 ∧
      .scheduleClockSync epoch ∉ (m.connect address).1 := by
  unfold connect
  split <;> simp

/-- The connection when the link is lost. -/
def lost : Lifecycle :=
  { m with state := .disconnected, epoch := m.epoch + 1, disconnectRequested := false }

/-- What an input can do to a connection. -/
inductive Turn : LinkInput → List Directive × Lifecycle → Prop
  | ignored {input : LinkInput} : input.guarded = true → Turn input ([], m)
  | asked {address : String} : Turn (.connect address) (m.connect address)
  | failed : Turn .connectFailed ([], { m with state := .disconnected })
  | up : Turn .linkUp ([.discover], { m with state := .discovering })
  | discovered : m.state = .discovering →
    Turn (.servicesDiscovered true) ([.scheduleSettle m.epoch], m)
  | settled : m.state = .discovering → Turn (.settled m.epoch)
    (.armNotifications :: .clearPushCache ::
      (if m.clockSync then [.scheduleClockSync m.epoch] else []), { m with state := .connected })
  | due : m.state = .connected → Turn (.clockSyncDue m.epoch) ([.syncClock], m)
  | gone : Turn .linkDown ([], m.lost)
  /-- A connection that is lost is asked for again. -/
  | again {address : String} : m.disconnectRequested = false → m.autoReconnect = true →
    m.hasHandle = true → m.address = some address → Turn .linkDown (m.lost.connect address)
  | ending : m.hasHandle = true →
    Turn .disconnect ([.disconnect], { m with disconnectRequested := true })
  | closed : m.hasHandle = true → Turn .close
    ([.close], { m with hasHandle := false, state := .disconnected, epoch := m.epoch + 1 })
  | chosen {enabled : Bool} :
    Turn (.setAutoReconnect enabled) ([], { m with autoReconnect := enabled })

/-- A connection that is lost is gone, or it is asked for again. -/
theorem turn_lose : m.Turn .linkDown m.lose := by
  unfold lose
  dsimp only
  split
  · exact .gone
  · next hagain =>
    simp only [not_or, Bool.not_eq_true, Bool.not_eq_false'] at hagain
    obtain ⟨hrequested, hauto, hhandle⟩ := hagain
    split
    · next address haddress => exact .again hrequested hauto hhandle haddress
    · exact .gone

/-- **An input does one of these things.** -/
theorem turn_step : m.Turn input (m.step input) := by
  cases input with
  | connect address => exact .asked
  | connectFailed => exact .failed
  | linkUp => exact .up
  | linkDown => exact m.turn_lose
  | setAutoReconnect enabled => exact .chosen
  | servicesDiscovered success =>
    unfold step
    dsimp only
    split
    · next hfound =>
      obtain ⟨rfl, hstate⟩ := hfound
      exact .discovered hstate
    · exact .ignored rfl
  | settled epoch =>
    unfold step settle
    dsimp only
    split
    · next hsettles =>
      obtain ⟨rfl, hstate⟩ := hsettles
      exact .settled hstate
    · exact .ignored rfl
  | clockSyncDue epoch =>
    unfold step
    dsimp only
    split
    · next hdue =>
      obtain ⟨rfl, hstate⟩ := hdue
      exact .due hstate
    · exact .ignored rfl
  | disconnect =>
    unfold step
    dsimp only
    split
    · next hhandle => exact .ending hhandle
    · exact .ignored rfl
  | close =>
    unfold step
    dsimp only
    split
    · next hhandle => exact .closed hhandle
    · exact .ignored rfl

variable {m input} {result : List Directive × Lifecycle}

/-- The epoch stays, or is counted up by one; when the link is lost it is counted up. -/
theorem Turn.epoch (h : m.Turn input result) :
    input ≠ .linkDown ∧ result.2.epoch = m.epoch ∨ result.2.epoch = m.epoch + 1 := by
  cases h with
  | ignored hguarded =>
    refine .inl ⟨?_, rfl⟩
    rintro rfl
    exact nomatch hguarded
  | asked => exact .inl ⟨nofun, connect_epoch m _⟩
  | again => exact .inr (connect_epoch m.lost _)
  | gone | closed => exact .inr rfl
  | _ => exact .inl ⟨nofun, rfl⟩

theorem epoch_le_step (m : Lifecycle) (input : LinkInput) : m.epoch ≤ (m.step input).2.epoch := by
  have := (m.turn_step input).epoch
  omega

/-- A pause is begun by a discovery, and by the end of a pause of the present epoch, and it
is of the present epoch, which stays. -/
theorem Turn.schedules {epoch : Nat} (h : m.Turn input result)
    (hmem : .scheduleSettle epoch ∈ result.1 ∨ .scheduleClockSync epoch ∈ result.1) :
    epoch = m.epoch ∧ result.2.epoch = m.epoch ∧
      (input = .servicesDiscovered true ∧ result.1 = [.scheduleSettle m.epoch] ∨
        input = .settled m.epoch) := by
  cases h with
  | discovered hstate => simpa using hmem
  | settled hstate =>
    cases hclock : m.clockSync <;> simp [hclock] at hmem ⊢
    exact hmem
  | asked | again =>
    rcases hmem with hmem | hmem
    · exact absurd hmem (not_schedules_connect _).1
    · exact absurd hmem (not_schedules_connect _).2
  | _ => simp at hmem

/-- **A connection settles only when a pause of the present epoch ends.** -/
theorem Turn.settles (h : m.Turn input result) (hbefore : m.state ≠ .connected)
    (hafter : result.2.state = .connected) : input = .settled m.epoch := by
  cases h with
  | settled => rfl
  | asked | again =>
    rw [connect_state] at hafter
    exact nomatch hafter
  | failed | up | gone | closed => exact nomatch hafter
  | ignored | discovered | due | ending | chosen => exact absurd hafter hbefore

end Step

/-! ### Sequences of inputs -/

/-- The connection after some inputs. -/
def after (m : Lifecycle) (inputs : List LinkInput) : Lifecycle := (m.run inputs).2

/-- What had to be done during some inputs. -/
def directives (m : Lifecycle) (inputs : List LinkInput) : List Directive :=
  (m.run inputs).1.flatten

variable {m : Lifecycle} {inputs past rest : List LinkInput} {input : LinkInput}

@[simp] theorem after_nil (m : Lifecycle) : m.after [] = m := rfl

@[simp] theorem after_append (m : Lifecycle) (past rest : List LinkInput) :
    m.after (past ++ rest) = (m.after past).after rest := by
  rw [after, run_append]
  rfl

@[simp] theorem after_singleton (m : Lifecycle) (input : LinkInput) :
    m.after [input] = (m.step input).2 := rfl

@[simp] theorem directives_nil (m : Lifecycle) : m.directives [] = [] := rfl

@[simp] theorem directives_concat (m : Lifecycle) (past : List LinkInput) (input : LinkInput) :
    m.directives (past ++ [input]) = m.directives past ++ ((m.after past).step input).1 := by
  rw [directives, run_append, List.flatten_append]
  simp [directives, after, run]

end Lifecycle

end Timepiece
