import Mathlib
import Timepiece.Proofs.Link.LifecycleRuns

/-!
# Handshakes and the pauses in them

A handshake ends when the pause after a discovery is over.  The pause carries the number
of the epoch in which it was begun, and the epoch is counted up when the link is lost or
given up, so that a pause never completes the handshake of a later epoch.  Within one
epoch it may: a connection that is asked for, or a link that comes up, while a pause goes on
begins a handshake that the pause completes without a discovery of its own.

## Main definitions

* `Lifecycle.HandedOut` — a pause of an epoch was begun.
* `Lifecycle.Timely` — only pauses end that were begun.
* `Lifecycle.Unhurried` — no handshake begins in an epoch in which a pause was begun.
* `Lifecycle.Discovered` — there was a discovery, and nothing of some kind after it.

## Main results

* `Lifecycle.discovered_of_connects` — **a connection settles only after a discovery of the
  present epoch**, and of the present handshake if the inputs are unhurried.
* `Lifecycle.connects_of_hurried` — where they are not, a pause may complete the handshake
  without a discovery.
-/

namespace Timepiece

namespace Lifecycle

/-- A pause of the epoch was begun during the inputs. -/
def HandedOut (m : Lifecycle) (past : List LinkInput) (epoch : Nat) : Prop :=
  .scheduleSettle epoch ∈ m.directives past ∨ .scheduleClockSync epoch ∈ m.directives past

/-- Only pauses end that were begun before. -/
def Timely (m : Lifecycle) : List LinkInput → Prop :=
  Throughout fun past input =>
    ∀ epoch, input = .settled epoch ∨ input = .clockSyncDue epoch → m.HandedOut past epoch

/-- No handshake begins in an epoch in which a pause was begun: the link is lost or given up
before. -/
def Unhurried (m : Lifecycle) : List LinkInput → Prop :=
  Throughout fun past input => input.begins = true → ¬ m.HandedOut past (m.after past).epoch

/-- The services were discovered in the epoch that the connection is in after the inputs,
and a pause was begun for that; since then the link was not lost, and none of the inputs was
of the given kind. -/
def Discovered (m : Lifecycle) (kind : LinkInput → Prop) (inputs : List LinkInput) : Prop :=
  ∃ earlier later, inputs = earlier ++ .servicesDiscovered true :: later ∧
    ((m.after earlier).step (.servicesDiscovered true)).1 =
      [.scheduleSettle (m.after inputs).epoch] ∧
    .linkDown ∉ later ∧ ∀ input ∈ later, ¬ kind input

variable {m : Lifecycle} {inputs past : List LinkInput} {input : LinkInput} {epoch : Nat}
  {kind : LinkInput → Prop}

/-! ### One input -/

/-- A pause was begun before an input, or is begun by it. -/
theorem handedOut_concat :
    m.HandedOut (past ++ [input]) epoch ↔ m.HandedOut past epoch ∨
      (.scheduleSettle epoch ∈ ((m.after past).step input).1 ∨
        .scheduleClockSync epoch ∈ ((m.after past).step input).1) := by
  rw [HandedOut, HandedOut, directives_concat, List.mem_append, List.mem_append]
  exact or_or_or_comm

/-- A discovery stays one of the present epoch while the epoch stays. -/
theorem Discovered.concat (h : m.Discovered kind past)
    (hepoch : (m.after (past ++ [input])).epoch = (m.after past).epoch) (hkind : ¬ kind input) :
    m.Discovered kind (past ++ [input]) := by
  obtain ⟨earlier, later, rfl, hanswer, hdown, hlater⟩ := h
  refine ⟨earlier, later ++ [input], by simp, by rw [hepoch]; exact hanswer, ?_, ?_⟩
  · rintro hmem
    rcases List.mem_append.1 hmem with hmem | hmem
    · exact hdown hmem
    · -- a lost link has a new epoch
      obtain rfl := List.mem_singleton.1 hmem
      rw [after_append, after_singleton] at hepoch
      obtain ⟨hother, -⟩ | hnext :=
        ((m.after (earlier ++ .servicesDiscovered true :: later)).turn_step .linkDown).epoch
      · exact hother rfl
      · omega
  · intro other hmem
    rcases List.mem_append.1 hmem with hmem | hmem
    · exact hlater other hmem
    · exact List.mem_singleton.1 hmem ▸ hkind

/-! ### Sequences of inputs -/

/-- No pause of a later epoch was begun. -/
theorem HandedOut.le_epoch (h : m.HandedOut past epoch) : epoch ≤ (m.after past).epoch := by
  induction past using List.reverseRecOn with
  | nil => rcases h with h | h <;> exact absurd h List.not_mem_nil
  | append_singleton past input ih =>
    rw [after_append, after_singleton]
    rcases handedOut_concat.1 h with hbefore | hnow
    · exact (ih hbefore).trans ((m.after past).epoch_le_step input)
    · obtain ⟨rfl, hepoch, -⟩ := ((m.after past).turn_step input).schedules hnow
      exact hepoch.ge

/-- Where a pause of the present epoch was begun, there was a discovery in it, and no input
of a kind that only comes in epochs without a pause. -/
theorem discovered_of_handedOut (htimely : m.Timely inputs)
    (hkind : Throughout (fun past input => kind input → ¬ m.HandedOut past (m.after past).epoch)
      inputs) :
    m.HandedOut inputs (m.after inputs).epoch → m.Discovered kind inputs := by
  refine (htimely.and hkind).induct (P := fun past =>
    m.HandedOut past (m.after past).epoch → m.Discovered kind past) ?_ ?_
  · rintro (h | h) <;> exact absurd h List.not_mem_nil
  · rintro past input ⟨hbegun, hkind⟩ ih hout
    have hafter : m.after (past ++ [input]) = ((m.after past).step input).2 := by
      rw [after_append, after_singleton]
    -- the epoch stays: no pause of a new one can have been begun
    have hepoch : (m.after (past ++ [input])).epoch = (m.after past).epoch := by
      rcases handedOut_concat.1 hout with hbefore | hnow
      · have hle := hbefore.le_epoch
        have hge := (m.after past).epoch_le_step input
        rw [← hafter] at hge
        omega
      · rw [hafter]
        exact (((m.after past).turn_step input).schedules hnow).2.1
    rw [hepoch] at hout
    have extend (hbefore : m.HandedOut past (m.after past).epoch) :
        m.Discovered kind (past ++ [input]) :=
      (ih hbefore).concat hepoch fun hinput => hkind hinput hbefore
    rcases handedOut_concat.1 hout with hbefore | hnow
    · exact extend hbefore
    · obtain ⟨-, -, ⟨rfl, hanswer⟩ | rfl⟩ := ((m.after past).turn_step input).schedules hnow
      · refine ⟨past, [], rfl, by rw [hepoch]; exact hanswer, List.not_mem_nil, ?_⟩
        exact fun _ hmem => absurd hmem List.not_mem_nil
      · -- the pause that ends now was begun before
        exact extend (hbegun _ (.inl rfl))

/-- **A connection settles only after a discovery of the present epoch.**  If moreover no
handshake begins in an epoch in which a pause was begun, the discovery came after the last
connection that was asked for and after the link came up last. -/
theorem discovered_of_connects {autoReconnect clockSync : Bool} {inputs past : List LinkInput}
    {input : LinkInput} (htimely : (start autoReconnect clockSync).Timely inputs)
    (hinit : past ++ [input] <+: inputs)
    (hbefore : ((start autoReconnect clockSync).after past).state ≠ .connected)
    (hafter : ((start autoReconnect clockSync).after (past ++ [input])).state = .connected) :
    (start autoReconnect clockSync).Discovered (fun _ => False) past ∧
      ((start autoReconnect clockSync).Unhurried inputs →
        (start autoReconnect clockSync).Discovered (fun other => other.begins = true) past) := by
  rw [after_append, after_singleton] at hafter
  obtain rfl := (turn_step _ _).settles hbefore hafter
  have hout := htimely past _ hinit _ (.inl rfl)
  have hpast := (List.prefix_append past _).trans hinit
  have htimely := htimely.earlier hpast
  refine ⟨discovered_of_handedOut htimely (fun _ _ _ h => h.elim) hout, fun hunhurried => ?_⟩
  exact discovered_of_handedOut htimely (hunhurried.earlier hpast) hout

/-- The link of a connection that was asked for again after it was lost. -/
theorem discovered_of_connects_again :
    let past : List LinkInput :=
      [.connect "C4:7C:8D:6A:10:02", .linkUp, .servicesDiscovered true, .linkDown, .linkUp,
        .servicesDiscovered true, .settled 0]
    (start true false).Timely (past ++ [.settled 1]) ∧
      (start true false).Discovered (fun other => other.begins = true) past := by
  intro past
  have htimely : (start true false).Timely (past ++ [.settled 1]) := by
    simp [past, Timely, throughout_cons, throughout_nil, HandedOut, directives, run, step,
      connect, start, lose, settle]
  have hunhurried : (start true false).Unhurried (past ++ [.settled 1]) := by
    simp [past, Unhurried, throughout_cons, throughout_nil, HandedOut, directives, after, run, step,
      connect, start, lose, settle, LinkInput.begins]
  exact ⟨htimely, (discovered_of_connects htimely (List.prefix_refl _) (by decide +kernel)
    (by decide +kernel)).2 hunhurried⟩

/-! ### Handshakes that begin during a pause -/

/-- A handshake that begins in an epoch in which a pause was begun can be completed by that
pause: the link comes up, no discovery follows, and the connection settles. -/
theorem connects_of_hurried (hout : m.HandedOut past (m.after past).epoch)
    (hbegins : input.begins = true) :
    (m.after (past ++ [input, .linkUp])).state = .discovering ∧
      (m.after (past ++ [input, .linkUp] ++ [.settled (m.after past).epoch])).state = .connected ∧
      m.HandedOut (past ++ [input, .linkUp]) (m.after past).epoch ∧
      ∀ earlier later, past ++ [input, .linkUp] = earlier ++ .servicesDiscovered true :: later →
        ∃ other ∈ later, other.begins = true := by
  have hepoch : (m.after (past ++ [input, .linkUp])).epoch = (m.after past).epoch := by
    rw [after_append]
    cases input with
    | connect address => exact connect_epoch _ address
    | linkUp => rfl
    | _ => exact absurd hbegins (by simp [LinkInput.begins])
  have hstate : (m.after (past ++ [input, .linkUp])).state = .discovering := by
    rw [after_append]
    rfl
  refine ⟨hstate, ?_, ?_, ?_⟩
  · rw [after_append, after_singleton, step, settle, hepoch, if_pos ⟨rfl, hstate⟩]
  · rw [List.append_cons]
    exact handedOut_concat.2 (.inl (handedOut_concat.2 (.inl hout)))
  · intro earlier later hsplit
    -- the link came up last, so it came up after every discovery
    rw [List.append_cons] at hsplit
    rcases List.eq_nil_or_concat later with rfl | ⟨others, last, rfl⟩
    · exact absurd (List.append_inj' hsplit rfl).2 (by simp)
    · rw [List.concat_eq_append, ← List.cons_append, ← List.append_assoc] at hsplit
      obtain rfl := List.singleton_inj.1 (List.append_inj' hsplit rfl).2
      exact ⟨.linkUp, by simp, rfl⟩

/-- A pause of an earlier connection can complete the handshake of a later one: another
address is asked for while the pause goes on. -/
theorem connects_undiscovered :
    ¬ ∀ (autoReconnect clockSync : Bool) (inputs past : List LinkInput) (input : LinkInput),
      (start autoReconnect clockSync).Timely inputs → past ++ [input] <+: inputs →
      ((start autoReconnect clockSync).after past).state ≠ .connected →
      ((start autoReconnect clockSync).after (past ++ [input])).state = .connected →
        ∃ earlier later epoch, past = earlier ++ .servicesDiscovered true :: later ∧
          .scheduleSettle epoch ∈ (((start autoReconnect clockSync).after earlier).step
            (.servicesDiscovered true)).1 ∧
          ∀ other ∈ later, other.begins = false := by
  intro h
  let past : List LinkInput :=
    [.connect "C4:7C:8D:6A:10:02", .linkUp, .servicesDiscovered true]
  let again : LinkInput := .connect "00:11:22:33:44:55"
  have htimely : (start true false).Timely (past ++ [again, .linkUp] ++ [.settled 0]) := by
    simp [past, again, Timely, throughout_cons, throughout_nil, HandedOut, directives, run, step,
      connect, start]
  have hout : (start true false).HandedOut past ((start true false).after past).epoch :=
    .inl (by decide +kernel)
  have hbegins : again.begins = true := rfl
  obtain ⟨hstate, hconnected, -, hlater⟩ := connects_of_hurried hout hbegins
  have hbefore : ((start true false).after (past ++ [again, .linkUp])).state ≠ .connected := by
    rw [hstate]
    decide
  obtain ⟨earlier, later, -, hsplit, -, hnone⟩ :=
    h true false _ _ _ htimely (List.prefix_refl _) hbefore hconnected
  obtain ⟨other, hmem, hother⟩ := hlater earlier later hsplit
  exact absurd (hnone other hmem) (by rw [hother]; decide)

end Lifecycle

end Timepiece
