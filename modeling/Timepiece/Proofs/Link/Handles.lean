import Mathlib
import Timepiece.Proofs.Link.LifecycleRuns

/-!
# Connections and their handles

While a connection is made or used there is a handle for it, and the address that the
handle is for.  Every input keeps that but one: the radio may report that the link is up
when the handle was given back, or before there ever was one, and the connection takes
that for the beginning of a handshake.

## Main definitions

* `Lifecycle.Held` — a live connection has a handle and an address.
* `Lifecycle.Expected` — the link only comes up while there is a handle.
* `Lifecycle.Released` — the handle was given back and the connection is gone.

## Main results

* `Lifecycle.Held.turn`, `Lifecycle.Released.turn` — what an input keeps.
* `Lifecycle.held_iff_expected` — **a connection is live only with a handle exactly if
  the link only comes up while there is one**, and then nothing happens between giving the
  handle back and asking for a connection again.
-/

namespace Timepiece

namespace Lifecycle

/-- A live connection has a handle and an address. -/
def Held (m : Lifecycle) : Prop :=
  m.state ≠ .disconnected → m.hasHandle = true ∧ m.address.isSome = true

/-- A handle is for some address. -/
def Addressed (m : Lifecycle) : Prop := m.hasHandle = true → m.address.isSome = true

/-- The handle was given back and the connection is gone. -/
structure Released (m : Lifecycle) : Prop where
  handle : m.hasHandle = false
  state : m.state = .disconnected

/-- During the inputs the link only comes up while there is a handle. -/
def Expected (m : Lifecycle) : List LinkInput → Prop :=
  Throughout fun past input => input = .linkUp → (m.after past).hasHandle = true

variable {m : Lifecycle} {input : LinkInput} {inputs past rest : List LinkInput}
  {result : List Directive × Lifecycle}

/-! ### One input -/

/-- A connection that is asked for has a handle from then on. -/
theorem connect_handle (h : m.Addressed) (address : String) :
    (m.connect address).2.hasHandle = true ∧ (m.connect address).2.address.isSome = true := by
  unfold connect
  split
  · next hsame => exact ⟨hsame.1, h hsame.1⟩
  · exact ⟨rfl, rfl⟩

/-- A handle stays one for some address. -/
theorem Addressed.turn (h : m.Addressed) (hturn : m.Turn input result) : result.2.Addressed := by
  cases hturn with
  | asked => exact fun _ => (connect_handle h _).2
  | again => exact fun _ => (connect_handle (show m.lost.Addressed from h) _).2
  | closed => exact fun hhandle => nomatch hhandle
  | _ => exact h

/-- **A live connection keeps its handle**, unless the link comes up where there is none. -/
theorem Held.turn (h : m.Held) (haddress : m.Addressed) (hturn : m.Turn input result)
    (hup : input = .linkUp → m.hasHandle = true) : result.2.Held := by
  cases hturn with
  | asked => exact fun _ => connect_handle haddress _
  | again => exact fun _ => connect_handle (show m.lost.Addressed from haddress) _
  | failed | gone | closed => exact fun hlive => absurd rfl hlive
  | up => exact fun _ => ⟨hup rfl, haddress (hup rfl)⟩
  | settled hstate =>
    -- it was live before it settled
    have hlive : m.state ≠ .disconnected := by
      rw [hstate]
      decide
    exact fun _ => h hlive
  | ignored | discovered | due | ending | chosen => exact h

/-- Giving the handle back ends the connection. -/
theorem Held.close (h : m.Held) : (m.step .close).2.Released := by
  unfold Lifecycle.step
  dsimp only
  split
  · exact ⟨rfl, rfl⟩
  · next hnone =>
    refine ⟨Bool.eq_false_iff.2 hnone, ?_⟩
    by_contra hlive
    exact hnone (h hlive).1

/-- After the handle was given back nothing is to be done before a connection is asked
for or the link comes up. -/
theorem Released.turn (h : m.Released) (hturn : m.Turn input result)
    (hbegins : input.begins = false) : result.1 = [] ∧ result.2.Released := by
  obtain ⟨hhandle, hstate⟩ := h
  cases hturn with
  | asked | up => exact nomatch hbegins
  | discovered hlive | settled hlive | due hlive =>
    rw [hstate] at hlive
    exact nomatch hlive
  | again _ _ hheld | ending hheld | closed hheld =>
    rw [hhandle] at hheld
    exact nomatch hheld
  | failed | gone => exact ⟨rfl, hhandle, rfl⟩
  | ignored | chosen => exact ⟨rfl, hhandle, hstate⟩

/-! ### Sequences of inputs -/

theorem addressed_start (autoReconnect clockSync : Bool) :
    (start autoReconnect clockSync).Addressed := fun h => nomatch h

theorem held_start (autoReconnect clockSync : Bool) : (start autoReconnect clockSync).Held :=
  fun h => absurd rfl h

/-- **A live connection has a handle** after a sequence during which the link only comes up
while there is one. -/
theorem Expected.held (h : m.Expected inputs) (haddress : m.Addressed) (hheld : m.Held) :
    (m.after inputs).Addressed ∧ (m.after inputs).Held := by
  refine h.induct (P := fun past => (m.after past).Addressed ∧ (m.after past).Held)
    ⟨haddress, hheld⟩ fun past input hup ih => ?_
  rw [after_append, after_singleton]
  exact ⟨ih.1.turn (turn_step _ input), ih.2.turn ih.1 (turn_step _ input) hup⟩

/-- If a connection is live only with a handle, the link only comes up while there is
one. -/
theorem expected_of_held (h : ∀ past, past <+: inputs → (m.after past).Held) :
    m.Expected inputs := by
  rintro past input hinit rfl
  have hheld := h _ hinit
  rw [after_append, after_singleton] at hheld
  have hlive : ((m.after past).step .linkUp).2.state ≠ .disconnected := fun hstate => nomatch hstate
  exact (hheld hlive).1

/-- From giving the handle back on nothing is to be done, if no connection is asked for and
the link only comes up while there is a handle. -/
theorem Released.stay (h : m.Released) (hexpected : m.Expected rest)
    (hconnect : ∀ address, .connect address ∉ rest) :
    (m.after rest).Released ∧ m.directives rest = [] := by
  induction rest using List.reverseRecOn with
  | nil => exact ⟨h, rfl⟩
  | append_singleton past input ih =>
    obtain ⟨hpast, hup⟩ := throughout_concat.1 hexpected
    obtain ⟨hreleased, hnothing⟩ :=
      ih hpast fun address hmem => hconnect address (List.mem_append_left _ hmem)
    -- the input finds no handle, so it is not the link coming up
    have hbegins : input.begins = false := by
      cases input with
      | connect address =>
        exact absurd (List.mem_append_right _ (List.mem_singleton.2 rfl)) (hconnect address)
      | linkUp => exact absurd (hup rfl) (by rw [hreleased.handle]; decide)
      | _ => rfl
    obtain ⟨hanswer, hnext⟩ := hreleased.turn (turn_step _ input) hbegins
    rw [after_append, after_singleton, directives_concat, hnothing, hanswer]
    exact ⟨hnext, rfl⟩

/-- After the handle was given back the connection stays away until a connection is asked
for, if the link only comes up while there is a handle. -/
theorem Expected.quiet (h : m.Expected (past ++ [.close] ++ rest)) (haddress : m.Addressed)
    (hheld : m.Held) (hconnect : ∀ address, .connect address ∉ rest) :
    ((m.after (past ++ [.close])).after rest).state = .disconnected ∧
      (m.after (past ++ [.close])).directives rest = [] := by
  have hpast : m.Expected past := (h.earlier (List.prefix_append _ rest)).earlier
    (List.prefix_append past [.close])
  have hreleased : (m.after (past ++ [.close])).Released := by
    rw [after_append, after_singleton]
    exact (hpast.held haddress hheld).2.close
  have hrest : (m.after (past ++ [.close])).Expected rest := by
    intro before input hbefore
    rw [← after_append]
    exact h.later before input hbefore
  obtain ⟨hlast, hnothing⟩ := hreleased.stay hrest hconnect
  exact ⟨hlast.state, hnothing⟩

/-- **A connection is live only with a handle exactly if the link only comes up while
there is one.**  Then, from giving the handle back until a connection is asked for again,
the connection stays away and nothing is to be done. -/
theorem held_iff_expected (autoReconnect clockSync : Bool) (inputs : List LinkInput) :
    ((∀ past, past <+: inputs → ((start autoReconnect clockSync).after past).Held) ↔
      (start autoReconnect clockSync).Expected inputs) ∧
    ((start autoReconnect clockSync).Expected inputs →
      ∀ past rest, past ++ [.close] ++ rest <+: inputs → (∀ address, .connect address ∉ rest) →
        ((start autoReconnect clockSync).after (past ++ [.close] ++ rest)).state = .disconnected ∧
          ((start autoReconnect clockSync).after (past ++ [.close])).directives rest = []) := by
  have haddress := addressed_start autoReconnect clockSync
  have hheld := held_start autoReconnect clockSync
  refine ⟨⟨expected_of_held, fun h past hpast => ?_⟩, ?_⟩
  · exact (Expected.held (h.earlier hpast) haddress hheld).2
  · intro hexpected past rest hinit hconnect
    rw [after_append]
    exact Expected.quiet (hexpected.earlier hinit) haddress hheld hconnect

/-- A connection that was given back is lost a little later, and given back again. -/
theorem held_iff_expected_closed :
    (start true false).Expected
        [.connect "C4:7C:8D:6A:10:02", .linkUp, .close, .linkDown, .close] ∧
      ((start true false).after
        [.connect "C4:7C:8D:6A:10:02", .linkUp, .close, .linkDown, .close]).state =
          .disconnected := by
  have hexpected : (start true false).Expected
      [.connect "C4:7C:8D:6A:10:02", .linkUp, .close, .linkDown, .close] := by
    simp [Expected, throughout_cons, throughout_nil, after, run, step, connect, start]
  refine ⟨hexpected, ((held_iff_expected true false _).2 hexpected
    [.connect "C4:7C:8D:6A:10:02", .linkUp] [.linkDown, .close] (List.prefix_refl _) ?_).1⟩
  simp

/-- A connection can be live without a handle: the link comes up when the handle was given
back. -/
theorem live_without_handle :
    ¬ ∀ (autoReconnect clockSync : Bool) (inputs : List LinkInput),
      ((start autoReconnect clockSync).after inputs).Held := by
  intro h
  have hlive := h true false [.connect "C4:7C:8D:6A:10:02", .close, .linkUp] (by decide)
  exact nomatch hlive.1

end Lifecycle

end Timepiece
