import Mathlib
import Timepiece.Link.Session
import Timepiece.Proofs.Program.Linkage

/-!
# Functions that are called back

An instruction of a program names a function by two bytes, and a report of the watch names it by
one.  So the watch can call back the functions at the first 256 places of the table, and no
others: the session that hears a report looks at the one byte.

## Main definitions

* `Bundle.CallsBack` — some report of the watch has the session invoke a function.
* `Bundle.Callable` — how far the function at a place is called back.
* `Document.talkative` — a document that calls 257 functions.

## Main results

* `Session.called_of_invoke` — a function is invoked for a report that names its place.
* `Document.Compiles.called_back` — **of the functions that a program calls, those at the first
  256 places are called back**.
* `Document.uncalled_talkative` — the last function of the document is not.
-/

namespace Timepiece

open Compiling

/-! ### Invocations -/

/-- What the watch reports has a function invoked only if it names the place of that function. -/
theorem Session.called_of_invoke {luck : Luck} {s : Session} {data : Bytes} {function : Function}
    (h : .invoke function ∈ (s.step luck (.radio (.received data))).1) :
    ∃ index, Report.decode data = .ok (.callFunction index) ∧
      s.active.bind (·.function? index.toNat) = some function := by
  change .invoke function ∈ (s.receive luck (.received data)).1 at h
  unfold receive at h
  dsimp only at h
  cases hreport : Report.decode data with
  | error fault =>
    rw [hreport] at h
    exact absurd h List.not_mem_nil
  | ok report =>
    rw [hreport] at h
    cases report with
    | callFunction index =>
      refine ⟨index, rfl, ?_⟩
      cases hfound : s.active.bind (·.function? index.toNat) with
      | none => simp [dispatch, hfound] at h
      | some found =>
        simp only [dispatch, hfound, List.mem_singleton, Effect.invoke.injEq] at h
        rw [h]
    | notification asked =>
      -- pages are turned and alerts answered, but no function is invoked
      simp only [dispatch, page] at h
      grind
    | acknowledged => exact absurd h List.not_mem_nil
    | permission granted => exact absurd h List.not_mem_nil
    | activeWatchSet id => exact absurd h List.not_mem_nil

/-- A report that names the place of a function has it invoked, and nothing else is done. -/
theorem Session.invokes {bundle : Bundle} {place : Nat} {function : Function}
    (hplace : bundle.function? place = some function) (hbyte : place < 256) (luck : Luck)
    {s : Session} (hactive : s.active = some bundle) :
    s.step luck (.radio (.received (Report.callFunction (UInt8.ofNat place)).encode)) =
      ([.invoke function], s) := by
  have hname : (UInt8.ofNat place).toNat = place := by
    rw [UInt8.toNat_ofNat']
    exact Nat.mod_eq_of_lt hbyte
  have hfound : s.active.bind (·.function? (UInt8.ofNat place).toNat) = some function := by
    rw [hactive, hname]
    exact hplace
  show s.dispatch (.callFunction (UInt8.ofNat place)) = _
  simp only [dispatch, hfound]

/-! ### Functions of a bundle -/

/-- There is a report that has every session in which the bundle is active invoke the function,
and do nothing else. -/
def Bundle.CallsBack (bundle : Bundle) (function : Function) : Prop :=
  ∃ data report, Report.decode data = .ok report ∧
    ∀ (luck : Luck) (s : Session), s.active = some bundle →
      s.step luck (.radio (.received data)) = ([.invoke function], s)

/-- How far the function at a place is called back. -/
structure Bundle.Callable (bundle : Bundle) (place : Nat) (function : Function) : Prop where
  /-- The function stands at the place. -/
  stands : bundle.function? place = some function
  /-- It is called back if its place is a byte, and not otherwise. -/
  called_iff : bundle.CallsBack function ↔ place < 256
  /-- If its place is none, no report whatever has it invoked. -/
  uncalled : 256 ≤ place → ∀ (luck : Luck) (s : Session) (data : Bytes),
    s.active = some bundle → .invoke function ∉ (s.step luck (.radio (.received data))).1

/-- A function that is listed once is called back from its place only. -/
theorem Bundle.callable {bundle : Bundle} (hdistinct : bundle.functions.Nodup) {place : Nat}
    {function : Function} (hplace : bundle.function? place = some function) :
    bundle.Callable place function := by
  have huncalled : 256 ≤ place → ∀ (luck : Luck) (s : Session) (data : Bytes),
      s.active = some bundle → .invoke function ∉ (s.step luck (.radio (.received data))).1 := by
    intro hbehind luck s data hactive hinvoke
    obtain ⟨index, -, hfound⟩ := Session.called_of_invoke hinvoke
    rw [hactive] at hfound
    -- the place that the report names is that of the function, which has one place only
    obtain ⟨hlt, hget⟩ := List.getElem?_eq_some_iff.1 hfound
    obtain ⟨hlt', hget'⟩ := List.getElem?_eq_some_iff.1 hplace
    have hsame := hdistinct.getElem_inj_iff.1 (hget.trans hget'.symm)
    have hbyte := index.toNat_lt
    omega
  refine ⟨hplace, ⟨?_, fun hbyte => ?_⟩, huncalled⟩
  · rintro ⟨data, report, -, hinvokes⟩
    by_contra hbehind
    let s : Session := { Session.start {} .none with active := some bundle }
    let luck : Luck := ⟨true, true, true, 0⟩
    refine huncalled (Nat.not_lt.1 hbehind) luck s data rfl ?_
    rw [hinvokes luck s rfl]
    exact List.mem_singleton_self _
  · exact ⟨_, .callFunction (UInt8.ofNat place), rfl,
      fun luck s hactive => Session.invokes hplace hbyte luck hactive⟩

/-- **Of the functions that a program calls, those at the first 256 places are called back**, and
those behind them by no report of the watch. -/
theorem Document.Compiles.called_back {catalog : Option (List String)} {id : UInt32}
    {document : Document} {bundle : Bundle} (h : document.Compiles catalog id bundle) :
    ∃ program : Program, program.id = id ∧ bundle.binary = program.bytes ∧
      ∀ screen ∈ program.screens, ∀ body, screen.HasInstructions body →
        ∀ index, .callFunction index ∈ body →
          ∃ function, bundle.Callable index.toNat function := by
  obtain ⟨program, hid, hcompiled⟩ := h.compiled
  refine ⟨program, hid, hcompiled.binary, fun out hout body hbody index hmem => ?_⟩
  obtain ⟨screen, -, hstands⟩ := exists_left_of_forall₂ hcompiled.stand hout
  have hlt := hstands.closed.functions body hbody index hmem
  exact ⟨_, Bundle.callable hcompiled.sound.functions (List.getElem?_eq_getElem hlt)⟩

theorem Document.called_back_sample : ∃ bundle, sample.Compiles none 7 bundle ∧
    ∃ program : Program, program.id = 7 ∧ bundle.binary = program.bytes ∧
      ∀ screen ∈ program.screens, ∀ body, screen.HasInstructions body →
        ∀ index, .callFunction index ∈ body →
          ∃ function, bundle.Callable index.toNat function := by
  obtain ⟨bundle, hcompiles⟩ := exists_compiles_sample
  exact ⟨bundle, hcompiles, hcompiles.called_back⟩

/-! ### Calls in a row -/

/-- The calls of some functions. -/
def Action.calls (functions : List Function) : List Action :=
  functions.map fun function =>
    .call (.extensionFunction function.extension function.function function.parameter)

/-- The instructions that call the functions at places in a row. -/
def Program.calls (start count : Nat) : List Program.Instruction :=
  (List.range' start count).map fun place => .callFunction (UInt16.ofNat place)

/-- Functions that are not listed yet get the next places. -/
theorem Action.yields_calls (around : Surroundings) (model : Model) (functions : List Function)
    {l : Ledger} (hnew : (l.functions ++ functions).Nodup)
    (hcount : l.functions.length + functions.length ≤ maxLength + 1) :
    Yields (resolveAll around model (calls functions)) l
      (Program.calls l.functions.length functions.length)
      { l with functions := l.functions ++ functions } := by
  induction functions generalizing l with
  | nil =>
    rw [List.append_nil]
    exact yields_pure_iff.2 ⟨rfl, rfl⟩
  | cons first others ih =>
    rw [List.length_cons] at hcount
    have hfirst : first ∉ l.functions := by
      intro hmem
      exact (List.disjoint_of_nodup_append hnew) hmem List.mem_cons_self
    have henter : enterFunction l.functions first =
        (l.functions.length, l.functions ++ [first]) := by
      rw [enterFunction, List.idxOf?_eq_none_iff.2 hfirst]
    have hothers := ih (l := { l with functions := l.functions ++ [first] })
      (by simpa using hnew) (by simp only [List.length_append, List.length_singleton]; omega)
    rw [List.length_append, List.length_singleton, List.append_assoc, List.singleton_append]
      at hothers
    -- the first function gets the next place, and the others go on behind it
    refine yields_resolveAll_iff.2 (.cons ?_ (yields_resolveAll_iff.1 hothers))
    rw [resolve]
    refine Call.yields_resolve_extensionFunction_iff.2 ⟨UInt16.ofNat l.functions.length, ?_, rfl⟩
    refine yields_function_iff.2 ?_
    rw [henter]
    exact ⟨by omega, rfl, rfl⟩

/-! ### A document that calls many functions -/

namespace Document

/-- Some of the tracks that can be played, each written with as many strokes as its number. -/
def tracks (start count : Nat) : List Function :=
  (List.range' start count).map fun n => ⟨"music", "play", String.ofList (List.replicate n '|')⟩

theorem nodup_tracks (start count : Nat) : (tracks start count).Nodup := by
  refine List.Nodup.map ?_ (List.nodup_range')
  intro n m h
  have hstrokes : List.replicate n '|' = List.replicate m '|' :=
    String.ofList_injective (congrArg Function.parameter h)
  simpa using congrArg List.length hstrokes

/-- Two buttons play 257 tracks. -/
def talkative : Document where
  kind := "watchset"
  version := 1
  name := "talkative"
  resources := none
  screens :=
    [{ id := "main"
       model := none
       controls := []
       actions := some ⟨none, [("button_up_short", Action.calls (tracks 0 200)),
         ("button_down_short", Action.calls (tracks 200 57))]⟩
       defaultActions := none
       settings := none }]

/-- The screen of the document without names. -/
def talkativeScreen : Program.Screen where
  model := none
  controls := []
  handlers := some [⟨0x01, Program.calls 0 200⟩, ⟨0x02, Program.calls 200 57⟩]
  watchface := false
  scratch := 0
  settings := none

theorem length_tracks (start count : Nat) : (tracks start count).length = count := by
  rw [tracks, List.length_map, List.length_range']

theorem tracks_append (start count : Nat) :
    tracks 0 start ++ tracks start count = tracks 0 (start + count) := by
  have hrange := @List.range'_append_1 0 start count
  rw [Nat.zero_add] at hrange
  rw [tracks, tracks, tracks, ← List.map_append, hrange]

/-- A button that plays the next tracks. -/
theorem yields_tracks (around : Surroundings) (start count : Nat) (hbody : count ≤ maxCount)
    (hcount : start + count ≤ maxLength + 1) :
    Yields (Action.resolveList around [] (Action.calls (tracks start count)))
      ⟨[], tracks 0 start, .empty⟩ (Program.calls start count)
      ⟨[], tracks 0 (start + count), .empty⟩ := by
  have hcalls := Action.yields_calls around [] (tracks start count)
    (l := ⟨[], tracks 0 start, .empty⟩) (by rw [tracks_append]; exact nodup_tracks _ _)
    (by rw [length_tracks, length_tracks]; exact hcount)
  rw [length_tracks, length_tracks, tracks_append] at hcalls
  refine Action.yields_resolveList_iff.2 ⟨?_, Action.yields_resolveAll_iff.1 hcalls⟩
  rw [Action.calls, List.length_map, length_tracks]
  exact hbody

/-- The first button's tracks get the first places, and those of the second one the next. -/
theorem resolveAll_talkative (around : Surroundings) :
    Yields (Screen.resolveAll around talkative.screens) ⟨[], [], .empty⟩ [talkativeScreen]
      ⟨[], tracks 0 257, .empty⟩ := by
  have hup := yields_tracks around 0 200 (by decide) (by decide)
  have hdown := yields_tracks around 200 57 (by decide) (by decide)
  have hhandlers : Yields (Handlers.resolveInto around [] [] [
        ("button_up_short", Action.calls (tracks 0 200)),
        ("button_down_short", Action.calls (tracks 200 57))])
      ⟨[], [], .empty⟩ [⟨0x01, Program.calls 0 200⟩, ⟨0x02, Program.calls 200 57⟩]
      ⟨[], tracks 0 257, .empty⟩ := by
    refine Handlers.yields_resolveInto_cons_iff.2 ⟨0x01, _, _, by decide, by simp, hup, ?_⟩
    refine Handlers.yields_resolveInto_cons_iff.2 ⟨0x02, _, _, by decide, ?_, hdown, ?_⟩
    · simp [Handlers.insert]
    · exact yields_pure_iff.2 ⟨rfl, rfl⟩
  refine Screen.yields_resolveAll_iff.2 (.cons (Screen.yields_resolve_iff.2 ?_) .nil)
  refine ⟨none, [], _, [], _, _, false, none, Screen.yields_resolveModel_iff.2 ⟨rfl, rfl, rfl⟩,
    Control.yields_resolveList_iff.2 ⟨Nat.zero_le _, .nil⟩, by decide, ?_, rfl,
    Screen.yields_resolveSettings_iff.2 ⟨rfl, rfl⟩, rfl⟩
  exact Screen.yields_resolveHandlers_iff.2 ⟨_,
    Handlers.yields_resolve_iff.2 ⟨hhandlers, by decide +kernel⟩, by decide +kernel, rfl⟩

theorem compiles_talkative : ∃ bundle, talkative.Compiles none 7 bundle ∧
    bundle.functions = tracks 0 257 := by
  let assembly : Assembly := ⟨"talkative", [talkativeScreen], [], tracks 0 257, none⟩
  have hresolve : talkative.resolve none = .ok assembly := by
    have hscreens := resolveAll_talkative (talkative.surroundings none)
    unfold resolve
    refine bind_eq_ok_iff.2 ⟨(), rfl, bind_eq_ok_iff.2 ⟨none, rfl, ?_⟩⟩
    dsimp only
    rw [if_neg (by decide)]
    refine bind_eq_ok_iff.2 ⟨(), rfl, bind_eq_ok_iff.2 ⟨_, hscreens, ?_⟩⟩
    exact bind_eq_ok_iff.2 ⟨(), rfl, rfl⟩
  have hsections : (assembly.program 7).SectionsFit := Program.sectionsFit_iff.2 (by decide +kernel)
  exact ⟨_, ⟨assembly, hresolve, Assembly.bundle_eq_ok_iff.2 ⟨hsections, rfl⟩⟩, rfl⟩

/-- The 257th track has the place 256.  A program calls it, but no report calls it back. -/
theorem uncalled_talkative : ∃ bundle, talkative.Compiles none 7 bundle ∧
    ∃ program : Program, bundle.binary = program.bytes ∧
      (∃ screen ∈ program.screens, ∃ body, screen.HasInstructions body ∧
        ∃ index, .callFunction index ∈ body ∧ index.toNat = 256) ∧
      ∃ function, bundle.function? 256 = some function ∧ ¬ bundle.CallsBack function := by
  obtain ⟨bundle, hcompiles, hfunctions⟩ := compiles_talkative
  obtain ⟨program, -, hcompiled⟩ := hcompiles.compiled
  have hlt : 256 < bundle.functions.length := by
    rw [hfunctions, length_tracks]
    decide
  have hcallable := Bundle.callable hcompiled.sound.functions (List.getElem?_eq_getElem hlt)
  refine ⟨bundle, hcompiles, program, hcompiled.binary, hcompiled.function_used hlt, _,
    hcallable.stands, fun hcalled => ?_⟩
  exact absurd (hcallable.called_iff.1 hcalled) (by decide)

end Document

end Timepiece
