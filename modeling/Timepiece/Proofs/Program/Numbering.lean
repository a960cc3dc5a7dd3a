import Mathlib
import Timepiece.Proofs.Json.Outlines
import Timepiece.Proofs.Program.Layout
import Timepiece.Proofs.Text.Base64

/-!
# The numbers of programs

A compiler counts the programs that bring no number of their own.  It takes a number once the
text is read and all names are resolved, so that a call that fails before leaves the count as
it is.  The lengths of the sections are checked only after that: a program that fails there is
lost together with its number, and leaves a gap between those before and after it.

## Main definitions

* `Compiler.Request`, `Compiler.run` — calls of a compiler, one after the other.
* `Compiler.takes`, `Compiler.loses` — whether a call takes a number from the count, and
  whether it fails after that.
* `Compiler.counted` — the programs that got their number from the count.
* `Compiler.Numbered` — how the programs of a run are numbered.

## Main results

* `Compiler.compile_snd`, `Compiler.run_append` — what a call and a run do to the count.
* `Compiler.numbered_run` — **programs are numbered one after the other, and every lost one
  leaves a gap.**
* `Assembly.bundle_attachment` — a document that is nothing but an attachment compiles if the
  attachment is not too long.
-/

namespace Timepiece

namespace Compiler

/-! ### Calls -/

/-- A text to be compiled, with the number of its program if it brings one. -/
structure Request where
  source : String
  id : Option UInt32

/-- The results of calls one after the other, and the compiler after them. -/
def run (compiler : Compiler) : List Request → List (Except Refusal Bundle) × Compiler
  | [] => ([], compiler)
  | request :: rest =>
    let (result, compiler) := compiler.compile request.source request.id
    let (results, compiler) := compiler.run rest
    (result :: results, compiler)

/-- The program got its number from the count. -/
def counted? (request : Request) : Except Refusal Bundle → Option Bundle
  | .ok bundle => if request.id.isNone then some bundle else none
  | .error _ => none

/-- The programs that got their number from the count. -/
def counted (requests : List Request) (results : List (Except Refusal Bundle)) : List Bundle :=
  (List.zipWith counted? requests results).reduceOption

/-- A call takes a number from the count: it brings none, and all names in its text are
resolved. -/
def takes (compiler : Compiler) (request : Request) : Bool :=
  request.id.isNone && (compiler.assemble request.source).isOk

/-- A call takes a number from the count and fails. -/
def loses (compiler : Compiler) (request : Request) : Bool :=
  compiler.takes request && !(compiler.compile request.source request.id).1.isOk

/-- The compiler once some numbers were taken from the count. -/
def advanced (compiler : Compiler) (count : Nat) : Compiler :=
  { compiler with next := compiler.next + UInt32.ofNat count }

end Compiler

/-! ### One call -/

namespace Assembly

variable {assembly : Assembly} {id : UInt32}

/-- Whether a program is written depends on its sections and not on its number. -/
theorem isOk_bundle_iff : (assembly.bundle id).isOk = true ↔ (assembly.program 0).SectionsFit := by
  constructor
  · intro hok
    cases hbundle : assembly.bundle id with
    | error refusal =>
      rw [hbundle] at hok
      exact nomatch hok
    | ok bundle => exact (bundle_eq_ok_iff.1 hbundle).1
  · intro hfits
    have hbundle : assembly.bundle id = .ok _ := bundle_eq_ok_iff.2 ⟨hfits, rfl⟩
    rw [hbundle]
    rfl

theorem checkLength_eq_error {what : Measured} {bytes : Bytes} {refusal : Refusal}
    (h : checkLength what bytes = .error refusal) :
    refusal = .tooLarge what bytes.length ∧ maxLength < bytes.length := by
  unfold checkLength at h
  split at h
  · exact nomatch h
  · next hlength => exact ⟨(Except.error.inj h).symm, Nat.lt_of_not_le hlength⟩

/-- A program that is not written has a section that is too long. -/
theorem bundle_eq_error {refusal : Refusal} (h : assembly.bundle id = .error refusal) :
    ∃ what size, what ∈ [Measured.screens, .properties, .resources] ∧
      refusal = .tooLarge what size ∧ maxLength < size := by
  have hlength : ∃ what ∈ [Measured.screens, .properties, .resources], ∃ bytes,
      checkLength what bytes = .error refusal := by
    obtain hcheck | ⟨_, -, h⟩ := bind_eq_error_iff.1 h
    · obtain hscreens | ⟨_, -, hcheck⟩ := bind_eq_error_iff.1 hcheck
      · exact ⟨_, by decide, _, hscreens⟩
      obtain hproperties | ⟨_, -, hcheck⟩ := bind_eq_error_iff.1 hcheck
      · exact ⟨_, by decide, _, hproperties⟩
      split at hcheck
      · exact nomatch hcheck
      · exact ⟨_, by decide, _, hcheck⟩
    · exact nomatch h
  obtain ⟨what, hwhat, bytes, hcheck⟩ := hlength
  obtain ⟨rfl, hlong⟩ := checkLength_eq_error hcheck
  exact ⟨what, bytes.length, hwhat, rfl, hlong⟩

end Assembly

namespace Compiler

variable {compiler : Compiler} {request : Request}

theorem advanced_zero (compiler : Compiler) : compiler.advanced 0 = compiler := by
  simp [advanced]

theorem advanced_advanced (compiler : Compiler) (m n : Nat) :
    (compiler.advanced m).advanced n = compiler.advanced (m + n) := by
  simp [advanced, UInt32.add_assoc]

theorem counted?_eq_some_iff {result : Except Refusal Bundle} {bundle : Bundle} :
    counted? request result = some bundle ↔ request.id = none ∧ result = .ok bundle := by
  cases result with
  | error refusal => simp [counted?]
  | ok made => simp [counted?]

/-- A call of which something is wrong before the program gets its number. -/
theorem compile_of_error (compiler : Compiler) (request : Request) {refusal : Refusal}
    (h : compiler.assemble request.source = .error refusal) :
    compiler.compile request.source request.id = (.error refusal, compiler) := by
  rw [compile, h]

/-- A call that comes as far as the number of the program. -/
theorem compile_of_ok (compiler : Compiler) (request : Request) {assembly : Assembly}
    (h : compiler.assemble request.source = .ok assembly) :
    compiler.compile request.source request.id =
      (assembly.bundle (request.id.getD compiler.next),
        compiler.advanced (if request.id.isNone then 1 else 0)) := by
  obtain ⟨source, id⟩ := request
  rw [compile, h]
  cases id with
  | none => rfl
  | some id => exact Prod.ext rfl compiler.advanced_zero.symm

/-- What a call takes does not depend on the count. -/
theorem takes_advanced (compiler : Compiler) (count : Nat) :
    (compiler.advanced count).takes = compiler.takes := rfl

theorem loses_advanced (compiler : Compiler) (count : Nat) :
    (compiler.advanced count).loses = compiler.loses := by
  funext request
  unfold loses
  rw [takes_advanced]
  cases h : compiler.assemble request.source with
  | error refusal =>
    rw [compile_of_error compiler request h, compile_of_error (compiler.advanced count) request h]
  | ok assembly =>
    rw [compile_of_ok compiler request h, compile_of_ok (compiler.advanced count) request h,
      Bool.eq_iff_iff.2 (Assembly.isOk_bundle_iff.trans Assembly.isOk_bundle_iff.symm)]

theorem takes_of_error {refusal : Refusal}
    (h : compiler.assemble request.source = .error refusal) : compiler.takes request = false := by
  rw [takes, h]
  exact Bool.and_false _

theorem takes_of_ok {assembly : Assembly}
    (h : compiler.assemble request.source = .ok assembly) :
    compiler.takes request = request.id.isNone := by
  rw [takes, h]
  exact Bool.and_true _

/-- **What a call does to the count.** -/
theorem compile_snd (compiler : Compiler) (request : Request) :
    (compiler.compile request.source request.id).2 =
      compiler.advanced (if compiler.takes request then 1 else 0) := by
  cases h : compiler.assemble request.source with
  | error refusal =>
    rw [compile_of_error _ _ h, takes_of_error h]
    exact compiler.advanced_zero.symm
  | ok assembly => rw [compile_of_ok _ _ h, takes_of_ok h]

/-- A call that takes a number makes a program of it or loses it. -/
theorem takes_eq (compiler : Compiler) (request : Request) :
    (if compiler.takes request then 1 else 0) =
      (counted? request (compiler.compile request.source request.id).1).toList.length +
        (if compiler.loses request then 1 else 0) := by
  unfold loses
  cases h : compiler.assemble request.source with
  | error refusal =>
    rw [takes_of_error h, compile_of_error _ _ h]
    rfl
  | ok assembly =>
    rw [takes_of_ok h]
    unfold counted?
    cases (compiler.compile request.source request.id).1 with
    | error refusal => cases request.id.isNone <;> rfl
    | ok bundle => cases request.id.isNone <;> rfl

/-- The number of a program that was counted. -/
theorem id_of_compile {bundle : Bundle} (hid : request.id = none)
    (h : (compiler.compile request.source request.id).1 = .ok bundle) :
    bundle.id = compiler.next ∧ Container.header bundle.binary = .ok ⟨1, bundle.id⟩ := by
  obtain ⟨document, -, hcompiles⟩ := compile_eq_ok_iff.1 h
  rw [hid] at hcompiles
  obtain ⟨assembly, hassembly, hbundle⟩ := id hcompiles
  obtain ⟨-, rfl⟩ := Assembly.bundle_eq_ok_iff.1 hbundle
  exact ⟨rfl, hcompiles.sectioned.header⟩

/-- **A call that loses its number** fails by the length of a section. -/
theorem compile_of_loses (h : compiler.loses request = true) :
    ∃ what size, what ∈ [Measured.screens, .properties, .resources] ∧ maxLength < size ∧
      (compiler.compile request.source request.id).1 = .error (.tooLarge what size) := by
  unfold loses at h
  cases hassemble : compiler.assemble request.source with
  | error refusal =>
    rw [takes_of_error hassemble] at h
    cases h
  | ok assembly =>
    rw [compile_of_ok _ _ hassemble] at h ⊢
    cases hbundle : assembly.bundle (request.id.getD compiler.next) with
    | ok bundle =>
      rw [hbundle] at h
      exact absurd (Bool.and_eq_true_iff.1 h).2 Bool.false_ne_true
    | error refusal =>
      obtain ⟨what, size, hwhat, rfl, hlong⟩ := Assembly.bundle_eq_error hbundle
      exact ⟨what, size, hwhat, hlong, rfl⟩

/-- A call that loses nothing takes no number, or makes a program with the next one. -/
theorem counted?_of_kept (h : compiler.loses request = false) :
    compiler.takes request = false ∧
        counted? request (compiler.compile request.source request.id).1 = none ∨
      compiler.takes request = true ∧ ∃ bundle, bundle.id = compiler.next ∧
        counted? request (compiler.compile request.source request.id).1 = some bundle := by
  have htakes := compiler.takes_eq request
  rw [h, if_neg Bool.false_ne_true, Nat.add_zero] at htakes
  cases hcounted : counted? request (compiler.compile request.source request.id).1 with
  | none =>
    have hzero : (if compiler.takes request then 1 else 0) = 0 := by rw [htakes, hcounted]; rfl
    exact .inl ⟨by simpa using hzero, rfl⟩
  | some bundle =>
    have hone : (if compiler.takes request then 1 else 0) = 1 := by rw [htakes, hcounted]; rfl
    obtain ⟨hid, hresult⟩ := counted?_eq_some_iff.1 hcounted
    exact .inr ⟨by simpa using hone, bundle, (id_of_compile hid hresult).1, rfl⟩

end Compiler

/-! ### Attachments -/

/-- A document without screens, with one attachment. -/
def Json.attachment (bytes : Bytes) : Json :=
  .object [("type", .text "watchset"), ("apiVersion", .number (.integer 1)),
    ("name", .text "attachment"),
    ("data", .object
      [("resources", .array
          [.object [("id", .text "r"), ("data", .text (String.ofList (Base64.encode bytes)))]]),
        ("screens", .array [])])]

/-- The document that the text describes. -/
def Document.attachment (bytes : Bytes) : Document :=
  ⟨"watchset", 1, "attachment", some [⟨"r", String.ofList (Base64.encode bytes)⟩], []⟩

/-- What is left of it without names. -/
def Assembly.attachment (bytes : Bytes) : Assembly := ⟨"attachment", [], [], [], some [bytes]⟩

theorem Json.integral_attachment (bytes : Bytes) : (attachment bytes).Integral := by
  simp [attachment, Integral, MembersIntegral, ItemsIntegral, Token.maxUnsigned]

theorem Document.ofText_attachment (bytes : Bytes) :
    ofText (Json.attachment bytes).render = .ok (attachment bytes) := by
  have hdepth : (Json.attachment bytes).depth ≤ Outline.depthLimit := by
    show 4 ≤ 127
    decide
  rw [ofText, Json.readText_render ofOutline (Json.integral_attachment bytes) hdepth]
  rfl

theorem Document.resolve_attachment (catalog : Option (List String)) (bytes : Bytes) :
    (attachment bytes).resolve catalog = .ok (.attachment bytes) := by
  have hbytes : (Resource.mk "r" (String.ofList (Base64.encode bytes))).bytes = .ok bytes := by
    rw [Resource.bytes, String.toList_ofList, Base64.dropBlanks_encode, Base64.decode?_encode]
  have hdecode : Resource.decode (attachment bytes).resources = .ok (some [bytes]) := by
    simp [attachment, Resource.decode, Resource.decodeAll, hbytes, maxResources, bind, Except.bind,
      pure, Except.pure]
  rw [resolve, hdecode]
  rfl

/-- Only the list of resources can be too long. -/
theorem Assembly.checkSections_attachment (bytes : Bytes) (id : UInt32) :
    checkSections ((attachment bytes).program id) =
      checkLength .resources (Program.resourcesBytes [bytes]) := by
  have hscreens : checkLength .screens (Program.screensBytes []) = .ok () :=
    checkLength_eq_ok_iff.2 (by decide)
  have hproperties : checkLength .properties (Program.propertiesBytes []) = .ok () :=
    checkLength_eq_ok_iff.2 (by decide)
  show (checkLength .screens (Program.screensBytes []) >>= fun _ =>
    checkLength .properties (Program.propertiesBytes []) >>= fun _ =>
      checkLength .resources (Program.resourcesBytes [bytes])) = _
  rw [hscreens, hproperties]
  rfl

/-- **An attachment is compiled if it is not too long.** -/
theorem Assembly.bundle_attachment (bytes : Bytes) (id : UInt32) :
    (attachment bytes).bundle id =
      if bytes.length + 4 ≤ maxLength then
        .ok ⟨id, "attachment", ((attachment bytes).program id).bytes, [], []⟩
      else .error (.tooLarge .resources (bytes.length + 4)) := by
  have hlength : (Program.resourcesBytes [bytes]).length = bytes.length + 4 := by
    simp [Program.resourcesBytes, Program.offsetTable, Program.offsets]
    omega
  rw [bundle, checkSections_attachment, checkLength, hlength]
  split <;> rfl

namespace Compiler

theorem compile_attachment (compiler : Compiler) (bytes : Bytes) (id : Option UInt32) :
    compiler.compile (Json.attachment bytes).render id =
      ((Assembly.attachment bytes).bundle (id.getD compiler.next),
        compiler.advanced (if id.isNone then 1 else 0)) := by
  have hassemble : compiler.assemble (Json.attachment bytes).render = .ok (.attachment bytes) := by
    rw [assemble, Document.ofText_attachment]
    exact Document.resolve_attachment compiler.catalog bytes
  exact compile_of_ok compiler ⟨_, id⟩ hassemble

/-- Nothing is taken for a text without words. -/
theorem compile_empty (compiler : Compiler) (id : Option UInt32) :
    compiler.compile "" id = (.error (.unreadable (.breach .ended)), compiler) := by
  have htokens : tokens "".toList = [] := Token.tokensAfter_nil []
  have hread : Document.ofText "" = .error (.breach .ended) := by
    rw [Document.ofText, readText, Outline.ofText, htokens]
    rfl
  exact compile_of_error compiler ⟨"", id⟩ (by rw [assemble, hread])

/-! ### Runs -/

variable {compiler : Compiler}

/-- The first call of a run. -/
theorem run_of_compile {next : Compiler} {source : String} {id : Option UInt32}
    {result : Except Refusal Bundle} (h : compiler.compile source id = (result, next))
    (rest : List Request) :
    (compiler.run (⟨source, id⟩ :: rest)).1 = result :: (next.run rest).1 := by
  rw [run, h]

theorem run_cons (compiler : Compiler) (request : Request) (rest : List Request) :
    compiler.run (request :: rest) =
      ((compiler.compile request.source request.id).1 ::
          ((compiler.advanced (if compiler.takes request then 1 else 0)).run rest).1,
        ((compiler.advanced (if compiler.takes request then 1 else 0)).run rest).2) := by
  rw [run, ← compile_snd]

theorem length_run (compiler : Compiler) (requests : List Request) :
    (compiler.run requests).1.length = requests.length := by
  induction requests generalizing compiler with
  | nil => rfl
  | cons request rest ih => rw [run_cons, List.length_cons, ih, List.length_cons]

theorem run_append (compiler : Compiler) (before after : List Request) :
    (compiler.run (before ++ after)).1 =
      (compiler.run before).1 ++
        ((compiler.advanced (before.countP compiler.takes)).run after).1 := by
  induction before generalizing compiler with
  | nil => rw [List.countP_nil, advanced_zero]; rfl
  | cons request rest ih =>
    rw [List.cons_append, run_cons, run_cons, ih, takes_advanced, advanced_advanced,
      List.countP_cons, List.cons_append, Nat.add_comm]

/-- The result of one call of a run. -/
theorem getElem?_run (compiler : Compiler) (before : List Request) (request : Request)
    (rest : List Request) :
    (compiler.run (before ++ request :: rest)).1[before.length]? =
      some ((compiler.advanced (before.countP compiler.takes)).compile request.source
        request.id).1 := by
  rw [run_append, run_cons, List.getElem?_append_right (by rw [length_run]), length_run,
    Nat.sub_self]
  rfl

theorem counted_cons (request : Request) (requests : List Request)
    (result : Except Refusal Bundle) (results : List (Except Refusal Bundle)) :
    counted (request :: requests) (result :: results) =
      (counted? request result).toList ++ counted requests results := by
  unfold counted
  rw [List.zipWith_cons_cons]
  cases h : counted? request result with
  | none => simp
  | some bundle => simp

/-- Of the results only those of the calls in question matter. -/
theorem counted_run_append (compiler : Compiler) (before after : List Request) :
    counted before (compiler.run (before ++ after)).1 =
      counted before (compiler.run before).1 := by
  have hzip (others : List (Except Refusal Bundle)) :
      List.zipWith counted? before ((compiler.run before).1 ++ others) =
        List.zipWith counted? before (compiler.run before).1 := by
    have happend : List.zipWith counted? (before ++ []) ((compiler.run before).1 ++ others) = _ :=
      List.zipWith_append (compiler.length_run before).symm
    simpa using happend
  rw [counted, run_append, hzip, counted]

/-- Every number that was taken is that of a program or lost. -/
theorem countP_takes (compiler : Compiler) (requests : List Request) :
    requests.countP compiler.takes =
      (counted requests (compiler.run requests).1).length + requests.countP compiler.loses := by
  induction requests generalizing compiler with
  | nil => rfl
  | cons request rest ih =>
    have hrest := ih (compiler.advanced (if compiler.takes request then 1 else 0))
    rw [takes_advanced, loses_advanced] at hrest
    rw [run_cons, counted_cons, List.length_append, List.countP_cons, List.countP_cons, hrest,
      takes_eq]
    omega

/-- The count goes up by what is taken, as long as it does not start again. -/
theorem toNat_next_advanced (compiler : Compiler) (count : Nat)
    (h : compiler.next.toNat + count < 2 ^ 32) :
    (compiler.advanced count).next.toNat = compiler.next.toNat + count := by
  show (compiler.next + UInt32.ofNat count).toNat = _
  rw [UInt32.toNat_add, UInt32.toNat_ofNat', Nat.add_mod_mod, Nat.mod_eq_of_lt h]

/-- Without losses programs are numbered one after the other. -/
theorem counted_eq_range' {requests : List Request}
    (hroom : compiler.next.toNat + requests.length < 2 ^ 32)
    (hkept : ∀ request ∈ requests, compiler.loses request = false) :
    (counted requests (compiler.run requests).1).map (fun bundle => bundle.id.toNat) =
      List.range' compiler.next.toNat (counted requests (compiler.run requests).1).length := by
  induction requests generalizing compiler with
  | nil => rfl
  | cons request rest ih =>
    obtain ⟨hfirst, hrest⟩ := List.forall_mem_cons.1 hkept
    rw [List.length_cons] at hroom
    rw [run_cons, counted_cons]
    obtain ⟨htakes, hcounted⟩ | ⟨htakes, bundle, hid, hcounted⟩ := counted?_of_kept hfirst
    · rw [hcounted, htakes, if_neg Bool.false_ne_true, advanced_zero]
      exact ih (by omega) hrest
    · have hnext := toNat_next_advanced compiler 1 (by omega)
      have hothers := @ih (compiler.advanced 1) (by omega) (by rwa [loses_advanced])
      rw [hcounted, htakes, if_pos rfl, Option.toList_some, List.singleton_append, List.map_cons,
        List.length_cons, List.range'_succ, hothers, hid, hnext]

/-! ### Numbers -/

/-- How the programs of calls one after the other are numbered. -/
structure Numbered (compiler : Compiler) (requests : List Request)
    (results : List (Except Refusal Bundle)) : Prop where
  /-- A program that brings no number gets the next one after those of the programs that were
  counted before it and those that were lost before it, and has it in its header. -/
  number : ∀ before request rest bundle, requests = before ++ request :: rest →
    request.id = none → results[before.length]? = some (.ok bundle) →
      bundle.id.toNat = compiler.next.toNat + (counted before results).length +
        before.countP compiler.loses ∧
      Container.header bundle.binary = .ok ⟨1, bundle.id⟩
  /-- As long as none is lost, the programs are numbered one after the other. -/
  consecutive : ∀ before after, requests = before ++ after →
    (∀ request ∈ before, compiler.loses request = false) →
      (counted before results).map (fun bundle => bundle.id.toNat) =
        List.range' compiler.next.toNat (counted before results).length
  /-- A number is lost only with a program that has a section that is too long. -/
  lost : ∀ before request rest, requests = before ++ request :: rest →
    compiler.loses request = true → ∃ what size,
      what ∈ [Measured.screens, .properties, .resources] ∧ maxLength < size ∧
        results[before.length]? = some (.error (.tooLarge what size))

/-- **Programs are numbered one after the other, and every lost one leaves a gap.** -/
theorem numbered_run (compiler : Compiler) (requests : List Request)
    (hroom : compiler.next.toNat + requests.length < 2 ^ 32) :
    compiler.Numbered requests (compiler.run requests).1 where
  number before request rest bundle hrequests hid hresult := by
    subst hrequests
    rw [getElem?_run] at hresult
    obtain ⟨hnumber, hheader⟩ := id_of_compile hid (Option.some.inj hresult)
    refine ⟨?_, hheader⟩
    have hcount : before.countP compiler.takes ≤ before.length := List.countP_le_length
    rw [List.length_append] at hroom
    rw [hnumber, toNat_next_advanced _ _ (by omega), countP_takes, counted_run_append, Nat.add_assoc]
  consecutive before after hrequests hkept := by
    subst hrequests
    rw [List.length_append] at hroom
    rw [counted_run_append]
    exact counted_eq_range' (by omega) hkept
  lost before request rest hrequests hloses := by
    subst hrequests
    rw [getElem?_run]
    rw [← loses_advanced compiler (before.countP compiler.takes)] at hloses
    obtain ⟨what, size, hwhat, hlong, hresult⟩ := compile_of_loses hloses
    exact ⟨what, size, hwhat, hlong, congrArg some hresult⟩

/-- Bytes that are too many for a list of resources. -/
def tooLong : Bytes := List.replicate 65532 0

theorem length_tooLong : tooLong.length = 65532 := List.length_replicate

/-- A short attachment, no text, an attachment, a short one that brings its number, and a last
short one. -/
def attachments (bytes : Bytes) : List Request :=
  [⟨(Json.attachment [1, 2, 3]).render, none⟩, ⟨"", none⟩, ⟨(Json.attachment bytes).render, none⟩,
    ⟨(Json.attachment []).render, some 7⟩, ⟨(Json.attachment []).render, none⟩]

theorem run_attachments (bytes : Bytes) :
    (initial.run (attachments bytes)).1 =
      [(Assembly.attachment [1, 2, 3]).bundle 1, .error (.unreadable (.breach .ended)),
        (Assembly.attachment bytes).bundle 2, (Assembly.attachment []).bundle 7,
        (Assembly.attachment []).bundle 3] := by
  rw [attachments, run_of_compile (compile_attachment ..), run_of_compile (compile_empty ..),
    run_of_compile (compile_attachment ..), run_of_compile (compile_attachment ..),
    run_of_compile (compile_attachment ..)]
  rfl

theorem bundle_tooLong (id : UInt32) :
    (Assembly.attachment tooLong).bundle id = .error (.tooLarge .resources 65536) := by
  rw [Assembly.bundle_attachment, length_tooLong]
  rfl

theorem numbered_run_attachments :
    initial.Numbered (attachments tooLong) (initial.run (attachments tooLong)).1 ∧
      (initial.run (attachments tooLong)).1.map (fun result => result.toOption.map Bundle.id) =
        [some 1, none, none, some 7, some 3] := by
  refine ⟨numbered_run initial (attachments tooLong) (by decide : 1 + 5 < 2 ^ 32), ?_⟩
  rw [run_attachments, bundle_tooLong]
  rfl

/-- **A program that is too long takes its number with it**: the programs that are counted have
the numbers one and three. -/
theorem number_lost :
    ¬ ∀ (compiler : Compiler) (requests : List Request),
      compiler.next.toNat + requests.length < 2 ^ 32 →
        (counted requests (compiler.run requests).1).map (fun bundle => bundle.id.toNat) =
          List.range' compiler.next.toNat (counted requests (compiler.run requests).1).length := by
  intro h
  have hclaim := h initial (attachments tooLong) (by decide : 1 + 5 < 2 ^ 32)
  have hnumbers : (counted (attachments tooLong) (initial.run (attachments tooLong)).1).map
      (fun bundle => bundle.id.toNat) = [1, 3] := by
    rw [run_attachments, bundle_tooLong]
    rfl
  have hlength := congrArg List.length hnumbers
  rw [List.length_map] at hlength
  rw [hnumbers, hlength] at hclaim
  exact absurd hclaim (by decide)

end Compiler

end Timepiece
