import Mathlib
import Timepiece.Proofs.Workshop.Counters

/-!
# Orders that count their programs

Programs without a number of their own get the next one of a counter in the folder that they are
written to.  The counter goes on once the program is written, and before its tables are.  So a
number that was given out is not given out again, even if something goes wrong in between, with
one exception.  There is no counter past the last number: a program gets it and is written, then
the order is given up and the counter left as it is, and the next program gets it as well.

An order need not come right after the one before it, nor on the disk that this one left: between
them everything may change but the counter.

## Main definitions

* `Errand` — an order that is carried out on a disk, with its answer and the disk after it.
* `Errand.Leaves`, `Errand.Counts` — a program is written for it, and one that is counted.
* `Errand.Spares`, `Errand.Follows` — it writes nothing else to the counter, and finds it as it was
  left.
* `Errand.Numbered` — how the programs of a folder are numbered.

## Main results

* `Errand.after_of_unwritten`, `Errand.find?_after` — what an order leaves alone.
* `Errand.Counts.counted` — where a program is counted, and how.
* `Errand.past_after`, `Errand.pairwise_past` — a counter stays past the numbers that were given
  out.
* `Errand.numbered_folder` — **programs that are counted on a disk get greater and greater
  numbers**, until the last one is reached.
-/

namespace Timepiece

/-! ### Orders that are carried out -/

/-- An order that is carried out on a disk. -/
structure Errand where
  disk : Disk
  order : CompileOrder

namespace Errand

/-- The answer to the order. -/
def result (errand : Errand) : Except WorkshopFault Summary :=
  (errand.disk.compile errand.order).1

/-- The disk once the order is carried out. -/
def after (errand : Errand) : Disk := (errand.disk.compile errand.order).2

/-- A program is made for the order and written. -/
structure Leaves (errand : Errand) (bundle : Bundle) : Prop where
  made : errand.order.bundle (errand.disk.read errand.order.input)
    (errand.disk.read errand.order.counterPath) = .ok bundle
  written : ∃ next, errand.disk.write errand.order.output bundle.binary = .ok next

/-- A program without a number of its own is made for the order and written. -/
def Counts (errand : Errand) (bundle : Bundle) : Prop :=
  errand.order.id = none ∧ errand.Leaves bundle

/-- The counter of the folder is at a place to which nothing else is written. -/
structure Spares (counter : Place) (errand : Errand) : Prop where
  output : errand.disk.place errand.order.output ≠ .ok counter
  manifest : ∀ path ∈ errand.order.manifest, errand.disk.place path ≠ .ok counter
  folder : ∀ place, errand.disk.place errand.order.counterPath = .ok place → place = counter

/-- An order finds the counter as the one before it left it. -/
def Follows (counter : Place) (errand next : Errand) : Prop :=
  next.disk.find? counter = errand.after.find? counter

variable {counter : Place} {errand : Errand} {bundle : Bundle}

theorem after_of_made (h : errand.order.bundle (errand.disk.read errand.order.input)
    (errand.disk.read errand.order.counterPath) = .ok bundle) :
    errand.after = (errand.disk.writeAll (errand.order.produce bundle).writes).2 := by
  rw [after, Disk.compile, Disk.carryOut_snd, CompileOrder.plan, h]

/-- **Nothing is written without a program.** -/
theorem after_of_unwritten (h : ∀ bundle, ¬ errand.Leaves bundle) : errand.after = errand.disk := by
  cases hmade : errand.order.bundle (errand.disk.read errand.order.input)
      (errand.disk.read errand.order.counterPath) with
  | error fault =>
    rw [after, Disk.compile, Disk.carryOut_snd, CompileOrder.plan, hmade]
    rfl
  | ok bundle =>
    obtain ⟨rest, hwrites, -⟩ := errand.order.exists_writes bundle
    rw [after_of_made hmade, hwrites]
    cases hwrite : errand.disk.write errand.order.output bundle.binary with
    | error fault => rw [Disk.writeAll_cons_of_error hwrite]
    | ok next => exact absurd ⟨hmade, next, hwrite⟩ (h bundle)

/-- **A place to which nothing is written is left alone.** -/
theorem find?_after {place : Place} (houtput : errand.disk.place errand.order.output ≠ .ok place)
    (hcounter : errand.order.id = none → errand.disk.place errand.order.counterPath ≠ .ok place)
    (hmanifest : ∀ path ∈ errand.order.manifest, errand.disk.place path ≠ .ok place) :
    errand.after.find? place = errand.disk.find? place := by
  by_cases hleaves : ∃ bundle, errand.Leaves bundle
  · obtain ⟨bundle, hmade, -⟩ := hleaves
    obtain ⟨rest, hwrites, hrest⟩ := errand.order.exists_writes bundle
    rw [after_of_made hmade, hwrites]
    refine Disk.find?_writeAll ?_
    intro write hwrite
    rcases List.mem_cons.1 hwrite with rfl | hwrite
    · exact houtput
    · rcases hrest write hwrite with ⟨hid, hpath⟩ | htables
      · rw [hpath]
        exact hcounter hid
      · exact hmanifest _ htables
  · rw [after_of_unwritten (not_exists.1 hleaves)]

/-- The counter is left alone for a program with a number of its own. -/
theorem find?_after_of_id (hspares : errand.Spares counter) (hid : errand.order.id ≠ none) :
    errand.after.find? counter = errand.disk.find? counter :=
  find?_after hspares.output (fun hnone => absurd hnone hid) hspares.manifest

/-- **The program is left where it was written**, unless its tables are written there as well. -/
theorem Leaves.find?_after (h : errand.Leaves bundle) (hspares : errand.Spares counter)
    (hmanifest : ∀ path ∈ errand.order.manifest,
      errand.disk.place path ≠ errand.disk.place errand.order.output) :
    ∃ place, errand.disk.place errand.order.output = .ok place ∧
      errand.after.find? place = some (.file bundle.binary) := by
  obtain ⟨next, hwrite⟩ := h.written
  obtain ⟨place, hplace, hfile, hends, -⟩ := Disk.write_eq_ok_iff.1 hwrite
  obtain ⟨rest, hwrites, hrest⟩ := errand.order.exists_writes bundle
  refine ⟨place, hplace, ?_⟩
  rw [after_of_made h.made, hwrites]
  refine Disk.find?_writeAll_cons hplace hfile hends ?_
  intro write hmem hother
  rcases hrest write hmem with ⟨-, hcounter⟩ | htables
  · rw [hcounter] at hother
    obtain rfl := hspares.folder place hother
    exact hspares.output hplace
  · exact hmanifest _ htables (hother.trans hplace.symm)

theorem place_after {path : String} {place : Place} :
    errand.after.place path = .ok place ↔ errand.disk.place path = .ok place := by
  rw [after, Disk.compile, Disk.carryOut_snd]
  exact Disk.place_writeAll

theorem Leaves.read_after (h : errand.Leaves bundle) (hspares : errand.Spares counter)
    (hmanifest : ∀ path ∈ errand.order.manifest,
      errand.disk.place path ≠ errand.disk.place errand.order.output) :
    errand.after.read errand.order.output = .ok bundle.binary := by
  obtain ⟨place, hplace, hfile⟩ := h.find?_after hspares hmanifest
  obtain ⟨next, hwrite⟩ := h.written
  obtain ⟨-, -, -, hends, -⟩ := Disk.write_eq_ok_iff.1 hwrite
  rw [Disk.read, place_after.2 hplace]
  dsimp only
  rw [hfile, hends]
  rfl

/-! ### Programs that are counted -/

/-- Where the counter of a program is found, and what it says. -/
structure Counted (counter : Place) (errand : Errand) (bundle : Bundle) : Prop where
  place : errand.disk.place errand.order.counterPath = .ok counter
  ends : Path.endsAsFolder errand.order.counterPath = false
  number : errand.disk.number? counter = some bundle.id
  header : Container.header bundle.binary = .ok ⟨1, bundle.id⟩

/-- **A program is counted in the folder that it is written to.** -/
theorem Counts.counted (h : errand.Counts bundle) (hspares : errand.Spares counter) :
    errand.Counted counter bundle := by
  obtain ⟨hid, hmade, next, hwrite⟩ := h
  obtain ⟨place, hplace, hfile, hends, -⟩ := Disk.write_eq_ok_iff.1 hwrite
  obtain ⟨hnumber, hheader⟩ := CompileOrder.id_of_bundle hid hmade
  have hspeak : Path.isSpeakable errand.order.counterPath = true :=
    Disk.isSpeakable_of_nextId hnumber
  have hslash : '/' ∉ CompileOrder.counterName.toList := by decide
  have hbusy : Path.isIdle CompileOrder.counterName = false := by decide
  have hup : CompileOrder.counterName ≠ ".." := by decide
  have hname : Path.isName CompileOrder.counterName = true := by decide
  have hbeside : errand.disk.place errand.order.counterPath =
      .ok (place.dropLast ++ [CompileOrder.counterName]) :=
    Disk.place_beside hplace hfile hends hspeak hslash hbusy hup hname
  have hrelative : Path.isAbsolute errand.order.output = false :=
    (Disk.place_eq_ok_iff.1 hplace).2.2.1
  have hcounter : Path.endsAsFolder errand.order.counterPath = false :=
    (Path.file_beside hends hrelative hslash hbusy).2
  rw [hspares.folder _ hbeside] at hbeside
  exact ⟨hbeside, hcounter, (Disk.nextId_read hbeside hcounter).1 hnumber, hheader⟩

/-- The counter goes on by one. -/
theorem Counts.find?_after (h : errand.Counts bundle) (hspares : errand.Spares counter)
    (hlast : bundle.id ≠ CompileOrder.lastId) :
    errand.after.find? counter =
      some (.file (bytesOfText (CompileOrder.counterText (bundle.id.toNat + 1)))) := by
  have hcounted := h.counted hspares
  obtain ⟨hid, hmade, next, hwrite⟩ := h
  obtain ⟨place, hplace, hfile, -, rfl⟩ := Disk.write_eq_ok_iff.1 hwrite
  have hne : counter ≠ place := by
    rintro rfl
    exact hspares.output hplace
  -- what stands where the counter is kept is the same with the program as without it
  have hcounter : (errand.disk.put place (.file bundle.binary)).find? counter ≠ some .folder := by
    rw [Disk.find?_put_of_ne hne]
    exact Disk.find?_ne_folder hcounted.number
  rw [after_of_made hmade, CompileOrder.produce_of_next hid hlast, Disk.writeAll_cons_of_ok hwrite]
  refine Disk.find?_writeAll_cons ((Disk.place_put hfile).2 hcounted.place) hcounter
    hcounted.ends ?_
  intro write hmem
  rw [Ne, Disk.place_put hfile]
  exact hspares.manifest _ (CompileOrder.mem_manifest hmem)

theorem Counts.number?_after (h : errand.Counts bundle) (hspares : errand.Spares counter)
    (hlast : bundle.id ≠ CompileOrder.lastId) :
    errand.after.number? counter = some (bundle.id + 1) := by
  have hnumber := CompileOrder.numberIn?_counterText (CompileOrder.lt_size_of_ne_lastId hlast)
  rw [Disk.number?, h.find?_after hspares hlast]
  dsimp only
  rw [hnumber, UInt32.ofNat_add, UInt32.ofNat_toNat]
  rfl

/-- With the last number the program is written and then given up. -/
theorem Counts.exhausted (h : errand.Counts bundle) (hspares : errand.Spares counter)
    (hlast : bundle.id = CompileOrder.lastId) :
    errand.result = .error .exhausted ∧
      errand.after.find? counter = errand.disk.find? counter := by
  obtain ⟨hid, hmade, next, hwrite⟩ := h
  have hwrites := CompileOrder.produce_of_last hid hlast
  constructor
  · rw [result, Disk.compile, CompileOrder.plan, hmade]
    dsimp only
    rw [hwrites, Disk.carryOut, Disk.writeAll_cons_of_ok hwrite]
    rfl
  · rw [after_of_made hmade, hwrites]
    refine Disk.find?_writeAll ?_
    intro write hmem
    obtain rfl := List.mem_singleton.1 hmem
    exact hspares.output

/-- The counter is left alone unless a program is counted. -/
theorem find?_after_of_uncounted (hspares : errand.Spares counter)
    (h : ∀ bundle, ¬ errand.Counts bundle) :
    errand.after.find? counter = errand.disk.find? counter := by
  by_cases hid : errand.order.id = none
  · rw [after_of_unwritten fun bundle hleaves => h bundle ⟨hid, hleaves⟩]
  · exact find?_after_of_id hspares hid

/-! ### Orders one after the other -/

/-- A counter is past a number: it says a greater one, or both are the last one. -/
def Past (counter : Place) (id : UInt32) (disk : Disk) : Prop :=
  ∃ next, disk.number? counter = some next ∧
    (id < next ∨ id = CompileOrder.lastId ∧ next = CompileOrder.lastId)

theorem past_congr {id : UInt32} {disk next : Disk} (h : next.find? counter = disk.find? counter) :
    Past counter id next ↔ Past counter id disk := by
  rw [Past, Past, Disk.number?_congr h]

/-- Once a program is counted, the counter is past its number. -/
theorem Counts.past_after (h : errand.Counts bundle) (hspares : errand.Spares counter) :
    Past counter bundle.id errand.after := by
  by_cases hlast : bundle.id = CompileOrder.lastId
  · rw [past_congr (h.exhausted hspares hlast).2]
    exact ⟨bundle.id, (h.counted hspares).number, .inr ⟨hlast, hlast⟩⟩
  · exact ⟨bundle.id + 1, h.number?_after hspares hlast, .inl (CompileOrder.lt_add_one hlast)⟩

/-- A counter never goes back. -/
theorem past_after (hspares : errand.Spares counter) {id : UInt32}
    (h : Past counter id errand.disk) : Past counter id errand.after := by
  by_cases hcounts : ∃ bundle, errand.Counts bundle
  · obtain ⟨bundle, hcounts⟩ := hcounts
    obtain ⟨next, hnext, hpast⟩ := h
    rw [(hcounts.counted hspares).number] at hnext
    obtain rfl := Option.some.inj hnext
    obtain ⟨after, hafter, hless⟩ := hcounts.past_after hspares
    refine ⟨after, hafter, ?_⟩
    rcases hpast with hlt | ⟨hid, hlast⟩
    · rcases hless with hmore | ⟨hlast, hstays⟩
      · exact .inl (UInt32.lt_trans hlt hmore)
      · rw [hstays, ← hlast]
        exact .inl hlt
    · rw [hid, ← hlast]
      rw [hlast] at hless ⊢
      exact hless
  · rwa [past_congr (find?_after_of_uncounted hspares (not_exists.1 hcounts))]

/-- What a counter is past it stays past. -/
theorem past_of_chain {errands : List Errand} {id : UInt32}
    (hspares : ∀ errand ∈ errands, errand.Spares counter)
    (hchain : errands.IsChain (Follows counter))
    (hfirst : ∀ errand ∈ errands.head?, Past counter id errand.disk) :
    ∀ errand ∈ errands, Past counter id errand.disk := by
  induction errands with
  | nil => simp
  | cons errand rest ih =>
    obtain ⟨herrand, hrest⟩ := List.forall_mem_cons.1 hspares
    obtain ⟨hnext, hchain⟩ := List.isChain_cons.1 hchain
    have hpast : Past counter id errand.disk := hfirst errand rfl
    refine List.forall_mem_cons.2 ⟨hpast, ih hrest hchain ?_⟩
    intro next hhead
    rw [past_congr (hnext next hhead)]
    exact past_after herrand hpast

/-- **The counter of a later order is past the number of an earlier program.** -/
theorem pairwise_past {errands : List Errand}
    (hspares : ∀ errand ∈ errands, errand.Spares counter)
    (hchain : errands.IsChain (Follows counter)) :
    errands.Pairwise fun earlier later =>
      ∀ bundle, earlier.Counts bundle → Past counter bundle.id later.disk := by
  induction errands with
  | nil => exact List.Pairwise.nil
  | cons errand rest ih =>
    obtain ⟨herrand, hrest⟩ := List.forall_mem_cons.1 hspares
    obtain ⟨hnext, hchain⟩ := List.isChain_cons.1 hchain
    refine List.pairwise_cons.2 ⟨?_, ih hrest hchain⟩
    intro later hlater bundle hcounts
    refine past_of_chain hrest hchain ?_ later hlater
    intro next hhead
    rw [past_congr (hnext next hhead)]
    exact hcounts.past_after herrand

/-! ### An attachment that is ordered twice -/

/-- The order for a document with the name of an attachment. -/
def attaching : CompileOrder := ⟨"attachment.json", "attachment.bin", none, none⟩

/-- A disk with the document and some other entries. -/
def desk (bytes : Bytes) (entries : List (Place × DiskEntry)) : Disk :=
  ⟨(["attachment.json"], .file (bytesOfText (Json.attachment bytes).render)) :: entries⟩

/-- The order on a disk. -/
def ordered (disk : Disk) : Errand := ⟨disk, attaching⟩

@[simp] theorem ordered_disk (disk : Disk) : (ordered disk).disk = disk := rfl

@[simp] theorem ordered_order (disk : Disk) : (ordered disk).order = attaching := rfl

/-- The order is carried out, and then once more. -/
def twice (disk : Disk) : List Errand := [ordered disk, ordered (ordered disk).after]

theorem place_attaching (disk : Disk) :
    disk.place attaching.input = .ok ["attachment.json"] ∧
      disk.place attaching.output = .ok ["attachment.bin"] ∧
        disk.place attaching.counterPath = .ok [CompileOrder.counterName] := by
  have hpath : attaching.counterPath = CompileOrder.counterName :=
    Path.beside_of_noSlash (by decide) _
  rw [hpath]
  exact ⟨Disk.place_name (by decide) (by decide) (by decide) (by decide) (by decide),
    Disk.place_name (by decide) (by decide) (by decide) (by decide) (by decide),
    Disk.place_name (by decide) (by decide) (by decide) (by decide) (by decide)⟩

theorem spares_attaching (disk : Disk) :
    (ordered disk).Spares [CompileOrder.counterName] := by
  obtain ⟨-, houtput, hcounter⟩ := place_attaching disk
  refine ⟨?_, ?_, ?_⟩
  · rw [ordered_disk, ordered_order, houtput]
    decide
  · intro path hpath
    cases hpath
  · intro place hplace
    rw [ordered_disk, ordered_order, hcounter] at hplace
    exact (Except.ok.inj hplace).symm

/-- The program with the attachment and a number. -/
def attached (bytes : Bytes) (id : UInt32) : Bundle :=
  ⟨id, "attachment", ((Assembly.attachment bytes).program id).bytes, [], []⟩

/-- The attachment is compiled with the number of the counter. -/
theorem counts_attaching {disk : Disk} {bytes : Bytes} {id : UInt32}
    (hinput : disk.find? ["attachment.json"] =
      some (.file (bytesOfText (Json.attachment bytes).render)))
    (houtput : disk.find? ["attachment.bin"] ≠ some .folder)
    (hnumber : disk.number? [CompileOrder.counterName] = some id)
    (hlength : bytes.length + 4 ≤ maxLength) :
    (ordered disk).Counts (attached bytes id) := by
  obtain ⟨hin, hout, hcounter⟩ := place_attaching disk
  refine ⟨rfl, ?_, ?_⟩
  · have hread : disk.read attaching.input = .ok (bytesOfText (Json.attachment bytes).render) := by
      rw [Disk.read, hin]
      dsimp only
      rw [hinput]
      rfl
    have hnext : CompileOrder.nextId attaching.counterPath (disk.read attaching.counterPath) =
        .ok id := (Disk.nextId_read hcounter (by decide)).2 hnumber
    refine (CompileOrder.bundle_eq_ok_iff rfl).2 ⟨(Json.attachment bytes).render, id, ?_, hnext, ?_⟩
    · rw [ordered_disk, ordered_order, hread, CompileOrder.sourceText, textOfBytes?_bytesOfText]
    · rw [Compiler.compile_attachment, Option.getD_none, Assembly.bundle_attachment,
        if_pos hlength]
      rfl
  · have hends : Path.endsAsFolder attaching.output = false := by decide
    exact ⟨_, Disk.write_eq_ok_iff.2 ⟨_, hout, houtput, hends, rfl⟩⟩

/-- The document is still there for the second order. -/
theorem counts_again {disk : Disk} {bytes : Bytes} {next : UInt32}
    (hinput : disk.find? ["attachment.json"] =
      some (.file (bytesOfText (Json.attachment bytes).render)))
    (hcounts : (ordered disk).Counts bundle)
    (hnumber : (ordered disk).after.number? [CompileOrder.counterName] = some next)
    (hlength : bytes.length + 4 ≤ maxLength) :
    (ordered (ordered disk).after).Counts (attached bytes next) := by
  obtain ⟨-, hout, hcounter⟩ := place_attaching disk
  refine counts_attaching ?_ ?_ hnumber hlength
  · rw [find?_after, ordered_disk, hinput]
    · rw [ordered_disk, ordered_order, hout]
      decide
    · intro _
      rw [ordered_disk, ordered_order, hcounter]
      decide
    · intro path hpath
      cases hpath
  · obtain ⟨place, hplace, hfile⟩ := hcounts.2.find?_after (spares_attaching disk) (by
      intro path hpath
      cases hpath)
    rw [ordered_disk, ordered_order, hout] at hplace
    rw [Except.ok.inj hplace, hfile]
    simp

theorem spares_twice (disk : Disk) :
    ∀ errand ∈ twice disk, errand.Spares [CompileOrder.counterName] := by
  simp [twice, spares_attaching]

theorem chain_twice (disk : Disk) : (twice disk).IsChain (Follows [CompileOrder.counterName]) := by
  simp [twice, Follows]

/-- How the programs of a folder are numbered. -/
structure Numbered (counter : Place) (errands : List Errand) : Prop where
  /-- An order for a program with a number of its own leaves the counter alone. -/
  own : ∀ errand ∈ errands, errand.order.id ≠ none →
    errand.after.find? counter = errand.disk.find? counter
  /-- An order that leaves no program leaves everything alone. -/
  unwritten : ∀ errand ∈ errands, (∀ bundle, ¬ errand.Leaves bundle) → errand.after = errand.disk
  /-- A program that was written is there, unless its tables are written there as well. -/
  left : ∀ errand ∈ errands, ∀ bundle, errand.Leaves bundle →
    (∀ path ∈ errand.order.manifest,
      errand.disk.place path ≠ errand.disk.place errand.order.output) →
    errand.after.read errand.order.output = .ok bundle.binary
  /-- A program that is counted has the number of the counter in its header. -/
  counted : ∀ errand ∈ errands, ∀ bundle, errand.Counts bundle →
    errand.disk.number? counter = some bundle.id ∧
      Container.header bundle.binary = .ok ⟨1, bundle.id⟩
  /-- The counter goes on after it, whatever becomes of the tables. -/
  advanced : ∀ errand ∈ errands, ∀ bundle, errand.Counts bundle → bundle.id ≠ CompileOrder.lastId →
    errand.after.number? counter = some (bundle.id + 1) ∧ bundle.id < bundle.id + 1
  /-- After the last number it stays where it is. -/
  exhausted : ∀ errand ∈ errands, ∀ bundle, errand.Counts bundle → bundle.id = CompileOrder.lastId →
    errand.result = .error .exhausted ∧
      errand.after.find? counter = errand.disk.find? counter
  /-- Later programs have greater numbers, up to the last one. -/
  rising : errands.Pairwise fun earlier later => ∀ before bundle,
    earlier.Counts before → later.Counts bundle →
      before.id < bundle.id ∨ before.id = CompileOrder.lastId ∧ bundle.id = CompileOrder.lastId

/-- **Programs that are counted on a disk get greater and greater numbers**, until the last one
is reached. -/
theorem numbered_folder {errands : List Errand} (hspares : ∀ errand ∈ errands, errand.Spares counter)
    (hchain : errands.IsChain (Follows counter)) : Numbered counter errands where
  own errand hmem hid := find?_after_of_id (hspares errand hmem) hid
  unwritten errand _ h := after_of_unwritten h
  left errand hmem bundle hleaves := hleaves.read_after (hspares errand hmem)
  counted errand hmem bundle hcounts := by
    have hcounted := hcounts.counted (hspares errand hmem)
    exact ⟨hcounted.number, hcounted.header⟩
  advanced errand hmem bundle hcounts hlast :=
    ⟨hcounts.number?_after (hspares errand hmem) hlast, CompileOrder.lt_add_one hlast⟩
  exhausted errand hmem bundle hcounts := hcounts.exhausted (hspares errand hmem)
  rising := by
    refine List.Pairwise.imp_of_mem ?_ (pairwise_past hspares hchain)
    intro earlier later _ hlater hpast before bundle hbefore hcounts
    obtain ⟨next, hnext, hless⟩ := hpast before hbefore
    rw [(hcounts.counted (hspares later hlater)).number] at hnext
    obtain rfl := Option.some.inj hnext
    exact hless

/-- Two programs that are ordered one after the other have the numbers one and two. -/
theorem numbered_folder_attachment :
    Numbered [CompileOrder.counterName] (twice (desk [1, 2, 3] [])) ∧
      (ordered (desk [1, 2, 3] [])).Counts (attached [1, 2, 3] 1) ∧
        (ordered (ordered (desk [1, 2, 3] [])).after).Counts (attached [1, 2, 3] 2) := by
  refine ⟨numbered_folder (spares_twice _) (chain_twice _), ?_⟩
  have hlast : (1 : UInt32) ≠ CompileOrder.lastId := by decide
  have hfirst : (ordered (desk [1, 2, 3] [])).Counts (attached [1, 2, 3] 1) :=
    counts_attaching rfl (by decide) rfl (by decide)
  have hnext := hfirst.number?_after (spares_attaching _) hlast
  exact ⟨hfirst, counts_again rfl hfirst hnext (by decide)⟩

/-- A desk on which the counter says the last number. -/
def lastDesk : Disk :=
  desk [1, 2, 3] [([CompileOrder.counterName],
    .file (bytesOfText (CompileOrder.counterText CompileOrder.lastId.toNat)))]

theorem counts_lastDesk :
    (ordered lastDesk).Counts (attached [1, 2, 3] CompileOrder.lastId) ∧
      (ordered (ordered lastDesk).after).Counts (attached [1, 2, 3] CompileOrder.lastId) := by
  have hnumber : lastDesk.number? [CompileOrder.counterName] = some CompileOrder.lastId :=
    CompileOrder.numberIn?_counterText CompileOrder.lastId.toNat_lt_size
  have hfirst : (ordered lastDesk).Counts (attached [1, 2, 3] CompileOrder.lastId) :=
    counts_attaching rfl (by decide) hnumber (by decide)
  have hkept := (hfirst.exhausted (spares_attaching lastDesk) rfl).2
  have hnext := (Disk.number?_congr hkept).trans hnumber
  exact ⟨hfirst, counts_again rfl hfirst hnext (by decide)⟩

theorem exhausted_lastDesk : ∀ errand ∈ twice lastDesk, errand.result = .error .exhausted := by
  obtain ⟨hfirst, hsecond⟩ := counts_lastDesk
  simp [twice, (hfirst.exhausted (spares_attaching _) rfl).1,
    (hsecond.exhausted (spares_attaching _) rfl).1]

/-- **The last number is given out again**: a program with it is written, and the counter stays. -/
theorem last_repeated :
    ¬ ∀ (counter : Place) (errands : List Errand),
      (∀ errand ∈ errands, errand.Spares counter) →
      errands.IsChain (Follows counter) →
      (∀ errand ∈ errands, ∀ path, errand.result ≠ .error (.unreadable path) ∧
        errand.result ≠ .error (.unwritable path)) →
      (errands.Pairwise fun earlier later => ∀ before bundle,
        earlier.Counts before → later.Counts bundle → before.id ≠ bundle.id) ∧
      ∀ errand ∈ errands, ∀ bundle, errand.Counts bundle →
        ∃ next, errand.after.number? counter = some next ∧ bundle.id < next := by
  intro h
  have hcarried : ∀ errand ∈ twice lastDesk, ∀ path,
      errand.result ≠ .error (.unreadable path) ∧ errand.result ≠ .error (.unwritable path) := by
    intro errand hmem path
    rw [exhausted_lastDesk errand hmem]
    simp
  obtain ⟨hdistinct, -⟩ :=
    h [CompileOrder.counterName] (twice lastDesk) (spares_twice _) (chain_twice _) hcarried
  obtain ⟨hfirst, hsecond⟩ := counts_lastDesk
  exact (List.pairwise_cons.1 hdistinct).1 _ List.mem_cons_self _ _ hfirst hsecond rfl

end Errand

end Timepiece
