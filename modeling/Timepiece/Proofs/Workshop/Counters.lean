import Mathlib
import Timepiece.Proofs.Program.Numbering
import Timepiece.Proofs.Text.Integers
import Timepiece.Proofs.Workshop.Folders
import Timepiece.Workshop.Production

/-!
# The counter of a folder

A counter is a file with one line, the digits of a number.  What is written there is read back,
whatever else is written in between as long as it goes to other places.

## Main definitions

* `CompileOrder.numberIn?`, `Disk.number?` — the number that a counter says.

## Main results

* `CompileOrder.numberIn?_counterText` — **the counter that is written is read back.**
* `CompileOrder.id_of_bundle` — a program that is counted has the number that the counter says.
* `CompileOrder.exists_writes` — what is written besides a program.
* `Disk.find?_writeAll`, `Disk.find?_writeAll_cons` — what some writes leave at a place.
* `Disk.nextId_read` — the number that is read with a path is that of its place.
-/

namespace Timepiece

/-! ### Numbers in files -/

theorem textOfBytes?_bytesOfText (text : String) : textOfBytes? (bytesOfText text) = some text := by
  have hvalid : text.toByteArray.IsValidUTF8 := text.isValidUTF8
  have hbytes : (⟨text.toUTF8.data.toList.toArray⟩ : ByteArray) = text.toByteArray := by simp
  rw [textOfBytes?, bytesOfText, hbytes, String.fromUTF8?, dif_pos hvalid]
  rfl

namespace Text

/-- A line without blanks is its text. -/
theorem trim_line {text : List Char} (h : ∀ c ∈ text, isBlank c = false) :
    trim (text ++ ['\n']) = text := by
  have hbreak : isBlank '\n' = true := by decide
  cases text with
  | nil => simp [trim, hbreak]
  | cons c rest =>
    have hc : isBlank c = false := h c List.mem_cons_self
    have hback : ∀ d ∈ (c :: rest).reverse, isBlank d = false := fun d hd =>
      h d (List.mem_reverse.1 hd)
    rw [trim, List.cons_append, List.dropWhile_cons_of_neg (by rw [hc]; exact Bool.false_ne_true),
      ← List.cons_append, List.reverse_append, List.reverse_singleton, List.singleton_append,
      List.dropWhile_cons_of_pos hbreak, dropWhile_isBlank hback, List.reverse_reverse]

end Text

namespace CompileOrder

/-- The greatest number of a program. -/
def lastId : UInt32 := 0xffffffff

/-- The number that a file with a counter says. -/
def numberIn? (data : Bytes) : Option UInt32 :=
  (textOfBytes? data).bind fun text => Text.unsigned32? (Text.trim text.toList)

theorem lt_size_of_ne_lastId {id : UInt32} (h : id ≠ lastId) : id.toNat + 1 < UInt32.size := by
  have hlt := id.toNat_lt_size
  have hne : id.toNat ≠ UInt32.size - 1 := fun heq => h (UInt32.toNat.inj heq)
  omega

theorem lt_add_one {id : UInt32} (h : id ≠ lastId) : id < id + 1 := by
  have hlt := lt_size_of_ne_lastId h
  have hnext : (id + 1).toNat = id.toNat + 1 := by
    rw [UInt32.toNat_add]
    exact Nat.mod_eq_of_lt hlt
  rw [UInt32.lt_iff_toNat_lt, hnext]
  exact Nat.lt_succ_self _

theorem nextId_eq_ok_iff {path : String} {data : Bytes} {id : UInt32} :
    nextId path (.ok data) = .ok id ↔ numberIn? data = some id := by
  rw [nextId, numberIn?]
  cases textOfBytes? data with
  | none => simp
  | some text =>
    dsimp only [Option.bind_some]
    cases Text.unsigned32? (Text.trim text.toList) with
    | none => simp
    | some next => simp

/-- The counter that is written is read back. -/
theorem numberIn?_counterText {n : Nat} (h : n < UInt32.size) :
    numberIn? (bytesOfText (counterText n)) = some (UInt32.ofNat n) := by
  have htext : (counterText n).toList = Nat.toDigits 10 n ++ ['\n'] := by
    have hbreak : (toString "\n").toList = ['\n'] := rfl
    simp [counterText, hbreak]
  have hblank : ∀ c ∈ Nat.toDigits 10 n, Text.isBlank c = false := fun c hc =>
    Text.isBlank_of_isDigit (Nat.isDigit_of_mem_toDigits (by decide) (by decide) hc)
  rw [numberIn?, textOfBytes?_bytesOfText, Option.bind_some, htext, Text.trim_line hblank,
    Text.unsigned32?_toDigits h]

variable {order : CompileOrder} {bundle : Bundle} {source counter : Except DiskFault Bytes}

theorem bundle_eq_ok_iff (hid : order.id = none) : order.bundle source counter = .ok bundle ↔
    ∃ text next, order.sourceText source = .ok text ∧ nextId order.counterPath counter = .ok next ∧
      (Compiler.compile ⟨next, none⟩ text none).1 = .ok bundle := by
  unfold CompileOrder.bundle
  rw [hid]
  constructor
  · intro h
    obtain ⟨text, htext, h⟩ := bind_eq_ok_iff.1 h
    obtain ⟨next, hnext, h⟩ := bind_eq_ok_iff.1 h
    refine ⟨text, next, htext, hnext, ?_⟩
    dsimp only at h
    split at h
    · next made hmade =>
      obtain rfl := Except.ok.inj h
      exact hmade
    · cases h
  · rintro ⟨text, next, htext, hnext, hcompile⟩
    refine bind_eq_ok_iff.2 ⟨text, htext, bind_eq_ok_iff.2 ⟨next, hnext, ?_⟩⟩
    dsimp only
    rw [hcompile]
    rfl

/-- A program that is counted has the number that the counter says. -/
theorem id_of_bundle (hid : order.id = none) (h : order.bundle source counter = .ok bundle) :
    nextId order.counterPath counter = .ok bundle.id ∧
      Container.header bundle.binary = .ok ⟨1, bundle.id⟩ := by
  obtain ⟨text, next, -, hnext, hcompile⟩ := (bundle_eq_ok_iff hid).1 h
  obtain ⟨hnumber, hheader⟩ := @Compiler.id_of_compile ⟨next, none⟩ ⟨text, none⟩ bundle rfl hcompile
  refine ⟨?_, hheader⟩
  rw [hnext, hnumber]

theorem produce_of_id (hid : order.id ≠ none) :
    (order.produce bundle).writes = (order.output, bundle.binary) :: order.manifestWrite bundle := by
  rw [produce]
  cases h : order.id with
  | none => exact absurd h hid
  | some id => rfl

theorem produce_of_next (hid : order.id = none) (hlast : bundle.id ≠ lastId) :
    (order.produce bundle).writes = (order.output, bundle.binary) ::
      (order.counterPath, bytesOfText (counterText (bundle.id.toNat + 1))) ::
        order.manifestWrite bundle := by
  rw [produce, hid]
  dsimp only
  rw [if_pos (lt_size_of_ne_lastId hlast)]

theorem produce_of_last (hid : order.id = none) (hlast : bundle.id = lastId) :
    order.produce bundle = ⟨[(order.output, bundle.binary)], .error .exhausted⟩ := by
  have hfull : ¬ lastId.toNat + 1 < UInt32.size := by decide
  rw [produce, hid, hlast]
  dsimp only
  rw [if_neg hfull]

theorem mem_manifest {write : String × Bytes} (h : write ∈ order.manifestWrite bundle) :
    write.1 ∈ order.manifest := by
  simp only [manifestWrite, Option.mem_toList, Option.map_eq_some_iff] at h
  obtain ⟨path, hpath, rfl⟩ := h
  exact hpath

/-- After the program only its tables are written, and the counter if it is counted. -/
theorem exists_writes (order : CompileOrder) (bundle : Bundle) :
    ∃ rest, (order.produce bundle).writes = (order.output, bundle.binary) :: rest ∧
      ∀ write ∈ rest, order.id = none ∧ write.1 = order.counterPath ∨ write.1 ∈ order.manifest := by
  by_cases hid : order.id = none
  · by_cases hlast : bundle.id = lastId
    · exact ⟨[], by rw [produce_of_last hid hlast], by simp⟩
    · refine ⟨_, produce_of_next hid hlast, ?_⟩
      intro write hwrite
      rcases List.mem_cons.1 hwrite with rfl | hwrite
      · exact .inl ⟨hid, rfl⟩
      · exact .inr (mem_manifest hwrite)
  · exact ⟨_, produce_of_id hid, fun write hwrite => .inr (mem_manifest hwrite)⟩

end CompileOrder

/-! ### Writes -/

namespace Disk

variable {disk : Disk} {place : Place} {path : String} {data : Bytes}
  {writes : List (String × Bytes)}

/-- The number that the file with a counter says: the first one if there is none. -/
def number? (disk : Disk) (counter : Place) : Option UInt32 :=
  match disk.find? counter with
  | some (.file data) => CompileOrder.numberIn? data
  | some .folder => none
  | none => some 1

theorem number?_congr {other : Disk} (h : disk.find? place = other.find? place) :
    disk.number? place = other.number? place := by
  rw [number?, number?, h]

theorem find?_ne_folder {id : UInt32} (h : disk.number? place = some id) :
    disk.find? place ≠ some .folder := by
  intro hfolder
  rw [number?, hfolder] at h
  cases h

/-- The number that is read with a path is that of its place. -/
theorem nextId_read (hplace : disk.place path = .ok place)
    (hends : Path.endsAsFolder path = false) {id : UInt32} :
    CompileOrder.nextId path (disk.read path) = .ok id ↔ disk.number? place = some id := by
  rw [read, hplace, number?]
  dsimp only
  cases disk.find? place with
  | none => simp [CompileOrder.nextId]
  | some entry =>
    cases entry with
    | folder => simp [CompileOrder.nextId]
    | file data =>
      dsimp only
      rw [hends]
      exact CompileOrder.nextId_eq_ok_iff

theorem isSpeakable_of_nextId {id : UInt32}
    (h : CompileOrder.nextId path (disk.read path) = .ok id) : Path.isSpeakable path = true := by
  by_contra hspeak
  rw [Bool.not_eq_true] at hspeak
  have hread : disk.read path = .error .unusable := by
    rw [read, Disk.place, hspeak]
    rfl
  rw [hread] at h
  cases h

theorem writeAll_cons_of_ok {next : Disk} (h : disk.write path data = .ok next)
    (rest : List (String × Bytes)) :
    disk.writeAll ((path, data) :: rest) = next.writeAll rest := by
  rw [writeAll, h]

theorem writeAll_cons_of_error {fault : DiskFault} (h : disk.write path data = .error fault)
    (rest : List (String × Bytes)) :
    disk.writeAll ((path, data) :: rest) = (.error (.unwritable path), disk) := by
  rw [writeAll, h]

/-- Writes elsewhere leave a place alone. -/
theorem find?_writeAll (h : ∀ write ∈ writes, disk.place write.1 ≠ .ok place) :
    (disk.writeAll writes).2.find? place = disk.find? place := by
  induction writes generalizing disk with
  | nil => rfl
  | cons write rest ih =>
    obtain ⟨path, data⟩ := write
    obtain ⟨hfirst, hrest⟩ := List.forall_mem_cons.1 h
    rw [writeAll]
    cases hwrite : disk.write path data with
    | error fault => rfl
    | ok next =>
      obtain ⟨other, hother, hfile, -, rfl⟩ := write_eq_ok_iff.1 hwrite
      have hne : place ≠ other := by
        rintro rfl
        exact hfirst hother
      dsimp only
      rw [ih, find?_put_of_ne hne]
      intro write hmem
      rw [Ne, place_put hfile]
      exact hrest write hmem

/-- Places stay where they are when files are written. -/
theorem place_writeAll :
    (disk.writeAll writes).2.place path = .ok place ↔ disk.place path = .ok place := by
  induction writes generalizing disk with
  | nil => rfl
  | cons write rest ih =>
    rw [writeAll]
    cases hwrite : disk.write write.1 write.2 with
    | error fault => rfl
    | ok next =>
      obtain ⟨other, -, hfile, -, rfl⟩ := write_eq_ok_iff.1 hwrite
      exact ih.trans (place_put hfile)

/-- What is written to a place stays there if the other writes go elsewhere. -/
theorem find?_writeAll_cons (hplace : disk.place path = .ok place)
    (hfile : disk.find? place ≠ some .folder) (hends : Path.endsAsFolder path = false)
    (h : ∀ write ∈ writes, disk.place write.1 ≠ .ok place) :
    (disk.writeAll ((path, data) :: writes)).2.find? place = some (.file data) := by
  have hroot : place ≠ [] := by
    rintro rfl
    exact hfile rfl
  have hwrite : disk.write path data = .ok (disk.put place (.file data)) :=
    write_eq_ok_iff.2 ⟨place, hplace, hfile, hends, rfl⟩
  rw [writeAll_cons_of_ok hwrite, find?_writeAll, find?_put_self hroot]
  intro write hmem
  rw [Ne, place_put hfile]
  exact h write hmem

theorem carryOut_snd (disk : Disk) (production : Production) :
    (disk.carryOut production).2 = (disk.writeAll production.writes).2 := by
  rw [carryOut]
  split
  · next heq => rw [heq]
  · next heq => rw [heq]

end Disk

end Timepiece
