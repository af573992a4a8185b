import Ubiq.Foundation.Execution
import Ubiq.Settlement.RecordJson

/-!
# What a replay reads of a journal file

A journal is the lines of its records one after the other. A prefix of the file, wherever it is cut,
has the lines that end within it, and `Store.replay` visits exactly these (`replay_truncated`).

`Store.append` and `Store.replay` compare with `max_bytes` in different ways: an append may fill the
file up to the limit, a replay refuses a file that reaches it. `readsBack_iff` says that this is the
only disagreement while no append writes behind a torn line.
-/

namespace Ubiq.Settlement

open Foundation

/-! ## Truncated files -/

/-- Appends in turn that all succeed. -/
def Store.appendAll (store : Store) : Disk → List Record → Except Error Disk
  | disk, [] => .ok disk
  | disk, record :: rest =>
      match store.append disk record none with
      | (_, .error err) => .error err
      | (next, .ok ()) => store.appendAll next rest

/-- The records whose lines end within the first `length` bytes. -/
def Store.complete (store : Store) : Nat → List Record → List Record
  | _, [] => []
  | length, record :: rest =>
      if (store.line record).length ≤ length then
        record :: store.complete (length - (store.line record).length) rest
      else []

/-- A record that an append may write. -/
def Store.Writable (store : Store) (record : Record) : Prop :=
  validateRecord record = .ok () ∧ (store.codec.stringify record).length ≤ store.maxRecordBytes

variable {store : Store} {disk : Disk}

theorem append_eq_ok {record : Record} {fault : Option AppendFault}
    (h : (store.append disk record fault).2 = .ok ()) :
    fault = none ∧ store.admits disk record = true ∧
      (store.append disk record fault).1.bytes = disk.bytes ++ store.line record := by
  rcases append_cases store disk record fault with
    ⟨err, herr, -⟩ | ⟨err, written, herr, -⟩ | ⟨-, hfault, hadmits, hbytes, -⟩
  · rw [herr] at h
    cases h
  · rw [herr] at h
    cases h
  · exact ⟨hfault, hadmits, hbytes⟩

/-- The file after the appends, and what their guards have let through. -/
theorem appendAll_eq_ok {final : Disk} {records : List Record}
    (h : store.appendAll disk records = .ok final) :
    final.bytes = disk.bytes ++ (records.map store.line).flatten ∧
      ∀ record ∈ records, store.Writable record := by
  induction records generalizing disk with
  | nil =>
      cases h
      simp
  | cons record rest ih =>
      unfold Store.appendAll at h
      split at h
      · cases h
      · next next happend =>
          have hok : (store.append disk record none).2 = .ok () := by rw [happend]
          obtain ⟨-, hadmits, hbytes⟩ := append_eq_ok hok
          rw [happend] at hbytes
          obtain ⟨hfinal, hrest⟩ := ih h
          obtain ⟨hvalid, hsize, -⟩ := admits_iff.mp hadmits
          refine ⟨?_, List.forall_mem_cons.mpr ⟨⟨hvalid, hsize⟩, hrest⟩⟩
          rw [hfinal, hbytes, List.map_cons, List.flatten_cons, List.append_assoc]

/-- A prefix of the file has the complete lines of the records that end within it. -/
theorem completeLines_take_lines (store : Store) (length : Nat) (records : List Record) :
    Lines.completeLines newline ((records.map store.line).flatten.take length) =
      (store.complete length records).map store.lineText := by
  induction records generalizing length with
  | nil => simp [Store.complete]
  | cons record rest ih =>
      rw [List.map_cons, List.flatten_cons, List.take_append, Store.complete]
      have hnewline := newline_not_mem_lineText store record
      by_cases hfits : (store.line record).length ≤ length
      · rw [if_pos hfits, List.take_of_length_le hfits, Lines.completeLines_append,
          show Lines.tail newline (store.line record) = [] from Lines.clean_line hnewline,
          List.nil_append, ih, Store.line, Lines.completeLines_line hnewline]
        rfl
      · -- the cut is inside this line, before its newline
        have hshort : length < (store.line record).length := Nat.lt_of_not_le hfits
        rw [if_neg hfits, Nat.sub_eq_zero_of_le hshort.le, List.take_zero, List.append_nil,
          Lines.completeLines_of_not_mem (newline_not_mem_take_line hshort)]
        rfl

theorem decodeLines_lineText {records : List Record}
    (h : ∀ record ∈ records, store.Writable record) :
    store.decodeLines (records.map store.lineText) = .ok records := by
  induction records with
  | nil => rfl
  | cons record rest ih =>
      obtain ⟨⟨hvalid, hsize⟩, hrest⟩ := List.forall_mem_cons.mp h
      exact decodeLines_cons_ok_iff.mpr
        ⟨record, rest, decodeLine_lineText hvalid hsize, ih hrest, rfl⟩

theorem complete_subset (store : Store) (length : Nat) (records : List Record) :
    store.complete length records ⊆ records := by
  induction records generalizing length with
  | nil => exact List.Subset.refl _
  | cons record rest ih =>
      rw [Store.complete]
      split
      · exact List.cons_subset_cons record (ih _)
      · exact List.nil_subset _

/-- **Replay of a truncated journal.** Wherever the file is cut, a replay below the size limit
succeeds and visits the records whose lines are complete, in order. -/
theorem replay_truncated {γ : Type*} (store : Store) {records : List Record} {disk : Disk}
    (happended : store.appendAll {} records = .ok disk) (length synced : Nat)
    (hsize : (disk.bytes.take length).length < store.maxBytes.toNat)
    (visitor : γ → Record → Except Error γ) (context : γ) {final : γ}
    (hvisit : (store.complete length records).foldlM visitor context = .ok final) :
    store.replay ⟨some (disk.bytes.take length), synced⟩ context visitor none =
      ⟨final, store.complete length records, .ok (store.complete length records).length⟩ := by
  obtain ⟨hbytes, hwritable⟩ := appendAll_eq_ok happended
  have hfile : disk.bytes = (records.map store.line).flatten := hbytes
  refine replay_of_decode ?_ hvisit hsize
  show store.decodeLines (Lines.completeLines newline (disk.bytes.take length)) = _
  rw [hfile, completeLines_take_lines]
  exact decodeLines_lineText fun record hrecord =>
    hwritable record (complete_subset store length records hrecord)

/-- Two records in a journal. -/
def twoRecords : List Record :=
  [snapshot "evt-1" "key-1" .published none, snapshot "evt-1" "key-1" .leased (some "worker")]

/-- The journal of the two records. -/
def twoRecordsFile : Bytes :=
  (twoRecords.map jsonStore.line).flatten

/-- The file without its last byte, the newline of the second line. -/
theorem replay_truncated_twoRecords :
    jsonStore.replay ⟨some (twoRecordsFile.take (twoRecordsFile.length - 1)), 0⟩ 0
        (fun count _ => .ok (count + 1)) none =
      ⟨1, [snapshot "evt-1" "key-1" .published none], .ok 1⟩ := by
  have happended : jsonStore.appendAll {} twoRecords =
      .ok ⟨some twoRecordsFile, twoRecordsFile.length⟩ := by decide +kernel
  have hcomplete : jsonStore.complete (twoRecordsFile.length - 1) twoRecords =
      [snapshot "evt-1" "key-1" .published none] := by decide +kernel
  have hreplay := replay_truncated jsonStore happended (twoRecordsFile.length - 1) 0
    (by decide +kernel) (fun (count : Nat) _ => .ok (count + 1)) 0 (by rw [hcomplete]; rfl)
  simp only [Disk.bytes, Option.getD_some, hcomplete, List.length_singleton] at hreplay
  exact hreplay

/-! ## The size limits -/

/-- A call of `Store.append` with the failure that the environment gives it. -/
structure AppendCall where
  record : Record
  fault : Option AppendFault := none
deriving DecidableEq, Repr

/-- The journal and the records of the appends that have succeeded. -/
structure Journal where
  disk : Disk := {}
  accepted : List Record := []
deriving DecidableEq, Repr

/-- One append. -/
def Store.step (store : Store) (journal : Journal) (call : AppendCall) : Journal :=
  match store.append journal.disk call.record call.fault with
  | (disk, .ok ()) => ⟨disk, journal.accepted ++ [call.record]⟩
  | (disk, .error _) => ⟨disk, journal.accepted⟩

/-- A replay fails with no size error and visits the accepted records in their order. -/
def Store.Reads (store : Store) (journal : Journal) : Prop :=
  let replay := store.replay journal.disk () (fun _ _ => .ok ()) none
  replay.result ≠ .error .streamTooLong ∧ replay.result ≠ .error .recordTooLarge ∧
    journal.accepted.Sublist replay.visited

/-- If the append succeeds, a replay reads the journal. -/
def Store.ReadsBack (store : Store) (journal : Journal) (call : AppendCall) : Prop :=
  (store.append journal.disk call.record call.fault).2 = .ok () →
    store.Reads (store.step journal call)

/-- An append that gets to its write finds no torn line. -/
def Store.WritesClean (store : Store) (journal : Journal) (call : AppendCall) : Prop :=
  store.admits journal.disk call.record = true → journal.disk.Clean

instance decidableWritesClean (store : Store) (journal : Journal) (call : AppendCall) :
    Decidable (store.WritesClean journal call) :=
  inferInstanceAs (Decidable (_ → _))

/-- An append that no failure stops leaves the file below `max_bytes`. -/
def Store.LeavesRoom (store : Store) (journal : Journal) (call : AppendCall) : Prop :=
  store.admits journal.disk call.record = true → call.fault = none →
    journal.disk.bytes.length + (store.line call.record).length < store.maxBytes.toNat

instance decidableLeavesRoom (store : Store) (journal : Journal) (call : AppendCall) :
    Decidable (store.LeavesRoom journal call) :=
  inferInstanceAs (Decidable (_ → _))

/-- The complete lines decode, and the accepted records are among them in order. -/
def Store.Intact (store : Store) (journal : Journal) : Prop :=
  ∃ records, store.records journal.disk = .ok records ∧ journal.accepted.Sublist records

theorem append_of_admits {record : Record} (h : store.admits disk record = true) :
    (store.append disk record none).2 = .ok () := by
  obtain ⟨hvalid, hsize, hfull⟩ := admits_iff.mp h
  simp [Store.append, hvalid, Nat.not_lt.mpr hsize, hfull]

variable {journal : Journal} {call : AppendCall}

theorem step_of_ok (h : (store.append journal.disk call.record call.fault).2 = .ok ()) :
    store.step journal call =
      ⟨(store.append journal.disk call.record call.fault).1,
        journal.accepted ++ [call.record]⟩ := by
  unfold Store.step
  split
  · next disk happend => rw [happend]
  · next disk err happend =>
      rw [happend] at h
      cases h

theorem step_of_error {err : Error}
    (h : (store.append journal.disk call.record call.fault).2 = .error err) :
    store.step journal call =
      ⟨(store.append journal.disk call.record call.fault).1, journal.accepted⟩ := by
  unfold Store.step
  split
  · next disk happend =>
      rw [happend] at h
      cases h
  · next disk other happend => rw [happend]

/-- One append behind complete lines. -/
theorem Store.Intact.step (h : store.Intact journal) (hclean : store.WritesClean journal call) :
    store.Intact (store.step journal call) := by
  obtain ⟨records, hrecords, hsublist⟩ := h
  rcases append_cases store journal.disk call.record call.fault with
    ⟨err, herr, hbytes, -⟩ | ⟨err, written, herr, hadmits, hbytes, -⟩ |
      ⟨hok, -, hadmits, hbytes, -⟩
  · rw [step_of_error herr]
    refine ⟨records, ?_, hsublist⟩
    rw [Store.records, Disk.lines] at hrecords ⊢
    rw [hbytes]
    exact hrecords
  · -- nothing of the line counts, or all of it
    rw [step_of_error herr]
    rcases records_append_prefix (hclean hadmits) hrecords hadmits (List.take_prefix _ _) hbytes with
      hsame | hmore
    · exact ⟨records, hsame, hsublist⟩
    · exact ⟨_, hmore, hsublist.trans (List.sublist_append_left _ _)⟩
  · rw [step_of_ok hok]
    obtain ⟨hmore, -⟩ := records_append_line (hclean hadmits) hrecords hadmits hbytes
    exact ⟨_, hmore, hsublist.append (List.Sublist.refl _)⟩

/-- A replay of intact lines reads them exactly if the file is below the limit. -/
theorem Store.Intact.reads_iff (h : store.Intact journal)
    (hfile : journal.disk.file.isSome = true) :
    store.Reads journal ↔ journal.disk.bytes.length < store.maxBytes.toNat := by
  obtain ⟨records, hrecords, hsublist⟩ := h
  constructor
  · intro hreads
    by_contra hlong
    obtain ⟨bytes, hbytes⟩ := Option.isSome_iff_exists.mp hfile
    rw [Disk.bytes, hbytes, Option.getD_some, Nat.not_lt] at hlong
    refine hreads.1 ?_
    simp [Store.replay, hbytes, hlong]
  · intro hsize
    have hvisit : records.foldlM (fun (_ : Unit) (_ : Record) => Except.ok ()) () =
        (.ok () : Except Error Unit) := by
      rw [show (fun (_ : Unit) (_ : Record) => (Except.ok () : Except Error Unit)) =
        fun _ _ => pure () from rfl, List.foldlM_pure]
      rfl
    have hreplay := replay_of_decode hrecords hvisit hsize
    unfold Store.Reads
    rw [hreplay]
    exact ⟨by simp, by simp, hsublist⟩

/-- **One append.** -/
theorem Store.Intact.readsBack_iff (h : store.Intact journal)
    (hclean : store.WritesClean journal call) :
    store.ReadsBack journal call ↔ store.LeavesRoom journal call := by
  have hstep := h.step hclean
  have hreads : (store.append journal.disk call.record call.fault).2 = .ok () →
      (store.Reads (store.step journal call) ↔
        journal.disk.bytes.length + (store.line call.record).length < store.maxBytes.toNat) := by
    intro hok
    obtain ⟨hfault, hadmits, hbytes⟩ := append_eq_ok hok
    have hafter : (store.step journal call).disk.bytes =
        journal.disk.bytes ++ store.line call.record := by
      rw [step_of_ok hok]
      exact hbytes
    have hfile : (store.step journal call).disk.file.isSome = true := by
      rw [Option.isSome_iff_ne_none]
      intro hnone
      rw [Disk.bytes, hnone, Option.getD_none] at hafter
      exact absurd hafter.symm (by simp [Store.line])
    rw [hstep.reads_iff hfile, hafter, List.length_append]
  constructor
  · intro hback hadmits hfault
    have hok : (store.append journal.disk call.record call.fault).2 = .ok () := by
      rw [hfault]
      exact append_of_admits hadmits
    exact (hreads hok).mp (hback hok)
  · intro hroom hok
    obtain ⟨hfault, hadmits, -⟩ := append_eq_ok hok
    exact (hreads hok).mpr (hroom hadmits hfault)

theorem intact_empty (store : Store) : store.Intact {} :=
  ⟨[], rfl, List.Sublist.refl _⟩

/-- **What is appended can be read.** In a run whose appends write behind complete lines only,
every successful append is followed by a readable journal exactly if every append that nothing stops
leaves the file below `max_bytes`. -/
theorem readsBack_iff_leavesRoom (store : Store) (calls : List AppendCall)
    (hclean : Execution.Along store.step store.WritesClean {} calls) :
    Execution.Along store.step store.ReadsBack {} calls ↔
      Execution.Along store.step store.LeavesRoom {} calls := by
  have hstep : ∀ journal call, store.WritesClean journal call → store.Intact journal →
      store.ReadsBack journal call → store.Intact (store.step journal call) :=
    fun _ _ hwrites hintact _ => hintact.step hwrites
  exact Execution.along_iff_of_along hstep
    (fun _ _ hwrites hintact => hintact.readsBack_iff hwrites) (intact_empty store) hclean

/-- A store whose limit is the length of the first line. -/
def exactStore : Store :=
  { jsonStore with
    maxBytes := (jsonStore.line (snapshot "evt-1" "key-1" .published none)).length.toUInt64 }

/-- Two appends, and then one whose write fails after a byte. -/
def failingLast : List AppendCall :=
  twoRecords.map (fun record => ⟨record, none⟩) ++
    [⟨snapshot "evt-2" "key-2" .published none, some (.write 1)⟩]

theorem readsBack_failingLast :
    Execution.Along jsonStore.step jsonStore.ReadsBack {} failingLast :=
  (readsBack_iff_leavesRoom jsonStore failingLast (by decide +kernel)).mpr (by decide +kernel)

/-- The first record fills the file up to the limit, and the replay refuses it. A write that fails
after a byte makes the line of the next record unreadable. -/
theorem not_readsBack_exactStore :
    ¬Execution.Along exactStore.step exactStore.ReadsBack {}
        [⟨snapshot "evt-1" "key-1" .published none, none⟩] ∧
      ¬Execution.Along jsonStore.step jsonStore.ReadsBack {}
        [⟨snapshot "evt-1" "key-1" .published none, some (.write 1)⟩,
          ⟨snapshot "evt-1" "key-1" .published none, none⟩] := by
  constructor
  · rintro ⟨hreads, -⟩
    exact absurd (hreads (by decide +kernel)).1 (by decide +kernel)
  · rintro ⟨-, hreads, -⟩
    exact absurd (hreads (by decide +kernel)).2.2 (by decide +kernel)

end Ubiq.Settlement
