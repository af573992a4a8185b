import Ubiq.Settlement.Record
import Ubiq.Foundation.Lines
import Ubiq.Foundation.Numeral

/-!
# The settlement journal

`settlement_journal.Store` over one file. `Store.append` and `Store.replay` take
the failures of the allocator and of the file system as an argument, so every
branch of the source is a branch here.

* `append_cases` is all that an append can do to the disk.
* `decodeLine_lineText` is the round trip of one line.
* `replayLines_append` and `decode_of_replayLines` say when a replay succeeds:
  every complete line decodes and the visitor accepts the records in order.
-/

namespace Ubiq.Settlement

open Foundation

/-- The journal file: its content (`none` before it is created) and the length
of the prefix that the last `sync` put on stable storage. -/
structure Disk where
  file : Option Bytes := none
  synced : Nat := 0
deriving DecidableEq, Repr

/-- The content, empty when there is no file. -/
def Disk.bytes (disk : Disk) : Bytes :=
  disk.file.getD []

/-- The complete lines of the journal. -/
def Disk.lines (disk : Disk) : List Bytes :=
  Lines.completeLines newline disk.bytes

/-- No torn line at the end of the journal. -/
def Disk.Clean (disk : Disk) : Prop :=
  Lines.Clean newline disk.bytes

instance decidableDiskClean (disk : Disk) : Decidable disk.Clean :=
  inferInstanceAs (Decidable (Lines.Clean newline disk.bytes))

/-- `settlement_journal.Store`. The path is left out: one store, one file. -/
structure Store where
  codec : RecordCodec
  maxBytes : UInt64 := 16 * 1024 * 1024
  maxRecordBytes : Nat := 1024 * 1024

/-- Where the environment makes an append fail: at either allocation, at opening
the file, at reading its length, after part of the line is written, or at the
final sync. -/
inductive AppendFault
  | stringify
  | format
  | openFile
  | length
  | write (written : Nat)
  | sync
deriving DecidableEq, Repr

/-- The line without its newline: `"{x}\t{s}"`. -/
def Store.lineText (store : Store) (record : Record) : Bytes :=
  Numeral.digits 16 (checksum32 (store.codec.stringify record)).toNat ++
    tab :: store.codec.stringify record

/-- The line `"{x}\t{s}\n"`. -/
def Store.line (store : Store) (record : Record) : Bytes :=
  store.lineText record ++ [newline]

/-- `current_size > max_bytes or line.len > max_bytes - current_size`. -/
def Store.full (store : Store) (disk : Disk) (line : Bytes) : Bool :=
  disk.bytes.length > store.maxBytes.toNat ∨
    line.length > store.maxBytes.toNat - disk.bytes.length

def Store.append (store : Store) (disk : Disk) (record : Record)
    (fault : Option AppendFault) : Disk × Except Error Unit :=
  match validateRecord record with
  | .error err => (disk, .error err)
  | .ok () =>
      if fault = some .stringify then (disk, .error .outOfMemory)
      else if (store.codec.stringify record).length > store.maxRecordBytes then
        (disk, .error .recordTooLarge)
      else if fault = some .format then (disk, .error .outOfMemory)
      else if fault = some .openFile then (disk, .error .io)
      else
        -- from here on the file exists, empty if `createFile` had to make it
        let opened : Disk := { disk with file := some disk.bytes }
        if fault = some .length then (opened, .error .io)
        else if store.full disk (store.line record) then (opened, .error .journalFull)
        else
          match fault with
          | some (.write written) =>
              -- a torn positional write leaves a prefix of the line, and nothing undoes it
              ({ opened with file := some (disk.bytes ++ (store.line record).take written) },
                .error .io)
          | some _ =>
              ({ opened with file := some (disk.bytes ++ store.line record) }, .error .io)
          | none =>
              ({ file := some (disk.bytes ++ store.line record),
                 synced := (disk.bytes ++ store.line record).length }, .ok ())

/-- The guards of `append` before the write, the failures of the environment
aside: such a record is written. -/
def Store.admits (store : Store) (disk : Disk) (record : Record) : Bool :=
  validateRecord record = .ok () ∧
    (store.codec.stringify record).length ≤ store.maxRecordBytes ∧
    ¬store.full disk (store.line record)

/-- The position of the first tab cuts a line into its two fields. -/
def cutTab : Bytes → Option (Bytes × Bytes)
  | [] => none
  | c :: rest =>
      if c = tab then some ([], rest)
      else (cutTab rest).map fun fields => (c :: fields.1, fields.2)

/-- The body of the loop in `Store.replay` up to the visitor call: the record of
one complete line. -/
def Store.decodeLine (store : Store) (line : Bytes) : Except Error Record :=
  if line.length = 0 then .error .invalidRecord
  else
    match cutTab line with
    | none => .error .invalidRecord
    | some (field, json) =>
        match Numeral.parseInt 16 (2 ^ 32) field with
        | none => .error .invalidChecksum
        | some expected =>
            if json.length = 0 ∨ json.length > store.maxRecordBytes then
              .error .recordTooLarge
            else if (checksum32 json).toNat ≠ expected then .error .checksumMismatch
            else
              match store.codec.parse json with
              | none => .error .syntaxError
              | some record =>
                  match validateRecord record with
                  | .error err => .error err
                  | .ok () => .ok record

/-- The records of the complete lines, or the error of the first line that does
not decode. -/
def Store.decodeLines (store : Store) : List Bytes → Except Error (List Record)
  | [] => .ok []
  | line :: lines =>
      match store.decodeLine line with
      | .error err => .error err
      | .ok record =>
          match store.decodeLines lines with
          | .error err => .error err
          | .ok records => .ok (record :: records)

/-- The records of a journal. -/
def Store.records (store : Store) (disk : Disk) : Except Error (List Record) :=
  store.decodeLines disk.lines

/-- What a replay leaves: the visitor's context, the records it was called on in
order, and the returned count or error. -/
structure Replay (γ : Type*) where
  context : γ
  visited : List Record
  result : Except Error Nat

/-- Where the environment makes a replay fail: reading the file, or an allocation
while the record of the line with that index is handed to the visitor. -/
inductive ReplayFault
  | readFile
  | alloc (line : Nat)
deriving DecidableEq, Repr

/-- The loop of `Store.replay` over the complete lines; `budget` is the number of
records for which the allocator still has memory (`none` for all of them). A
visitor that returns an error leaves its context as it was. -/
def Store.replayLines {γ : Type*} (store : Store) (visitor : γ → Record → Except Error γ) :
    γ → Option Nat → List Bytes → Replay γ
  | context, _, [] => ⟨context, [], .ok 0⟩
  | context, budget, line :: lines =>
      match store.decodeLine line with
      | .error err => ⟨context, [], .error err⟩
      | .ok record =>
          if budget = some 0 then ⟨context, [record], .error .outOfMemory⟩
          else
            match visitor context record with
            | .error err => ⟨context, [record], .error err⟩
            | .ok next =>
                let rest := store.replayLines visitor next (budget.map (· - 1)) lines
                ⟨rest.context, record :: rest.visited, rest.result.map (· + 1)⟩

/-- `Store.replay`. `readFileAlloc` with `.limited(max_bytes)` refuses a file
whose length reaches the limit. -/
def Store.replay {γ : Type*} (store : Store) (disk : Disk) (context : γ)
    (visitor : γ → Record → Except Error γ) (fault : Option ReplayFault) : Replay γ :=
  match disk.file with
  | none => ⟨context, [], .ok 0⟩
  | some bytes =>
      if fault = some .readFile then ⟨context, [], .error .io⟩
      else if bytes.length ≥ store.maxBytes.toNat then ⟨context, [], .error .streamTooLong⟩
      else
        -- the tail behind the last newline is not looked at
        let budget :=
          match fault with
          | some (.alloc line) => some line
          | _ => none
        store.replayLines visitor context budget disk.lines

/-! ## One line -/

theorem cutTab_append {field json : Bytes} (h : tab ∉ field) :
    cutTab (field ++ tab :: json) = some (field, json) := by
  induction field with
  | nil => simp [cutTab]
  | cons c rest ih =>
      obtain ⟨hne, hrest⟩ := not_or.mp (List.mem_cons.not.mp h)
      rw [List.cons_append, cutTab, if_neg (Ne.symm hne), ih hrest, Option.map_some]

theorem newline_not_mem_lineText (store : Store) (record : Record) :
    newline ∉ store.lineText record := by
  unfold Store.lineText
  rw [List.mem_append, List.mem_cons]
  rintro (h | h | h)
  · exact (Numeral.separator_not_mem_digits (by decide) (by decide)).1 h
  · exact absurd h (by decide)
  · exact store.codec.newline_not_mem_stringify record h

theorem length_line (store : Store) (record : Record) :
    (store.line record).length = (store.lineText record).length + 1 := by
  simp [Store.line]

variable {store : Store} {record : Record} {lines : List Bytes} {records : List Record}
  {disk : Disk}

/-- A strict prefix of a line is torn: it holds no newline. -/
theorem newline_not_mem_take_line {written : Nat} (h : written < (store.line record).length) :
    newline ∉ (store.line record).take written := by
  have hle : written ≤ (store.lineText record).length := by
    rw [length_line] at h
    omega
  rw [Store.line, List.take_append_of_le_length hle]
  exact fun hmem => newline_not_mem_lineText store record (List.mem_of_mem_take hmem)

/-- **Round trip of one line.** -/
theorem decodeLine_lineText (hvalid : validateRecord record = .ok ())
    (hsize : (store.codec.stringify record).length ≤ store.maxRecordBytes) :
    store.decodeLine (store.lineText record) = .ok record := by
  have htab : tab ∉ Numeral.digits 16 (checksum32 (store.codec.stringify record)).toNat :=
    (Numeral.separator_not_mem_digits (by decide) (by decide)).2
  have hnonempty : (store.lineText record).length ≠ 0 := by simp [Store.lineText]
  -- `append` has made the size check that `replay` makes again
  have hjson : ¬((store.codec.stringify record).length = 0 ∨
      (store.codec.stringify record).length > store.maxRecordBytes) := by
    rintro (h | h)
    · exact store.codec.stringify_ne_nil record (List.length_eq_zero_iff.mp h)
    · omega
  have hcut : cutTab (store.lineText record) =
      some (Numeral.digits 16 (checksum32 (store.codec.stringify record)).toNat,
        store.codec.stringify record) := cutTab_append htab
  have hparse : Numeral.parseInt 16 (2 ^ 32)
      (Numeral.digits 16 (checksum32 (store.codec.stringify record)).toNat) =
        some (checksum32 (store.codec.stringify record)).toNat :=
    Numeral.parseInt_digits (by decide) (by decide) (UInt32.toNat_lt _)
  rw [Store.decodeLine, if_neg hnonempty, hcut]
  simp only [hparse]
  rw [if_neg hjson, if_neg (by simp), store.codec.parse_stringify]
  simp only [hvalid]

/-- A line that decodes has at least a checksum digit, a tab and a byte of JSON. -/
theorem decodeLine_length {line : Bytes} (h : store.decodeLine line = .ok record) :
    0 < line.length := by
  unfold Store.decodeLine at h
  split at h
  · cases h
  · omega

/-! ## Many lines -/

/-- Decoding stops at the first line that does not decode. -/
theorem decodeLines_cons_ok_iff {line : Bytes} :
    store.decodeLines (line :: lines) = .ok records ↔
      ∃ record rest, store.decodeLine line = .ok record ∧ store.decodeLines lines = .ok rest ∧
        record :: rest = records := by
  rw [Store.decodeLines]
  cases store.decodeLine line with
  | error err => simp
  | ok record => cases store.decodeLines lines <;> simp

theorem decodeLines_append {first second : List Bytes} {firstRecords secondRecords : List Record}
    (hfirst : store.decodeLines first = .ok firstRecords)
    (hsecond : store.decodeLines second = .ok secondRecords) :
    store.decodeLines (first ++ second) = .ok (firstRecords ++ secondRecords) := by
  induction first generalizing firstRecords with
  | nil =>
      cases hfirst
      exact hsecond
  | cons line lines ih =>
      obtain ⟨record, rest, hline, hlines, rfl⟩ := decodeLines_cons_ok_iff.mp hfirst
      exact decodeLines_cons_ok_iff.mpr ⟨record, rest ++ secondRecords, hline, ih hlines, rfl⟩

variable {γ : Type*} {visitor : γ → Record → Except Error γ} {context final : γ}

/-- Past lines that decode to records the visitor accepts, a replay with memory
for every record goes on with the lines behind them. -/
theorem replayLines_append
    {last : γ} {later : List Bytes} {visited : List Record} {result : Except Error Nat}
    (hdecode : store.decodeLines lines = .ok records)
    (hvisit : records.foldlM visitor context = .ok final)
    (hlater : store.replayLines visitor final none later = ⟨last, visited, result⟩) :
    store.replayLines visitor context none (lines ++ later) =
      ⟨last, records ++ visited, result.map (· + records.length)⟩ := by
  induction lines generalizing records context with
  | nil =>
      cases hdecode
      cases hvisit
      rw [List.nil_append, hlater]
      cases result <;> rfl
  | cons line lines ih =>
      obtain ⟨record, rest, hline, hlines, rfl⟩ := decodeLines_cons_ok_iff.mp hdecode
      rw [List.foldlM_cons] at hvisit
      cases hstep : visitor context record with
      | error err => simp [hstep, bind, Except.bind] at hvisit
      | ok next =>
          have hrest : rest.foldlM visitor next = .ok final := by
            simpa [hstep, bind, Except.bind] using hvisit
          simp only [List.cons_append, Store.replayLines, hline, hstep, reduceCtorEq, if_false,
            Option.map_none, ih hlines hrest]
          cases result <;> simp [Except.map, Nat.add_assoc]

/-- A journal that decodes, below the size limit, is replayed in full. -/
theorem replay_of_decode (hdecode : store.records disk = .ok records)
    (hvisit : records.foldlM visitor context = .ok final)
    (hsize : disk.bytes.length < store.maxBytes.toNat) :
    store.replay disk context visitor none = ⟨final, records, .ok records.length⟩ := by
  have hreplay : store.replayLines visitor context none disk.lines =
      ⟨final, records, .ok records.length⟩ := by
    have hend : store.replayLines visitor final none [] = ⟨final, [], .ok 0⟩ := rfl
    simpa [Except.map] using replayLines_append hdecode hvisit hend
  unfold Store.replay
  cases hfile : disk.file with
  | none =>
      rw [Disk.lines, Disk.bytes, hfile, Option.getD_none, Lines.completeLines_nil] at hreplay
      exact hreplay
  | some bytes =>
      rw [Disk.bytes, hfile, Option.getD_some] at hsize
      simp only [reduceCtorEq, if_false, if_neg (Nat.not_le.mpr hsize)]
      exact hreplay

/-- Conversely a replay that returns a count has decoded every line, and its
context is what the visitor makes of the records in order. -/
theorem decode_of_replayLines {budget : Option Nat} {count : Nat}
    (h : (store.replayLines visitor context budget lines).result = .ok count) :
    store.decodeLines lines = .ok (store.replayLines visitor context budget lines).visited ∧
      (store.replayLines visitor context budget lines).visited.foldlM visitor context =
        .ok (store.replayLines visitor context budget lines).context := by
  induction lines generalizing context budget count with
  | nil => exact ⟨rfl, rfl⟩
  | cons line lines ih =>
      simp only [Store.replayLines] at h ⊢
      cases hline : store.decodeLine line with
      | error err => simp [hline] at h
      | ok record =>
          by_cases hbudget : budget = some 0
          · simp [hline, hbudget] at h
          cases hstep : visitor context record with
          | error err => simp [hline, hbudget, hstep] at h
          | ok next =>
              simp only [hline, hbudget, hstep, if_false] at h ⊢
              cases hrest : (store.replayLines visitor next (budget.map (· - 1)) lines).result with
              | error err => simp [hrest, Except.map] at h
              | ok rest =>
                  obtain ⟨hdecode, hvisit⟩ := ih hrest
                  refine ⟨decodeLines_cons_ok_iff.mpr ⟨record, _, hline, hdecode, rfl⟩, ?_⟩
                  rw [List.foldlM_cons, hstep]
                  exact hvisit

/-! ## Appending -/

/-- What an append does. It fails before the write and leaves the content
alone, it fails after writing a prefix of the line, or it writes the whole line
and syncs it. -/
theorem append_cases (store : Store) (disk : Disk) (record : Record)
    (fault : Option AppendFault) :
    (∃ err, (store.append disk record fault).2 = .error err ∧
      (store.append disk record fault).1.bytes = disk.bytes ∧
      (store.append disk record fault).1.synced = disk.synced) ∨
    (∃ err written, (store.append disk record fault).2 = .error err ∧
      store.admits disk record ∧
      (store.append disk record fault).1.bytes =
        disk.bytes ++ (store.line record).take written ∧
      (store.append disk record fault).1.synced = disk.synced) ∨
    ((store.append disk record fault).2 = .ok () ∧
      fault = none ∧
      store.admits disk record ∧
      (store.append disk record fault).1.bytes = disk.bytes ++ store.line record ∧
      (store.append disk record fault).1.synced =
        (disk.bytes ++ store.line record).length) := by
  cases hvalid : validateRecord record with
  | error err =>
      left
      exact ⟨err, by simp [Store.append, hvalid]⟩
  | ok _ =>
      by_cases hstringify : fault = some .stringify
      · left; exact ⟨.outOfMemory, by simp [Store.append, hvalid, hstringify]⟩
      by_cases hsize : (store.codec.stringify record).length > store.maxRecordBytes
      · left; exact ⟨.recordTooLarge, by simp [Store.append, hvalid, hstringify, hsize]⟩
      by_cases hformat : fault = some .format
      · left; exact ⟨.outOfMemory, by simp [Store.append, hvalid, hsize, hformat]⟩
      by_cases hopen : fault = some .openFile
      · left; exact ⟨.io, by simp [Store.append, hvalid, hsize, hopen]⟩
      by_cases hlength : fault = some .length
      · left; exact ⟨.io, by simp [Store.append, hvalid, hsize, hlength, Disk.bytes]⟩
      by_cases hfull : store.full disk (store.line record)
      · left
        exact ⟨.journalFull, by simp [Store.append, hvalid, hstringify, hsize, hformat, hopen,
          hlength, hfull, Disk.bytes]⟩
      have hadmits : store.admits disk record := by
        simp [Store.admits, hvalid, hfull]
        omega
      right
      cases fault with
      | none =>
          right
          exact ⟨by simp [Store.append, hvalid, hsize, hfull], rfl, hadmits,
            by simp [Store.append, hvalid, hsize, hfull, Disk.bytes],
            by simp [Store.append, hvalid, hsize, hfull]⟩
      | some fault =>
          left
          cases fault with
          | write written =>
              exact ⟨.io, written, by simp [Store.append, hvalid, hsize, hfull], hadmits,
                by simp [Store.append, hvalid, hsize, hfull, Disk.bytes],
                by simp [Store.append, hvalid, hsize, hfull]⟩
          | sync =>
              refine ⟨.io, (store.line record).length,
                by simp [Store.append, hvalid, hsize, hfull], hadmits, ?_,
                by simp [Store.append, hvalid, hsize, hfull]⟩
              simp [Store.append, hvalid, hsize, hfull, Disk.bytes]
          | stringify => exact absurd rfl hstringify
          | format => exact absurd rfl hformat
          | openFile => exact absurd rfl hopen
          | length => exact absurd rfl hlength

theorem admits_iff :
    store.admits disk record = true ↔
      validateRecord record = .ok () ∧
      (store.codec.stringify record).length ≤ store.maxRecordBytes ∧
      store.full disk (store.line record) = false := by
  simp [Store.admits]

/-- A whole line on a clean journal adds its record. -/
theorem records_append_line {after : Disk} (hclean : disk.Clean)
    (hrecords : store.records disk = .ok records) (hadmits : store.admits disk record = true)
    (hbytes : after.bytes = disk.bytes ++ store.line record) :
    store.records after = .ok (records ++ [record]) ∧ after.Clean := by
  obtain ⟨hvalid, hsize, -⟩ := admits_iff.mp hadmits
  have hnewline := newline_not_mem_lineText store record
  constructor
  · unfold Store.records Disk.lines
    rw [hbytes, Store.line, Lines.completeLines_append_line hclean hnewline]
    refine decodeLines_append hrecords ?_
    simp [Store.decodeLines, decodeLine_lineText hvalid hsize]
  · unfold Disk.Clean
    rw [hbytes, Store.line]
    exact Lines.clean_append_line hclean hnewline

/-- A prefix of a line on a clean journal adds its record when it is the whole
line, and nothing otherwise. -/
theorem records_append_prefix {after : Disk} {torn : Bytes} (hclean : disk.Clean)
    (hrecords : store.records disk = .ok records) (hadmits : store.admits disk record = true)
    (htorn : torn <+: store.line record) (hbytes : after.bytes = disk.bytes ++ torn) :
    store.records after = .ok records ∨ store.records after = .ok (records ++ [record]) := by
  by_cases hwhole : torn = store.line record
  · right
    exact (records_append_line hclean hrecords hadmits (hwhole ▸ hbytes)).1
  · left
    have hlength : torn.length < (store.line record).length := by
      refine lt_of_le_of_ne htorn.length_le ?_
      intro heq
      exact hwhole (htorn.eq_of_length heq)
    have hnewline : newline ∉ torn := by
      have htake : torn = (store.line record).take torn.length := List.prefix_iff_eq_take.mp htorn
      rw [htake]
      exact newline_not_mem_take_line hlength
    unfold Store.records Disk.lines at hrecords ⊢
    rw [hbytes, Lines.completeLines_append_torn hclean hnewline]
    exact hrecords

theorem two_mul_length_decodeLines_le (h : store.decodeLines lines = .ok records) :
    2 * records.length ≤ (lines.map fun line => line.length + 1).sum := by
  induction lines generalizing records with
  | nil =>
      cases h
      simp
  | cons line lines ih =>
      obtain ⟨record, rest, hline, hlines, rfl⟩ := decodeLines_cons_ok_iff.mp h
      have hrest := ih hlines
      have htext := decodeLine_length hline
      simp only [List.length_cons, List.map_cons, List.sum_cons]
      omega

/-- Two bytes of file for every record: a line has a text and a newline. -/
theorem two_mul_length_records_le (h : store.records disk = .ok records) :
    2 * records.length ≤ disk.bytes.length :=
  (two_mul_length_decodeLines_le h).trans (Lines.sum_length_completeLines_le newline disk.bytes)

end Ubiq.Settlement
