import Ubiq.Settlement.JournalFiles

/-!
# Corrupted journal lines

`checksum32` is 32-bit FNV-1a. A round is injective in the hash and in the byte: the exclusive or
can be undone, and the multiplier is odd, so it has an inverse modulo `2 ^ 32`. Two texts that differ
in one byte have different hashes behind it, and no later round makes them equal again.

`replay_corrupted` takes this to the file: whatever byte of the JSON of a line is replaced by another
one that is no newline, the replay ends at this line.
-/

namespace Ubiq.Settlement

open Foundation

/-! ## The checksum -/

/-- One round of `checksum32`. -/
def checksumRound (hash : UInt32) (byte : UInt8) : UInt32 :=
  (hash ^^^ byte.toUInt32) * 16777619

theorem checksum32_eq_foldl (text : Bytes) : checksum32 text = text.foldl checksumRound 2166136261 :=
  rfl

/-- The multiplier has an inverse. -/
theorem multiplier_injective : Function.Injective fun hash : UInt32 => hash * 16777619 := by
  have hinverse : (16777619 : UInt32) * 899433627 = 1 := by decide
  intro first second h
  calc
    first = first * (16777619 * 899433627) := by rw [hinverse, UInt32.mul_one]
    _ = first * 16777619 * 899433627 := (UInt32.mul_assoc _ _ _).symm
    _ = second * 16777619 * 899433627 := congrArg (· * 899433627) h
    _ = second * (16777619 * 899433627) := UInt32.mul_assoc _ _ _
    _ = second := by rw [hinverse, UInt32.mul_one]

/-- A round loses nothing of the hash. -/
theorem checksumRound_left_injective (byte : UInt8) :
    Function.Injective fun hash => checksumRound hash byte := by
  intro first second h
  exact UInt32.xor_left_inj _ |>.mp (multiplier_injective h)

/-- A round loses nothing of the byte. -/
theorem checksumRound_right_injective (hash : UInt32) :
    Function.Injective (checksumRound hash) := by
  intro first second h
  have hbytes : first.toUInt32 = second.toUInt32 :=
    UInt32.xor_right_inj _ |>.mp (multiplier_injective h)
  exact UInt8.toUInt32_inj.mp hbytes

theorem foldl_checksumRound_injective (text : Bytes) :
    Function.Injective fun hash => text.foldl checksumRound hash := by
  induction text with
  | nil => exact fun _ _ h => h
  | cons byte rest ih => exact fun _ _ h => checksumRound_left_injective byte (ih h)

/-- **The checksum catches every replaced byte.** -/
theorem checksum32_ne_of_replaced {before after : Bytes} {byte other : UInt8} (h : other ≠ byte) :
    checksum32 (before ++ other :: after) ≠ checksum32 (before ++ byte :: after) := by
  intro heq
  simp only [checksum32_eq_foldl, List.foldl_append, List.foldl_cons] at heq
  exact h (checksumRound_right_injective _ (foldl_checksumRound_injective after heq))

/-! ## The replay -/

/-- A line of a journal, cut at its first tab. -/
structure Store.HoldsLine (store : Store) (field json : Bytes) : Prop where
  tab_not_mem : tab ∉ field
  newline_not_mem : newline ∉ field ++ tab :: json
  decodes : ∃ record, store.decodeLine (field ++ tab :: json) = .ok record

variable {store : Store}

/-- The checksum field of a line that decodes is the checksum of its JSON. -/
theorem Store.HoldsLine.checksum {field json : Bytes} (h : store.HoldsLine field json) :
    Numeral.parseInt 16 (2 ^ 32) field = some (checksum32 json).toNat ∧
      ¬(json.length = 0 ∨ json.length > store.maxRecordBytes) := by
  obtain ⟨record, hdecode⟩ := h.decodes
  unfold Store.decodeLine at hdecode
  simp only [cutTab_append h.tab_not_mem, List.length_append, List.length_cons] at hdecode
  rw [if_neg (by omega)] at hdecode
  cases hparse : Numeral.parseInt 16 (2 ^ 32) field with
  | none =>
      rw [hparse] at hdecode
      cases hdecode
  | some expected =>
      simp only [hparse] at hdecode
      split at hdecode
      · cases hdecode
      · next hsize =>
          split at hdecode
          · cases hdecode
          · next hsame => exact ⟨congrArg some (not_not.mp hsame).symm, hsize⟩

/-- A line whose JSON has one byte replaced is refused. -/
theorem Store.HoldsLine.decodeLine_replaced {field before after : Bytes} {byte other : UInt8}
    (h : store.HoldsLine field (before ++ byte :: after)) (hother : other ≠ byte) :
    store.decodeLine (field ++ tab :: (before ++ other :: after)) = .error .checksumMismatch := by
  obtain ⟨hparse, hsize⟩ := h.checksum
  have hdiffers : (checksum32 (before ++ other :: after)).toNat ≠
      (checksum32 (before ++ byte :: after)).toNat :=
    fun heq => checksum32_ne_of_replaced hother (UInt32.toNat_inj.mp heq)
  -- the JSON has kept its length
  have hlength : (before ++ other :: after).length = (before ++ byte :: after).length := by
    simp only [List.length_append, List.length_cons]
  rw [Store.decodeLine, if_neg (by simp), cutTab_append h.tab_not_mem]
  simp only [hparse]
  rw [hlength, if_neg hsize, if_pos hdiffers]

/-- The complete lines of a file with a line in it. -/
theorem completeLines_around {earlier line : Bytes} (rest : Bytes)
    (hclean : Lines.Clean newline earlier) (hline : newline ∉ line) :
    Lines.completeLines newline (earlier ++ (line ++ newline :: rest)) =
      Lines.completeLines newline earlier ++ line :: Lines.completeLines newline rest := by
  rw [Lines.completeLines_append, hclean, List.nil_append, Lines.completeLines_line_append hline]

/-- **A replaced byte is caught.** Replacing one byte of a text changes its checksum. If a byte of
the JSON of a line is replaced by another one that is no newline, the replay visits the records of the
earlier lines and ends at this line; a file that reaches the size limit is not read at all. -/
theorem replay_corrupted {γ : Type*} (store : Store) (rest : Bytes) (synced : Nat)
    (visitor : γ → Record → Except Error γ) (context : γ) :
    (∀ (before after : Bytes) (byte other : UInt8), other ≠ byte →
      checksum32 (before ++ other :: after) ≠ checksum32 (before ++ byte :: after)) ∧
    ∀ {earlier field before after : Bytes} {byte other : UInt8} {records : List Record} {final : γ},
      Lines.Clean newline earlier → store.records ⟨some earlier, synced⟩ = .ok records →
      store.HoldsLine field (before ++ byte :: after) → other ≠ byte → other ≠ newline →
      records.foldlM visitor context = .ok final →
      store.replay
          ⟨some (earlier ++ (field ++ tab :: (before ++ other :: after) ++ newline :: rest)), synced⟩
          context visitor none =
        if (earlier ++ (field ++ tab :: (before ++ other :: after) ++ newline :: rest)).length <
            store.maxBytes.toNat then
          ⟨final, records, .error .checksumMismatch⟩
        else ⟨context, [], .error .streamTooLong⟩ := by
  refine ⟨fun before after byte other => checksum32_ne_of_replaced, ?_⟩
  intro earlier field before after byte other records final hclean hearlier hline hother hnewline
    hvisit
  have hfree : newline ∉ field ++ tab :: (before ++ other :: after) := by
    have hold := hline.newline_not_mem
    simp only [List.mem_append, List.mem_cons, not_or] at hold ⊢
    exact ⟨hold.1, hold.2.1, hold.2.2.1, hnewline.symm, hold.2.2.2.2⟩
  by_cases hsize : (earlier ++ (field ++ tab :: (before ++ other :: after) ++ newline :: rest)).length <
      store.maxBytes.toNat
  · rw [if_pos hsize]
    simp only [Store.replay, reduceCtorEq, if_false, if_neg (Nat.not_le.mpr hsize), Disk.lines,
      Disk.bytes, Option.getD_some]
    have hend : store.replayLines visitor final none
        ((field ++ tab :: (before ++ other :: after)) :: Lines.completeLines newline rest) =
          ⟨final, [], .error .checksumMismatch⟩ := by
      simp only [Store.replayLines, hline.decodeLine_replaced hother]
    rw [completeLines_around rest hclean hfree]
    simpa [Except.map, Disk.lines, Disk.bytes] using replayLines_append hearlier hvisit hend
  · rw [if_neg hsize]
    simp only [Store.replay, reduceCtorEq, if_false, if_pos (Nat.not_lt.mp hsize)]

/-- The JSON of the second of two records. -/
def secondJson : Bytes :=
  jsonStore.codec.stringify (snapshot "evt-1" "key-1" .leased (some "worker"))

/-- A digit of the sequence number of the second line is replaced by a tab. -/
theorem replay_corrupted_secondJson :
    jsonStore.replay
        ⟨some (jsonStore.line (snapshot "evt-1" "key-1" .published none) ++
          (Numeral.digits 16 (checksum32 secondJson).toNat ++
            tab :: (secondJson.take 12 ++ tab :: secondJson.drop 13) ++ newline :: [])), 0⟩
        0 (fun count _ => .ok (count + 1)) none =
      ⟨1, [snapshot "evt-1" "key-1" .published none], .error .checksumMismatch⟩ := by
  have hline : jsonStore.HoldsLine (Numeral.digits 16 (checksum32 secondJson).toNat)
      (secondJson.take 12 ++ 48 :: secondJson.drop 13) :=
    ⟨by decide +kernel, by decide +kernel,
      snapshot "evt-1" "key-1" .leased (some "worker"), by decide +kernel⟩
  have hclean : Lines.Clean newline (jsonStore.line (snapshot "evt-1" "key-1" .published none)) := by
    decide +kernel
  have hearlier : jsonStore.records
      ⟨some (jsonStore.line (snapshot "evt-1" "key-1" .published none)), 0⟩ =
        .ok [snapshot "evt-1" "key-1" .published none] := by decide +kernel
  have hother : tab ≠ 48 := by decide
  have hreplay := (replay_corrupted jsonStore [] 0 (fun (count : Nat) _ => .ok (count + 1)) 0).2
    hclean hearlier hline hother (by decide) rfl
  rw [if_pos (by decide +kernel)] at hreplay
  exact hreplay

end Ubiq.Settlement
