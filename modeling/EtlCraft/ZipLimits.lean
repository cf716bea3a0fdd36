import Mathlib

/-! The limits on a submitted workbook's archive, read from its central directory before the
archive is opened, beside the directory a ZIP reader takes for the same bytes. -/

namespace EtlCraft

namespace Archives

abbrev Bytes := List UInt8

inductive Failure
  | handlerError (message : String)
  | badZipFile (message : String)
  | exhausted
  deriving DecidableEq, Repr

def maxEntries : Nat := 10000

def maxExpandedBytes : Nat := 200 * 1024 * 1024

def localSignature : Bytes := [0x50, 0x4B, 3, 4]

def centralSignature : Bytes := [0x50, 0x4B, 1, 2]

def endSignature : Bytes := [0x50, 0x4B, 5, 6]

def locatorSignature : Bytes := [0x50, 0x4B, 6, 7]

def end64Signature : Bytes := [0x50, 0x4B, 6, 6]

def unsigned : Bytes → Nat
  | [] => 0
  | byte :: rest => byte.toNat + 256 * unsigned rest

def slice (bytes : Bytes) (start size : Nat) : Bytes := (bytes.drop start).take size

def field (bytes : Bytes) (start size : Nat) : Nat := unsigned (slice bytes start size)

def rfind (pattern : Bytes) : Bytes → Option Nat
  | [] => none
  | byte :: rest =>
      match rfind pattern rest with
      | some found => some (found + 1)
      | none => if pattern.isPrefixOf (byte :: rest) then some 0 else none

structure EndRecord where
  disk : Nat
  startDisk : Nat
  onDisk : Nat
  total : Nat
  directorySize : Nat
  comment : Nat
  deriving DecidableEq, Repr

def unpackEnd (bytes : Bytes) (start : Nat) : EndRecord where
  disk := field bytes (start + 4) 2
  startDisk := field bytes (start + 6) 2
  onDisk := field bytes (start + 8) 2
  total := field bytes (start + 10) 2
  directorySize := field bytes (start + 12) 4
  comment := field bytes (start + 20) 2

def recordLength (header : Bytes) : Nat :=
  46 + (field header 28 2 + field header 30 2 + field header 32 2)

def tooLarge (ref : String) (count expanded : Nat) : Failure :=
  .handlerError (ref ++ ": ZIP entries=" ++ toString count ++ ", expanded bytes=" ++
    toString expanded ++ "; expected at most " ++ toString maxEntries ++ " entries and " ++
    toString maxExpandedBytes ++ " bytes; upload a smaller corrected workbook")

/-- The loop of `_zip_limits`: where it stopped and how many records it counted. -/
def checkEntries (ref : String) (file : Bytes) (finish : Nat) :
    Nat → Nat → Nat → Nat → Except Failure (Nat × Nat)
  | 0, position, count, _ =>
      if position < finish then .error .exhausted else .ok (position, count)
  | fuel + 1, position, count, expanded =>
      if position < finish then
        let header := slice file position 46
        if header.length ≠ 46 ∨ header.take 4 ≠ centralSignature then
          .error (.badZipFile "invalid central-directory entry")
        else
          let count := count + 1
          let expanded := expanded + field header 24 4
          if maxEntries < count ∨ maxExpandedBytes < expanded then
            .error (tooLarge ref count expanded)
          else checkEntries ref file finish fuel (position + recordLength header) count expanded
      else .ok (position, count)

/-- `_zip_limits` once the end record is found, `finish` bytes into the file. -/
def checkDirectory (ref : String) (file : Bytes) (finish : Nat) (ending : EndRecord)
    (closed : Bool) : Except Failure Unit :=
  if ending.disk ≠ 0 ∨ ending.startDisk ≠ 0 ∨ ending.onDisk ≠ ending.total ∨
      maxEntries < ending.total then
    .error (.handlerError (ref ++ ": ZIP entries=" ++ toString ending.total ++ ", disk=" ++
      toString ending.disk ++ "; expected one disk and at most " ++ toString maxEntries ++
      " entries; upload a smaller corrected workbook"))
  else if finish < ending.directorySize ∨ !closed then
    .error (.badZipFile "invalid central-directory bounds")
  else
    match checkEntries ref file finish (file.length + 1) (finish - ending.directorySize) 0 0 with
    | .error failure => .error failure
    | .ok (position, count) =>
        if position ≠ finish ∨ count ≠ ending.total then
          .error (.badZipFile "central-directory count or size differs")
        else .ok ()

def zipLimits (ref : String) (file : Bytes) : Except Failure Unit :=
  if file.take 4 ≠ localSignature then
    .error (.handlerError (ref ++ ": contents are not XLSX ZIP data; expected " ++
      "a macro-free workbook; upload a corrected file"))
  else
    let start := file.length - 65557
    let tail := slice file start 65557
    match rfind endSignature tail with
    | none => .error (.badZipFile "missing end-of-central-directory record")
    | some found =>
        if tail.length < found + 22 then
          .error (.badZipFile "missing end-of-central-directory record")
        else
          let ending := unpackEnd tail found
          checkDirectory ref file (file.length - tail.length + found) ending
            (found + 22 + ending.comment == tail.length)

/-! The reader, up to what it refuses besides (names that do not decode, unknown versions). -/

def locateEnd (file : Bytes) : Option Nat :=
  if file.length < 22 then none
  else
    let last := file.drop (file.length - 22)
    if last.take 4 = endSignature ∧ last.drop 20 = [0, 0] then some (file.length - 22)
    else
      let start := file.length - (65536 + 22)
      match rfind endSignature (file.drop start) with
      | none => none
      | some found =>
          if (slice (file.drop start) found 22).length ≠ 22 then none else some (start + found)

/-- The directory size of the ZIP64 record before the end record, where there is one. -/
def zip64Size (file : Bytes) (location : Nat) : Except Failure (Option Nat) :=
  if location < 20 then .ok none
  else if slice file (location - 20) 4 ≠ locatorSignature then .ok none
  else if field file (location - 16) 4 ≠ 0 ∨ 1 < field file (location - 4) 4 then
    .error (.badZipFile "zipfiles that span multiple disks are not supported")
  else if location < 76 then .error (.badZipFile "File is not a zip file")
  else if slice file (location - 76) 4 ≠ end64Signature then .ok none
  else .ok (some (field file (location - 36) 8))

/-- The declared size of an entry, which a ZIP64 extra field gives where 32 bits do not. -/
def declaredSize : Nat → Bytes → Nat → Except Failure Nat
  | 0, extra, size => if 4 ≤ extra.length then .error .exhausted else .ok size
  | fuel + 1, extra, size =>
      if extra.length < 4 then .ok size
      else
        let length := field extra 2 2
        if extra.length < length + 4 then .error (.badZipFile "Corrupt extra field")
        else if field extra 0 2 = 1 ∧ (size = 2 ^ 64 - 1 ∨ size = 2 ^ 32 - 1) then
          if length < 8 then
            .error (.badZipFile "Corrupt zip64 extra field. File size not found.")
          else declaredSize fuel (extra.drop (length + 4)) (field extra 4 8)
        else declaredSize fuel (extra.drop (length + 4)) size

def readRecords (size : Nat) : Nat → Bytes → Nat → Except Failure (List Nat)
  | 0, _, read => if read < size then .error .exhausted else .ok []
  | fuel + 1, data, read =>
      if read < size then
        let header := data.take 46
        if header.length ≠ 46 then .error (.badZipFile "Truncated central directory")
        else if header.take 4 ≠ centralSignature then
          .error (.badZipFile "Bad magic number for central directory")
        else
          let extra := slice data (46 + field header 28 2) (field header 30 2)
          match declaredSize extra.length extra (field header 24 4) with
          | .error failure => .error failure
          | .ok declared =>
              match readRecords size fuel (data.drop (recordLength header))
                  (read + recordLength header) with
              | .error failure => .error failure
              | .ok rest => .ok (declared :: rest)
      else .ok []

def readDirectory (file : Bytes) (finish size : Nat) : Except Failure (List Nat) :=
  if finish < size then .error (.badZipFile "Bad offset for central directory")
  else
    let data := slice file (finish - size) size
    readRecords size (data.length + 1) data 0

def readArchive (file : Bytes) : Except Failure (List Nat) :=
  match locateEnd file with
  | none => .error (.badZipFile "File is not a zip file")
  | some location =>
      match zip64Size file location with
      | .error failure => .error failure
      | .ok none => readDirectory file location (unpackEnd file location).directorySize
      | .ok (some size) => readDirectory file (location - 76) size

def Within (entries : Except Failure (List Nat)) : Prop :=
  ∀ sizes, entries = .ok sizes → sizes.length ≤ maxEntries ∧ sizes.sum ≤ maxExpandedBytes

/-! Termination: every record moves 46 bytes on. -/

theorem recordLength_positive (header : Bytes) : 46 ≤ recordLength header := by
  simp [recordLength]

theorem checkEntries_ends (ref : String) (file : Bytes) (finish fuel position count expanded : Nat)
    (enough : finish ≤ position + fuel) :
    checkEntries ref file finish fuel position count expanded ≠ .error .exhausted := by
  induction fuel generalizing position count expanded with
  | zero =>
      have outside : ¬ position < finish := by omega
      simp [checkEntries, outside]
  | succ fuel ih =>
      simp only [checkEntries]
      split
      · split
        · simp
        · split
          · simp [tooLarge]
          · apply ih
            have moved := recordLength_positive (slice file position 46)
            omega
      · simp

theorem checkDirectory_ends (ref : String) (file : Bytes) (finish : Nat) (ending : EndRecord)
    (closed : Bool) (inside : finish ≤ file.length) :
    checkDirectory ref file finish ending closed ≠ .error .exhausted := by
  unfold checkDirectory
  split
  · simp
  · split
    · simp
    · have ends := checkEntries_ends ref file finish (file.length + 1)
        (finish - ending.directorySize) 0 0 (by omega)
      split
      · rename_i failure failed
        rw [failed] at ends
        simpa using ends
      · split <;> simp

theorem slice_length (bytes : Bytes) (start size : Nat) :
    (slice bytes start size).length = min size (bytes.length - start) := by
  simp [slice]

theorem rfind_bound {pattern bytes : Bytes} {place : Nat} (found : rfind pattern bytes = some place) :
    place < bytes.length := by
  induction bytes generalizing place with
  | nil => simp [rfind] at found
  | cons byte rest ih =>
      simp only [rfind] at found
      split at found
      · rename_i later foundLater
        have bound := ih foundLater
        simp only [Option.some.injEq] at found
        simp only [List.length_cons]
        omega
      · split at found
        · simp only [Option.some.injEq] at found
          simp only [List.length_cons]
          omega
        · simp at found

theorem slice_tail (bytes : Bytes) (limit : Nat) :
    slice bytes (bytes.length - limit) limit = bytes.drop (bytes.length - limit) := by
  apply List.take_of_length_le
  simp only [List.length_drop]
  omega

theorem zipLimits_ends (ref : String) (file : Bytes) : zipLimits ref file ≠ .error .exhausted := by
  unfold zipLimits
  split
  · simp
  · simp only [slice_tail]
    split
    · simp
    · rename_i found foundEnd
      split
      · simp
      · apply checkDirectory_ends
        have bound := rfind_bound foundEnd
        simp only [List.length_drop] at bound ⊢
        omega

theorem declaredSize_ends (fuel : Nat) (extra : Bytes) (size : Nat) (enough : extra.length ≤ fuel) :
    declaredSize fuel extra size ≠ .error .exhausted := by
  induction fuel generalizing extra size with
  | zero =>
      have short : ¬ 4 ≤ extra.length := by omega
      simp [declaredSize, short]
  | succ fuel ih =>
      have shorter : (extra.drop (field extra 2 2 + 4)).length ≤ fuel := by
        simp only [List.length_drop]
        omega
      simp only [declaredSize]
      split
      · simp
      · split
        · simp
        · split
          · split
            · simp
            · exact ih _ _ shorter
          · exact ih _ _ shorter

theorem readRecords_ends (size fuel : Nat) (data : Bytes) (read : Nat)
    (enough : data.length < fuel) : readRecords size fuel data read ≠ .error .exhausted := by
  induction fuel generalizing data read with
  | zero => omega
  | succ fuel ih =>
      simp only [readRecords]
      split
      · split
        · simp
        · rename_i whole
          split
          · simp
          · have moved := recordLength_positive (data.take 46)
            have ends := ih (data.drop (recordLength (data.take 46)))
              (read + recordLength (data.take 46)) (by
                simp only [List.length_take, List.length_drop] at whole ⊢
                omega)
            have extraEnds := declaredSize_ends
              (slice data (46 + field (data.take 46) 28 2) (field (data.take 46) 30 2)).length
              (slice data (46 + field (data.take 46) 28 2) (field (data.take 46) 30 2))
              (field (data.take 46) 24 4) le_rfl
            split
            · rename_i failure failed
              rw [failed] at extraEnds
              simpa using extraEnds
            · split
              · rename_i failure failed
                rw [failed] at ends
                simpa using ends
              · simp
      · simp

/-! Both find the same end record. -/

theorem rfind_append {pattern rest : Bytes} {place : Nat} (found : rfind pattern rest = some place)
    (front : Bytes) : rfind pattern (front ++ rest) = some (front.length + place) := by
  induction front with
  | nil => simpa using found
  | cons byte front ih =>
      simp only [List.cons_append, rfind, ih, List.length_cons, Option.some.injEq]
      omega

theorem rfind_drop {pattern bytes : Bytes} {later place : Nat}
    (found : rfind pattern (bytes.drop later) = some place) {earlier : Nat}
    (order : earlier ≤ later) (inside : later ≤ bytes.length) :
    rfind pattern (bytes.drop earlier) = some (later - earlier + place) := by
  have cut : bytes.drop earlier =
      (bytes.drop earlier).take (later - earlier) ++ bytes.drop later := by
    have rejoined := List.take_append_drop (later - earlier) (bytes.drop earlier)
    rw [List.drop_drop, Nat.add_sub_of_le order] at rejoined
    exact rejoined.symm
  rw [cut, rfind_append found]
  simp only [List.length_take, List.length_drop, Option.some.injEq]
  omega

theorem rfind_of_prefix {pattern bytes : Bytes} (starts : pattern <+: bytes)
    (present : bytes ≠ []) : ∃ place, rfind pattern bytes = some place := by
  cases bytes with
  | nil => exact absurd rfl present
  | cons byte rest =>
      simp only [rfind]
      split
      · exact ⟨_, rfl⟩
      · exact ⟨0, by simp [List.isPrefixOf_iff_prefix.mpr starts]⟩

theorem locateEnd_of_found {file : Bytes} {found : Nat}
    (foundEnd : rfind endSignature (file.drop (file.length - 65557)) = some found)
    (fits : file.length - 65557 + found + 22 ≤ file.length) :
    locateEnd file = some (file.length - 65557 + found) := by
  have large : ¬ file.length < 22 := by omega
  simp only [locateEnd, large, if_false]
  split
  · rename_i last
    have starts : endSignature <+: file.drop (file.length - 22) := by
      rw [← last.1]
      exact List.take_prefix _ _
    have present : file.drop (file.length - 22) ≠ [] := by
      intro empty
      have short := congrArg List.length empty
      simp only [List.length_drop, List.length_nil] at short
      omega
    obtain ⟨place, foundLast⟩ := rfind_of_prefix starts present
    -- the last occurrence leaves room for 22 bytes, so it is this one
    have same := rfind_drop foundLast (show file.length - 65557 ≤ file.length - 22 by omega)
      (by omega)
    rw [foundEnd] at same
    simp only [Option.some.injEq] at same ⊢
    omega
  · have further := rfind_drop foundEnd
      (show file.length - (65536 + 22) ≤ file.length - 65557 by omega) (by omega)
    have whole : (slice (file.drop (file.length - (65536 + 22)))
        (file.length - 65557 - (file.length - (65536 + 22)) + found) 22).length = 22 := by
      simp only [slice_length, List.length_drop]
      omega
    rw [further]
    simp only [whole, ne_eq, not_true_eq_false, if_false, Option.some.injEq]
    omega

theorem field_drop (file : Bytes) (start place size : Nat) :
    field (file.drop start) place size = field file (start + place) size := by
  simp [field, slice, List.drop_drop]

theorem unpackEnd_drop (file : Bytes) (start place : Nat) :
    unpackEnd (file.drop start) place = unpackEnd file (start + place) := by
  simp [unpackEnd, field_drop, Nat.add_assoc]

/-! Both read the same records up to the end record. -/

theorem declaredSize_small (fuel : Nat) (extra : Bytes) {size declared : Nat}
    (small : size < 2 ^ 32 - 1) (done : declaredSize fuel extra size = .ok declared) :
    declared = size := by
  have plain : ¬ (size = 2 ^ 64 - 1 ∨ size = 2 ^ 32 - 1) := by omega
  induction fuel generalizing extra with
  | zero =>
      simp only [declaredSize] at done
      split at done
      · cases done
      · cases done
        rfl
  | succ fuel ih =>
      simp only [declaredSize, plain, and_false, if_false] at done
      split at done
      · cases done
        rfl
      · split at done
        · cases done
        · exact ih _ done

theorem readRecords_done {size fuel read : Nat} {data : Bytes} (ended : size ≤ read) :
    readRecords size fuel data read = .ok [] := by
  have outside : ¬ read < size := by omega
  cases fuel <;> simp [readRecords, outside]

theorem readRecords_more {size fuel read : Nat} {data : Bytes} {sizes : List Nat}
    (open_ : read < size) (done : readRecords size fuel data read = .ok sizes) :
    ∃ less declaredFuel extra declared rest, (data.take 46).length = 46 ∧
      declaredSize declaredFuel extra (field (data.take 46) 24 4) = .ok declared ∧
      readRecords size less (data.drop (recordLength (data.take 46)))
        (read + recordLength (data.take 46)) = .ok rest ∧ sizes = declared :: rest := by
  cases fuel with
  | zero => simp [readRecords, open_] at done
  | succ fuel =>
      simp only [readRecords, open_, if_true] at done
      split at done
      · cases done
      · rename_i whole
        split at done
        · cases done
        · split at done
          · cases done
          · rename_i declared declaredDone
            split at done
            · cases done
            · rename_i rest restDone
              cases done
              exact ⟨fuel, _, _, declared, rest, not_not.mp whole, declaredDone, restDone, rfl⟩

theorem checkEntries_more {ref : String} {file : Bytes} {finish fuel position count expanded : Nat}
    {counted : Nat × Nat} (open_ : position < finish)
    (checked : checkEntries ref file finish fuel position count expanded = .ok counted) :
    ∃ less, count + 1 ≤ maxEntries ∧
      expanded + field (slice file position 46) 24 4 ≤ maxExpandedBytes ∧
      less < fuel ∧
      checkEntries ref file finish less (position + recordLength (slice file position 46))
        (count + 1) (expanded + field (slice file position 46) 24 4) = .ok counted := by
  cases fuel with
  | zero => simp [checkEntries, open_] at checked
  | succ fuel =>
      simp only [checkEntries, open_, if_true] at checked
      split at checked
      · cases checked
      · split at checked
        · cases checked
        · rename_i below
          exact ⟨fuel, by omega, by omega, by omega, checked⟩

theorem slice_take {bytes : Bytes} {start size count : Nat} (few : count ≤ size) :
    (slice bytes start size).take count = slice bytes start count := by
  simp [slice, List.take_take, few]

theorem slice_rest (bytes : Bytes) (start size moved : Nat) :
    (slice bytes start size).drop moved = slice bytes (start + moved) (size - moved) := by
  simp [slice, List.drop_take, List.drop_drop]

theorem records_within {ref : String} {file : Bytes} {finish fuel position count expanded : Nat}
    {counted : Nat × Nat} (few : count ≤ maxEntries) (light : expanded ≤ maxExpandedBytes)
    (checked : checkEntries ref file finish fuel position count expanded = .ok counted)
    {size read readFuel : Nat} {sizes : List Nat} (remaining : size - read = finish - position)
    (done : readRecords size readFuel (slice file position (finish - position)) read = .ok sizes) :
    count + sizes.length ≤ maxEntries ∧ expanded + sizes.sum ≤ maxExpandedBytes := by
  induction sizes generalizing fuel position count expanded read readFuel with
  | nil => simp [few, light]
  | cons declared sizes ih =>
      have inside : read < size := by
        by_contra ended
        rw [readRecords_done (by omega)] at done
        cases done
      obtain ⟨less, declaredFuel, extra, _, _, whole, sized, later, same⟩ :=
        readRecords_more inside done
      cases same
      obtain ⟨lessFuel, fewer, lighter, _, checkedRest⟩ :=
        checkEntries_more (by omega) checked
      have long : 46 ≤ finish - position := by
        rw [List.length_take, slice_length] at whole
        omega
      rw [slice_take long] at sized later
      rw [slice_rest] at later
      -- an accepted size is far below the mark of a ZIP64 extra field
      have exact_ : declared = field (slice file position 46) 24 4 :=
        declaredSize_small _ _ (by simp only [maxExpandedBytes] at lighter; omega) sized
      have moved : finish - position - recordLength (slice file position 46) =
          finish - (position + recordLength (slice file position 46)) := by omega
      rw [moved] at later
      have rest := ih fewer lighter checkedRest (by omega) later
      simp only [List.length_cons, List.sum_cons]
      omega

theorem accepted_shape {ref : String} {file : Bytes} (accepted : zipLimits ref file = .ok ()) :
    ∃ found finish, rfind endSignature (file.drop (file.length - 65557)) = some found ∧
      finish = file.length - 65557 + found ∧ finish + 22 ≤ file.length ∧
      (unpackEnd file finish).directorySize ≤ finish ∧
      ∃ counted, checkEntries ref file finish (file.length + 1)
        (finish - (unpackEnd file finish).directorySize) 0 0 = .ok counted := by
  unfold zipLimits at accepted
  split at accepted
  · cases accepted
  · simp only [slice_tail] at accepted
    split at accepted
    · cases accepted
    · rename_i found foundEnd
      split at accepted
      · cases accepted
      · rename_i fits
        have place : file.length - (file.drop (file.length - 65557)).length + found =
            file.length - 65557 + found := by
          simp only [List.length_drop]
          omega
        rw [place, unpackEnd_drop] at accepted
        simp only [List.length_drop] at fits
        refine ⟨found, _, foundEnd, rfl, by omega, ?_⟩
        unfold checkDirectory at accepted
        split at accepted
        · cases accepted
        · split at accepted
          · cases accepted
          · rename_i bounds
            split at accepted
            · cases accepted
            · rename_i counted checked
              exact ⟨by omega, _, checked⟩

theorem readDirectory_within {ref : String} {file : Bytes} {finish : Nat} {ending : EndRecord}
    {counted : Nat × Nat} (inside : ending.directorySize ≤ finish)
    (checked : checkEntries ref file finish (file.length + 1) (finish - ending.directorySize) 0 0 =
      .ok counted) : Within (readDirectory file finish ending.directorySize) := by
  intro sizes done
  have bounded : ¬ finish < ending.directorySize := by omega
  simp only [readDirectory, bounded, if_false] at done
  have region : ending.directorySize = finish - (finish - ending.directorySize) := by omega
  rw [show slice file (finish - ending.directorySize) ending.directorySize =
    slice file (finish - ending.directorySize) (finish - (finish - ending.directorySize)) by
      rw [← region]] at done
  have bound := records_within (Nat.zero_le _) (Nat.zero_le _) checked (by omega) done
  omega

/-- An accepted archive is within the limits for its reader exactly when the directory that a
ZIP64 record points to, where the reader follows one, is. -/
theorem zipLimits_within_iff (ref : String) (file : Bytes) :
    zipLimits ref file ≠ .error .exhausted ∧
      (zipLimits ref file = .ok () →
        (Within (readArchive file) ↔
          ∀ location size, locateEnd file = some location →
            zip64Size file location = .ok (some size) →
              Within (readDirectory file (location - 76) size))) := by
  refine ⟨zipLimits_ends ref file, fun accepted => ?_⟩
  obtain ⟨found, finish, foundEnd, same, fits, inside, counted, checked⟩ := accepted_shape accepted
  have located : locateEnd file = some finish := by
    rw [same]
    exact locateEnd_of_found foundEnd (by omega)
  simp only [readArchive, located, Option.some.injEq]
  constructor
  · rintro within location size rfl pointed
    simpa only [pointed] using within
  · intro pointed
    split
    · intro sizes done
      cases done
    · exact readDirectory_within inside checked
    · rename_i size follows
      exact pointed finish size rfl follows

def littleEndian : Nat → Nat → Bytes
  | 0, _ => []
  | width + 1, value => UInt8.ofNat (value % 256) :: littleEndian width (value / 256)

def centralRecord (size comment : Nat) : Bytes :=
  centralSignature ++ [20, 0, 20, 0] ++ List.replicate 16 0 ++ littleEndian 4 size ++
    [0, 0, 0, 0] ++ littleEndian 2 comment ++ List.replicate 12 0

def endRecord (total directorySize directoryOffset : Nat) : Bytes :=
  endSignature ++ [0, 0, 0, 0] ++ littleEndian 2 total ++ littleEndian 2 total ++
    littleEndian 4 directorySize ++ littleEndian 4 directoryOffset ++ [0, 0]

/-- The comment of the one counted record holds a directory of its own, and the ZIP64 record and
locator that point to it. -/
def hiddenDirectory : Bytes :=
  localSignature ++ centralRecord 0 122 ++ centralRecord (2 ^ 28 - 1) 0 ++
    (end64Signature ++ littleEndian 8 44 ++ [20, 0, 20, 0] ++ List.replicate 8 0 ++
      littleEndian 8 1 ++ littleEndian 8 1 ++ littleEndian 8 46 ++ littleEndian 8 50) ++
    (locatorSignature ++ littleEndian 4 0 ++ littleEndian 8 96 ++ littleEndian 4 1) ++
    endRecord 1 168 4

theorem hidden_directory_unbounded :
    ¬ (zipLimits "orders.xlsx" hiddenDirectory = .ok () → Within (readArchive hiddenDirectory)) := by
  intro bounded
  have accepted : zipLimits "orders.xlsx" hiddenDirectory = .ok () := by decide +kernel
  have sizes : readArchive hiddenDirectory = .ok [2 ^ 28 - 1] := by decide +kernel
  have excess := (bounded accepted _ sizes).2
  simp [maxExpandedBytes] at excess

def plainArchive : Bytes := localSignature ++ centralRecord 7 0 ++ endRecord 1 46 4

example : readArchive plainArchive = .ok [7] := by decide +kernel

theorem plain_archive_bounded : zipLimits "orders.xlsx" plainArchive = .ok () ∧
    Within (readArchive plainArchive) := by
  have accepted : zipLimits "orders.xlsx" plainArchive = .ok () := by decide +kernel
  refine ⟨accepted, ((zipLimits_within_iff _ _).2 accepted).mpr ?_⟩
  intro location size located pointed
  have place : locateEnd plainArchive = some 50 := by decide +kernel
  rw [place] at located
  cases located
  have plain : zip64Size plainArchive 50 = .ok none := by decide +kernel
  rw [plain] at pointed
  cases pointed

end Archives

end EtlCraft
