import HsspProgrammer.HexImage

/-! Where the program data of a file go. The loader puts the records one behind the
other as they arrive; the address field of a record is part of its checksum and has
no other use. -/
namespace HsspProgrammer.Placement
open Ascii (Bytes)
open Loader Records CompleteFiles HexImage

/-- What is at a flat program address. -/
def flatByte (g : Globals) (address : Nat) : UInt8 :=
  if inside : address / BLOCK_SIZE < NUM_BLOCKS then
    (g.programData.get ⟨address / BLOCK_SIZE,inside⟩).toList.getD (address % BLOCK_SIZE) 0
  else 0

def addressOf (line : Line) : UInt16 := UInt16.ofInt ((toInt (line.slice 3 4)).getD 0)

/- The first `m` lines are program records, in the rows they are put in; the other rows
are as before. Only a file that ends early has less than 128 of them. -/
structure InOrder (g g' : Globals) (lines : List Line) (m : Nat) : Prop where
  room : m ≤ NUM_BLOCKS
  kinds : ∀ k < m, recordKind (lineAt lines k) = some .block
  rows : ∀ k (inside : k < NUM_BLOCKS),
    g'.programData[k] = if k < m then blockOf (lineAt lines k) else g.programData[k]
  counted : g'.blockCounter.toNat = m
  short : m < NUM_BLOCKS → lines.length = m

theorem laterKept (g : Globals) (lines : List (Line × Kind)) (late : g.fSecurityAddrAcquired = true) :
    (lines.foldl (fun g record => placed g record.1 record.2) g).programData = g.programData ∧
    (lines.foldl (fun g record => placed g record.1 record.2) g).blockCounter = g.blockCounter := by
  induction lines generalizing g with
  | nil => exact ⟨rfl,rfl⟩
  | cons record rest ih =>
    obtain ⟨line,k⟩ := record
    rw [List.foldl_cons]
    cases k with
    | extended =>
      have same : placed g line .extended = {g with checksumAddr := wordOf line, fChecksumAddrAcquired := true} := by
        simp [placed,late]
      rw [same]
      exact ih _ late
    | block =>
      have same : placed g line .block = {g with securityData := blockOf line} := by simp [placed,late]
      rw [same]
      exact ih _ late
    | _ => exact ih _ late

theorem acceptedShape {ks : List Kind} (accepted : ks = completeKinds ∨ Incomplete ks) :
    ∃ m tail, ks = List.replicate m .block ++ tail ∧ m ≤ NUM_BLOCKS ∧
      (tail = [] ∨ m = NUM_BLOCKS ∧ ∃ rest, tail = .extended :: rest) := by
  rcases accepted with rfl | incomplete
  · exact ⟨NUM_BLOCKS,_,rfl,Nat.le_refl _,.inr ⟨rfl,_,rfl⟩⟩
  · cases incomplete with
    | program n few => exact ⟨n,[],(List.append_nil _).symm,few,.inl rfl⟩
    | security m => exact ⟨NUM_BLOCKS,_,rfl,Nat.le_refl _,.inr ⟨rfl,_,rfl⟩⟩
    | checksum m tail late other => exact ⟨NUM_BLOCKS,_,rfl,Nat.le_refl _,.inr ⟨rfl,_,rfl⟩⟩

theorem kindAt {lines : List Line} {ks : List Kind} (kinds : lines.mapM recordKind = some ks) {k : Nat}
    {kind : Kind} (row : ks[k]? = some kind) : recordKind (lineAt lines k) = some kind := by
  induction lines generalizing ks k with
  | nil => simp at kinds; subst kinds; simp at row
  | cons line rest ih =>
    simp only [List.mapM_cons,bind,Option.bind_eq_some_iff] at kinds
    obtain ⟨first,now,tail,later,last⟩ := kinds
    cases Option.some.inj last
    cases k with
    | zero =>
      cases Option.some.inj row
      exact now
    | succ k => exact ih later row

theorem placedOrder {g : Globals} {lines : List Line} {ks : List Kind} {m : Nat} {tail : List Kind}
    (kinds : lines.mapM recordKind = some ks) (shape : ks = List.replicate m .block ++ tail) (room : m ≤ NUM_BLOCKS)
    (rest : tail = [] ∨ m = NUM_BLOCKS ∧ ∃ rest, tail = .extended :: rest) (fresh : progress g = ⟨0,false,false⟩) :
    InOrder g ((lines.zip ks).foldl (fun g record => placed g record.1 record.2) g) lines m := by
  have size := kindsLength kinds
  subst shape
  simp only [List.length_append,List.length_replicate] at size
  simp only [progress,Progress.mk.injEq] at fresh
  obtain ⟨counter,security,_⟩ := fresh
  have front : (lines.take m).length = m := by rw [List.length_take]; omega
  have zipped : lines.zip (List.replicate m .block ++ tail) =
      (lines.take m).zip (List.replicate (lines.take m).length .block) ++ (lines.drop m).zip tail := by
    rw [front]
    calc lines.zip (List.replicate m .block ++ tail)
        = (lines.take m ++ lines.drop m).zip (List.replicate m .block ++ tail) := by rw [List.take_append_drop]
      _ = _ := List.zip_append (by simp [front])
  rw [zipped,List.foldl_append,blocksPlaced]
  obtain ⟨full,filled⟩ := afterBlocksRows g (lines.take m) security (by rw [counter,front]; omega)
  have rows : ∀ k (inside : k < NUM_BLOCKS), (afterBlocks g (lines.take m)).programData[k] =
      if k < m then blockOf (lineAt lines k) else g.programData[k] := by
    intro k inside
    rw [filled k inside,counter,front]
    have row : k < m → lineAt (lines.take m) k = lineAt lines k := by
      intro early
      have inside : k < (lines.take m).length := by omega
      have same : lineAt (lines.take m ++ lines.drop m) k = lineAt (lines.take m) k := lineAtRow inside
      rw [List.take_append_drop] at same
      exact same.symm
    by_cases early : k < m
    · rw [if_pos early,if_pos ⟨Nat.zero_le k,by omega⟩]
      exact congrArg blockOf (row early)
    · rw [if_neg early,if_neg (fun h => early (by omega))]
  have kept : ∀ g', g'.programData = (afterBlocks g (lines.take m)).programData →
      g'.blockCounter = (afterBlocks g (lines.take m)).blockCounter → (m < NUM_BLOCKS → lines.length = m) →
      InOrder g g' lines m := by
    intro g' data count short
    refine ⟨room,fun k early => kindAt kinds ?_,fun k inside => ?_,?_,short⟩
    · rw [List.getElem?_append_left (by simpa using early),List.getElem?_replicate_of_lt early]
    · rw [← rows k inside]
      simp only [data]
    · rw [count,full,counter,front,Nat.zero_add]
  rcases rest with rfl | ⟨whole,rest,rfl⟩
  · rw [List.zip_nil_right,List.foldl_nil]
    exact kept _ rfl rfl (fun _ => by simpa using size.symm)
  · cases more : lines.drop m with
    | nil =>
      have few := congrArg List.length more
      simp only [List.length_drop,List.length_cons,List.length_nil] at few size
      omega
    | cons line later =>
      have first : placed (afterBlocks g (lines.take m)) line .extended =
          {afterBlocks g (lines.take m) with securityAddr := wordOf line, fSecurityAddrAcquired := true} := by
        rw [afterBlocksRest g (lines.take m) security]
        simp [placed,security]
      rw [List.zip_cons_cons,List.foldl_cons,first]
      obtain ⟨data,count⟩ := laterKept {afterBlocks g (lines.take m) with
        securityAddr := wordOf line, fSecurityAddrAcquired := true} (later.zip rest) rfl
      exact kept _ data count (fun few => absurd whole (Nat.ne_of_lt few))

/-- Every accepted file is placed in order of arrival. -/
theorem acceptedOrder {g : Globals} {file : File} (accepted : (load g (some file)).1 = true) :
    ∃ m, InOrder g (load g (some file)).2 file.lines m := by
  obtain ⟨ks,kinds,known⟩ := (loadAccepts g file).mp accepted
  obtain ⟨m,tail,shape,room,rest⟩ := acceptedShape known
  rw [load] at accepted ⊢
  rw [processLinesPlaces kinds accepted]
  have order := placedOrder
    (g := {g with blockCounter := 0x00, fSecurityAddrAcquired := false, fChecksumAddrAcquired := false})
    kinds shape room rest rfl
  exact ⟨m,order.room,order.kinds,order.rows,order.counted,order.short⟩

theorem flatRow {g : Globals} {k i : Nat} (row : k < NUM_BLOCKS) (inside : i < BLOCK_SIZE) :
    flatByte g (BLOCK_SIZE * k + i) = (g.programData[k])[i] := by
  have place : (BLOCK_SIZE * k + i) / BLOCK_SIZE = k := by
    rw [Nat.mul_add_div (by decide),Nat.div_eq_of_lt inside,Nat.add_zero]
  have offset : (BLOCK_SIZE * k + i) % BLOCK_SIZE = i := by
    rw [Nat.mul_add_mod,Nat.mod_eq_of_lt inside]
  simp only [flatByte,place,offset,row,dite_true]
  simp [inside]
  rfl

section Addresses
/- A complete file whose program records carry any address fields. -/
variable (addresses : Nat → UInt16) (image : Image) (beyond : Nat → Nat → UInt8)

def addressed : List Bytes :=
  (List.finRange NUM_BLOCKS).map (fun k : Fin NUM_BLOCKS =>
    record .block (addresses k) (image.program.get k).toList) ++ image.records.drop NUM_BLOCKS

def addressedFile : File := ⟨(addressed addresses image).flatten,beyond⟩

theorem addressedLines : (addressedFile addresses image beyond).lines =
    (addressed addresses image).mapIdx (fun i bytes => ⟨bytes,beyond i⟩) := by
  have all : ∀ line ∈ addressed addresses image, IsRecord line := by
    intro line inside
    rcases List.mem_append.mp inside with block | rest
    · obtain ⟨k,_,rfl⟩ := List.mem_map.mp block
      exact ⟨_,_,_,rfl⟩
    · exact recordsAll image line (List.mem_of_mem_drop rest)
  rw [File.lines,addressedFile,readLinesRecords all]

theorem addressedLine {i : Nat} {k : Kind} {address : UInt16} {data : Bytes}
    (row : (addressed addresses image)[i]? = some (record k address data)) :
    lineAt (addressedFile addresses image beyond).lines i = recordLine k address data (beyond i) := by
  rw [addressedLines,lineAt,List.getD_eq_getElem?_getD,List.getElem?_mapIdx,row]
  rfl

theorem addressedTail (j : Nat) : (addressed addresses image)[NUM_BLOCKS + j]? =
    [record .extended (image.fields.get 0) (wordBytes image.securityAddr),
     record .block (image.fields.get 1) image.security.toList,
     record .extended (image.fields.get 2) (wordBytes image.checksumAddr),
     record .word (image.fields.get 3) (wordBytes image.programChecksum),
     record .endOfFile (image.fields.get 4) []][j]? := by
  rw [addressed,List.getElem?_append_right (by simp),Image.records,List.drop_left' (by simp)]
  simp

theorem addressedRow (k : Nat) (inside : k < NUM_BLOCKS) : (addressed addresses image)[k]? =
    some (record .block (addresses k) (image.program.get ⟨k,inside⟩).toList) := by
  rw [addressed,List.getElem?_append_left (by simpa using inside)]
  simp [inside]

/- The addresses do not show in what the lines hold. -/
theorem addressedWritten : image.Written (addressedFile addresses image beyond).lines := by
  have tail := addressedTail addresses image
  refine ⟨?_,fun k inside => ?_,?_,?_,?_,?_,?_⟩
  · simp [addressedLines,addressed,Image.records,NUM_BLOCKS]
  · rw [addressedLine addresses image beyond (addressedRow addresses image k inside)]
    exact blockRecord _ _ _
  · have row := addressedLine addresses image beyond (tail 0)
    rw [Nat.add_zero] at row
    rw [row]
    exact wordRecord _ _ (.inl rfl) _
  · rw [addressedLine addresses image beyond (tail 1)]
    exact blockRecord _ _ _
  · rw [addressedLine addresses image beyond (tail 2)]
    exact wordRecord _ _ (.inl rfl) _
  · rw [addressedLine addresses image beyond (tail 3)]
    exact wordRecord _ _ (.inr rfl) _
  · rw [addressedLine addresses image beyond (tail 4)]
    exact endRecord _ _

end Addresses

/-- Every accepted file is placed in order of arrival, whatever the addresses of its
records say, and whatever they say a complete file is accepted. -/
theorem arrivalOrder :
    (∀ g file, (load g (some file)).1 = true → ∃ m ≤ NUM_BLOCKS,
      (load g (some file)).2.blockCounter.toNat = m ∧ (m < NUM_BLOCKS → file.lines.length = m) ∧
      (∀ k < m, recordKind (lineAt file.lines k) = some .block ∧
        ∀ i < BLOCK_SIZE, flatByte (load g (some file)).2 (BLOCK_SIZE * k + i) = byteAt (lineAt file.lines k) i) ∧
      ∀ k, m ≤ k → k < NUM_BLOCKS →
        ∀ i < BLOCK_SIZE, flatByte (load g (some file)).2 (BLOCK_SIZE * k + i) = flatByte g (BLOCK_SIZE * k + i)) ∧
    ∀ g addresses image beyond, load g (some (addressedFile addresses image beyond)) = (true,image.globals) := by
  refine ⟨fun g file accepted => ?_,
    fun g addresses image beyond => writtenLoads (addressedWritten addresses image beyond) g⟩
  obtain ⟨m,order⟩ := acceptedOrder accepted
  refine ⟨m,order.room,order.counted,order.short,fun k early => ⟨order.kinds k early,fun i inside => ?_⟩,
    fun k late row i inside => ?_⟩
  · have row : k < NUM_BLOCKS := Nat.lt_of_lt_of_le early order.room
    rw [flatRow row inside,order.rows k row,if_pos early,blockOf,Vector.getElem_ofFn]
  · rw [flatRow row inside,flatRow row inside,order.rows k row,if_neg (Nat.not_lt.mpr late)]

/- An image whose first block differs from the others. -/
def marked : Image where
  program := Vector.ofFn (fun k : Fin NUM_BLOCKS => Vector.replicate _ (if k.val = 0 then 0x01 else 0x00))
  security := Vector.replicate _ 0
  securityAddr := 0
  checksumAddr := 0
  programChecksum := 0
  fields := Vector.replicate _ 0

/- Its file with the addresses of the program records counting down. -/
def reversed : File := addressedFile (fun k => UInt16.ofNat (64 * (127 - k))) marked (fun _ _ => 0)

theorem arrivalOrderReversed : ∃ m ≤ NUM_BLOCKS, (load noGlobals (some reversed)).2.blockCounter.toNat = m ∧
    (m < NUM_BLOCKS → reversed.lines.length = m) ∧
    (∀ k < m, recordKind (lineAt reversed.lines k) = some .block ∧
      ∀ i < BLOCK_SIZE, flatByte (load noGlobals (some reversed)).2 (BLOCK_SIZE * k + i) = byteAt (lineAt reversed.lines k) i) ∧
    ∀ k, m ≤ k → k < NUM_BLOCKS → ∀ i < BLOCK_SIZE,
      flatByte (load noGlobals (some reversed)).2 (BLOCK_SIZE * k + i) = flatByte noGlobals (BLOCK_SIZE * k + i) := by
  have accepted : (load noGlobals (some reversed)).1 = true := by
    rw [reversed,writtenLoads (addressedWritten _ _ _)]
  exact arrivalOrder.1 noGlobals reversed accepted

/-- The first record has the address of the last block and is put in the first one. -/
theorem addressIgnored : ¬ ∀ g file, (load g (some file)).1 = true → ∀ k < NUM_BLOCKS,
    recordKind (lineAt file.lines k) = some .block → ∀ i < BLOCK_SIZE,
      flatByte (load g (some file)).2 ((addressOf (lineAt file.lines k)).toNat + i) = byteAt (lineAt file.lines k) i := by
  intro claim
  have loaded : load noGlobals (some reversed) = (true,marked.globals) := writtenLoads (addressedWritten _ _ _) noGlobals
  have row : lineAt reversed.lines 0 = recordLine .block (UInt16.ofNat (64 * 127))
      (marked.program.get ⟨0,by decide⟩).toList (fun _ => 0) :=
    addressedLine _ _ _ (addressedRow _ marked 0 (by decide))
  have address : addressOf (lineAt reversed.lines 0) = UInt16.ofNat (64 * 127) := by
    rw [addressOf,row,fieldAddress]
    rfl
  have kind : recordKind (lineAt reversed.lines 0) = some .block := by
    rw [row]
    exact (blockRecord _ _ _).1
  have byte : byteAt (lineAt reversed.lines 0) 0 = 0x01 := by
    rw [byteAt,row,fieldByte _ _ _ _ 0 (by rw [Vector.length_toList]; decide)]
    rfl
  have placed := claim noGlobals reversed (by rw [loaded]) 0 (by decide) kind 0 (by decide)
  rw [loaded,address,byte] at placed
  exact absurd placed (by decide +kernel)

end HsspProgrammer.Placement
