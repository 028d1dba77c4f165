import HsspProgrammer.HexImage
import HsspProgrammer.Numerals

/-! The lines that are read as a record, told from their text: each field spells its bytes
in one of the ways that `toInt` takes, and the bytes sum to zero. -/
namespace HsspProgrammer.Respelling
open Ascii (Bytes)
open Loader Records HexImage
open Numerals (Numeral toIntIff)

/- The fields of a record by their first byte and their number of bytes. -/
def dataFields : Kind → List (Nat × Nat)
  | .block => (List.range BLOCK_SIZE).map (fun i => (4 + i,1))
  | .extended | .word => [(4,2)]
  | .endOfFile => []

def recordFields (k : Kind) : List (Nat × Nat) := [(0,1),(1,2),(3,1)] ++ dataFields k ++ [(4 + k.size.toNat,1)]

/- What is kept of a value, in one byte or in two. -/
def fieldBytes (n : Nat) (value : Int) : Bytes :=
  if n = 1 then [UInt8.ofInt value] else [(UInt16.ofInt value >>> 8).toUInt8,(UInt16.ofInt value).toUInt8]

/- Some spelling of the bytes of a field stands in its columns. -/
def FieldSpelled (line : Line) (bytes : Bytes) (f : Nat × Nat) : Prop :=
  ∃ value, Numeral (line.slice (1 + 2 * f.1) (2 * f.2)) value ∧ fieldBytes f.2 value = (bytes.drop f.1).take f.2

/- Each field of the line is some spelling of its bytes in a record. -/
structure Respelled (line : Line) (k : Kind) (bytes : Bytes) : Prop where
  colon : line.get 0 = Ascii.colon
  length : bytes.length = 5 + k.size.toNat
  size : bytes[0]? = some k.size
  type : bytes[3]? = some k.type
  balanced : total bytes = 0
  fields : ∀ f ∈ recordFields k, FieldSpelled line bytes f

/- The bytes of the data field as they are read. -/
def dataRead (line : Line) : Kind → Bytes
  | .block => (List.range BLOCK_SIZE).map (byteAt line)
  | .extended | .word => [(wordOf line >>> 8).toUInt8,(wordOf line).toUInt8]
  | .endOfFile => []

theorem dataReadLength (line : Line) (k : Kind) : (dataRead line k).length = k.size.toNat := by
  cases k <;> simp [dataRead,Kind.size,BLOCK_SIZE]

theorem addWordTotal (checksum : UInt8) (word : UInt16) :
    addWord checksum word = checksum + total [(word >>> 8).toUInt8,word.toUInt8] := by
  simp only [addWord,totalCons]
  rw [show total [] = 0 from rfl]
  ac_rfl

def DataConverts (line : Line) : Kind → Prop
  | .block => ∀ i < BLOCK_SIZE, (dataByte line i).isSome
  | .extended | .word => (toInt (line.slice 9 4)).isSome
  | .endOfFile => True

theorem payloadRead {line : Line} {k : Kind} {checksum checksum' : UInt8} : payload line checksum k = some checksum' ↔
    DataConverts line k ∧ checksum + total (dataRead line k) = checksum' := by
  cases k with
  | block =>
    have sum : (List.range BLOCK_SIZE).foldl (fun sum i => sum + byteAt line i) checksum =
        checksum + total (dataRead line .block) := by
      rw [← List.foldl_map (f := byteAt _) (g := (· + ·)),totalFrom]
      rfl
    rw [payload,Option.ite_none_right_eq_some,sum,Option.some.injEq]
    rfl
  | extended | word =>
    rw [payload,Option.ite_none_right_eq_some,addWordTotal,Option.some.injEq]
    rfl
  | endOfFile =>
    rw [payload,Option.some.injEq,show dataRead line .endOfFile = [] from rfl,show total [] = 0 from rfl,UInt8.add_zero]
    exact (and_iff_right trivial).symm

/- The checksum balances what stands before it. -/
theorem balances (size hi lo type check : UInt8) (data : Bytes) :
    (check = ~~~(size + type + lo + hi + total data) + 0x01) ↔
      total (size :: hi :: lo :: type :: (data ++ [check])) = 0 := by
  have closed : total (data ++ [check]) = total data + check := by
    rw [total,List.foldl_append,List.foldl_cons,List.foldl_nil]
    rfl
  simp only [totalCons,closed,complement]
  constructor <;> intro balanced <;> grind

theorem fieldOne {line : Line} {i : Nat} {bytes : Bytes} : FieldSpelled line bytes (i,1) ↔
    ∃ value, toInt (line.slice (1 + 2 * i) 2) = some value ∧ bytes[i]? = some (UInt8.ofInt value) := by
  refine exists_congr (fun value => and_congr toIntIff.symm ?_)
  dsimp only
  cases found : bytes[i]? with
  | none => simp [fieldBytes,List.drop_eq_nil_of_le (List.getElem?_eq_none_iff.mp found)]
  | some b =>
    obtain ⟨inside,rfl⟩ := List.getElem?_eq_some_iff.mp found
    have one : (bytes.drop i).take 1 = [bytes[i]] := by
      rw [List.drop_eq_getElem_cons inside]
      rfl
    rw [one]
    simp [fieldBytes,eq_comm]

theorem fieldTwo {line : Line} {i : Nat} {bytes : Bytes} : FieldSpelled line bytes (i,2) ↔
    ∃ value, toInt (line.slice (1 + 2 * i) 4) = some value ∧
      [(UInt16.ofInt value >>> 8).toUInt8,(UInt16.ofInt value).toUInt8] = (bytes.drop i).take 2 :=
  exists_congr (fun _ => and_congr toIntIff.symm Iff.rfl)

/- The fields of the data are spelled as they are read. -/
theorem dataSpelledAs {line : Line} {k : Kind} {bytes : Bytes} (length : bytes.length = 5 + k.size.toNat) :
    (∀ f ∈ dataFields k, FieldSpelled line bytes f) ↔
      DataConverts line k ∧ dataRead line k = (bytes.drop 4).take k.size.toNat := by
  cases k with
  | block =>
    have size : Kind.block.size.toNat = BLOCK_SIZE := rfl
    rw [size] at length
    have each (i : Nat) (inside : i < BLOCK_SIZE) : FieldSpelled line bytes (4 + i,1) ↔
        dataByte line i = some (bytes.get ⟨4 + i,by omega⟩) := by
      rw [fieldOne,dataByte,show 9 + i * 2 = 1 + 2 * (4 + i) by omega,Option.map_eq_some_iff,
        List.getElem?_eq_getElem (show 4 + i < bytes.length by omega)]
      simp [eq_comm]
    rw [dataFields,List.forall_mem_map,size]
    constructor
    · intro fields
      have rows (i : Nat) (inside : i < BLOCK_SIZE) := (each i inside).mp (fields i (List.mem_range.mpr inside))
      refine ⟨fun i inside => Option.isSome_of_eq_some (rows i inside),List.ext_getElem ?_ (fun i first second => ?_)⟩
      · simp [dataRead]
        omega
      · have inside : i < BLOCK_SIZE := by simpa [dataRead] using first
        simp [dataRead,byteAt,rows i inside]
    · rintro ⟨all,read⟩ i inside
      have inside := List.mem_range.mp inside
      refine (each i inside).mpr ?_
      obtain ⟨v,row⟩ := Option.isSome_iff_exists.mp (all i inside)
      have here := congrArg (fun data => data[i]?) read
      simp [dataRead,byteAt,inside,row,List.getElem?_drop,
        List.getElem?_eq_getElem (show 4 + i < bytes.length by omega)] at here
      rw [row,here]
      rfl
  | extended | word =>
    rw [dataFields,List.forall_mem_singleton,fieldTwo]
    constructor
    · rintro ⟨value,read,same⟩
      have column : line.slice 9 4 = line.slice (1 + 2 * 4) 4 := rfl
      refine ⟨?_,?_⟩
      · rw [DataConverts,column,read]
        rfl
      · rw [dataRead,wordOf,column,read]
        exact same
    · rintro ⟨converts,read⟩
      obtain ⟨value,converts⟩ := Option.isSome_iff_exists.mp converts
      rw [dataRead,wordOf,converts] at read
      exact ⟨value,converts,read⟩
  | endOfFile => simp [dataFields,DataConverts,dataRead,Kind.size]

theorem matchesValue {line : Line} {k : Kind} {checksum : UInt8} : checksumMatches line k.size checksum = true ↔
    ∃ value, toInt (line.slice (1 + 2 * (4 + k.size.toNat)) 2) = some value ∧ UInt8.ofInt value = ~~~checksum + 0x01 := by
  rw [checksumMatches,show 9 + k.size.toNat * 2 = 1 + 2 * (4 + k.size.toNat) by omega]
  split
  · rename_i failed
    simp [failed]
  · rename_i value converted
    simp [converted]

/-- The fields of a line that is read as a record are spellings of one. -/
theorem kindRespelled {line : Line} {k : Kind} (kind : recordKind line = some k) : ∃ bytes, Respelled line k bytes := by
  unfold recordKind at kind
  split at kind
  · contradiction
  rename_i colon
  simp only [bind,Option.bind_eq_some_iff] at kind
  obtain ⟨size,first,address,second,type,third,k',known,sum,data,last⟩ := kind
  obtain ⟨matching,last⟩ := Option.ite_none_right_eq_some.mp last
  cases last
  obtain ⟨check,fourth,closes⟩ := matchesValue.mp matching
  obtain ⟨converts,rfl⟩ := payloadRead.mp data
  obtain ⟨size',type'⟩ := kindOfSome known
  have long := dataReadLength line k
  rw [addWordTotal] at closes
  let bytes : Bytes := k.size :: (UInt16.ofInt address >>> 8).toUInt8 :: (UInt16.ofInt address).toUInt8 :: k.type ::
    (dataRead line k ++ [UInt8.ofInt check])
  have length : bytes.length = 5 + k.size.toNat := by simp [bytes,long]; omega
  refine ⟨bytes,Decidable.not_not.mp colon,length,rfl,rfl,(balances _ _ _ _ _ _).mp ?_,fun f inside => ?_⟩
  · rw [closes]
    simp only [totalCons]
    rw [show total [] = 0 from rfl]
    ac_rfl
  · have rows : dataRead line k = (bytes.drop 4).take k.size.toNat := by
      rw [← long]
      exact List.take_left.symm
    have data := (dataSpelledAs length).mpr ⟨converts,rows⟩
    rcases List.mem_append.mp inside with inside | inside
    · rcases List.mem_append.mp inside with inside | inside
      · simp only [List.mem_cons,List.not_mem_nil,or_false] at inside
        rcases inside with rfl | rfl | rfl
        · exact fieldOne.mpr ⟨size,first,congrArg some size'.symm⟩
        · exact fieldTwo.mpr ⟨address,second,rfl⟩
        · exact fieldOne.mpr ⟨type,third,congrArg some type'.symm⟩
      · exact data f inside
    · cases List.mem_singleton.mp inside
      refine fieldOne.mpr ⟨check,fourth,?_⟩
      rw [Nat.add_comm]
      simp [bytes,← long]

theorem respelledKind {line : Line} {k : Kind} {bytes : Bytes} (respelled : Respelled line k bytes) : recordKind line = some k := by
  obtain ⟨colon,length,size,type,balanced,fields⟩ := respelled
  have one (i : Nat) (inside : (i,1) ∈ recordFields k) := fieldOne.mp (fields (i,1) inside)
  obtain ⟨size',first,size''⟩ := one 0 (by simp [recordFields])
  obtain ⟨address,second,word⟩ := fieldTwo.mp (fields (1,2) (by simp [recordFields]))
  obtain ⟨type',third,type''⟩ := one 3 (by simp [recordFields])
  obtain ⟨check,fourth,last⟩ := one (4 + k.size.toNat) (by simp [recordFields])
  obtain ⟨converts,rows⟩ := (dataSpelledAs length).mp (fun f inside => fields f (by simp [recordFields,inside]))
  have parts : bytes = k.size :: (UInt16.ofInt address >>> 8).toUInt8 :: (UInt16.ofInt address).toUInt8 :: k.type ::
      (dataRead line k ++ [UInt8.ofInt check]) := by
    have rest : bytes.drop 4 = dataRead line k ++ [UInt8.ofInt check] := by
      have ends : (bytes.drop 4).drop k.size.toNat = [UInt8.ofInt check] := by
        obtain ⟨inside,is⟩ := List.getElem?_eq_some_iff.mp last
        rw [List.drop_drop,List.drop_eq_getElem_cons inside,is,List.drop_eq_nil_of_le (by omega)]
      rw [rows,← ends,List.take_append_drop]
    match bytes, size, type, word, rest with
    | b :: hi :: lo :: t :: more, size, type, word, rest =>
      cases size
      cases type
      cases word
      exact congrArg (k.size :: _ :: _ :: k.type :: ·) rest
  rw [parts] at balanced
  have closes := (balances _ _ _ _ _ _).mpr balanced
  have kind : kindOf (UInt8.ofInt size') (UInt8.ofInt type') = some k := by
    rw [← Option.some.inj (size.symm.trans size''),← Option.some.inj (type.symm.trans type''),kindOfKind]
  have payload' (checksum : UInt8) : payload line checksum k = some (checksum + total (dataRead line k)) :=
    payloadRead.mpr ⟨converts,rfl⟩
  have matching : checksumMatches line k.size
      (addWord (k.size + k.type) (UInt16.ofInt address) + total (dataRead line k)) = true := by
    refine matchesValue.mpr ⟨check,fourth,closes.trans ?_⟩
    rw [addWordTotal]
    simp only [totalCons]
    rw [show total [] = 0 from rfl]
    ac_rfl
  rw [recordKind,if_neg (fun other => other colon)]
  have first : toInt (line.slice 1 2) = some size' := first
  have second : toInt (line.slice 3 4) = some address := second
  have third : toInt (line.slice 7 2) = some type' := third
  simp only [first,second,third,bind,Option.bind_some,kind,payload',matching,if_true]

/-- A line is a record of some kind exactly when its fields are spellings of one. -/
theorem recordRespelled {line : Line} {k : Kind} : recordKind line = some k ↔ ∃ bytes, Respelled line k bytes :=
  ⟨kindRespelled,fun ⟨_,respelled⟩ => respelledKind respelled⟩

end HsspProgrammer.Respelling
