import HsspProgrammer.Records

/-! Which bytes of a line the record parser looks at. The parser is written once more
with every `line[i]` noted; nothing in it compares an index with the size of the line. -/
namespace HsspProgrammer.LineBounds
open Ascii (Bytes)
open Loader Records

/- A value and the indices that were read for it, in order. -/
structure Traced (α : Type) where
  value : α
  reads : List Nat

instance : Monad Traced where
  pure a := ⟨a,[]⟩
  bind x f := ⟨(f x.value).value,x.reads ++ (f x.value).reads⟩

def byteTraced (line : Line) (i : Nat) : Traced UInt8 := ⟨line.get i,[i]⟩

def sliceTraced (line : Line) (i n : Nat) : Traced Bytes := ⟨line.slice i n,(List.range n).map (fun j => i + j)⟩

def storeBytesTraced (line : Line) : List Nat → Block → UInt8 → Traced (Option UInt8 × Block)
  | [],row,checksum => pure (some checksum,row)
  | i :: rest,row,checksum => do
    let str ← sliceTraced line (9 + i * 2) 2
    match (toInt str).map UInt8.ofInt with
    | none => pure (none,row)
    | some v => storeBytesTraced line rest (row.setIfInBounds i v) (checksum + v)

def storeWordTraced (line : Line) (checksum : UInt8) : Traced (Option UInt8 × UInt16) := do
  let str ← sliceTraced line 9 4
  match toInt str with
  | none => pure (none,0)
  | some value => pure (some (addWord checksum (UInt16.ofInt value)),UInt16.ofInt value)

theorem roomLeft (g : Globals) (dataSize dataType : UInt8) (data : dataSize = 64 ∧ dataType = 0x00 ∧
    g.blockCounter.toNat < NUM_BLOCKS ∧ g.fSecurityAddrAcquired = false ∧ g.fChecksumAddrAcquired = false) :
    g.blockCounter.toNat < NUM_BLOCKS := data.2.2.1

def storeTraced (g : Globals) (line : Line) (dataSize dataType checksum : UInt8) :
    Traced (Option UInt8 × Globals) :=
  if data : dataSize = 64 ∧ dataType = 0x00 ∧ g.blockCounter.toNat < NUM_BLOCKS ∧
      g.fSecurityAddrAcquired = false ∧ g.fChecksumAddrAcquired = false then do
    let stored ← storeBytesTraced line (List.range BLOCK_SIZE)
      (g.programData.get ⟨g.blockCounter.toNat,roomLeft g dataSize dataType data⟩) checksum
    let programData := g.programData.set g.blockCounter.toNat stored.2 (roomLeft g dataSize dataType data)
    match stored.1 with
    | none => pure (none,{g with programData := programData})
    | some sum => pure (some sum,{g with programData := programData, blockCounter := g.blockCounter + 1})
  else if dataSize = 64 ∧ dataType = 0x00 ∧ g.blockCounter.toNat = NUM_BLOCKS ∧
      g.fSecurityAddrAcquired = true ∧ g.fChecksumAddrAcquired = false then do
    let stored ← storeBytesTraced line (List.range BLOCK_SIZE) g.securityData checksum
    pure (stored.1,{g with securityData := stored.2})
  else if dataSize = 0x02 ∧ dataType = 0x04 ∧ g.blockCounter.toNat = NUM_BLOCKS ∧
      g.fSecurityAddrAcquired = false ∧ g.fChecksumAddrAcquired = false then do
    let stored ← storeWordTraced line checksum
    pure (stored.1,{g with securityAddr := stored.2, fSecurityAddrAcquired := stored.1.isSome})
  else if dataSize = 0x02 ∧ dataType = 0x04 ∧ g.blockCounter.toNat = NUM_BLOCKS ∧
      g.fSecurityAddrAcquired = true ∧ g.fChecksumAddrAcquired = false then do
    let stored ← storeWordTraced line checksum
    pure (stored.1,{g with checksumAddr := stored.2, fChecksumAddrAcquired := stored.1.isSome})
  else if dataSize = 0x02 ∧ dataType = 0x00 ∧ g.blockCounter.toNat = NUM_BLOCKS ∧
      g.fSecurityAddrAcquired = true ∧ g.fChecksumAddrAcquired = true then do
    let stored ← storeWordTraced line checksum
    pure (stored.1,{g with programChecksum := stored.2})
  else if dataSize = 0x00 ∧ dataType = 0x01 ∧ g.blockCounter.toNat = NUM_BLOCKS ∧
      g.fSecurityAddrAcquired = true ∧ g.fChecksumAddrAcquired = true then
    pure (some checksum,g)
  else pure (none,g)

def checksumTraced (line : Line) (dataSize checksum : UInt8) : Traced Bool := do
  let str ← sliceTraced line (9 + dataSize.toNat * 2) 2
  match toInt str with
  | none => pure false
  | some value => pure (UInt8.ofInt value == ~~~checksum + 0x01)

/- The rest of the parser, once size, address and type have converted. -/
def tailTraced (g : Globals) (line : Line) (dataSize dataType checksum : UInt8) : Traced (Bool × Globals) := do
  let stored ← storeTraced g line dataSize dataType checksum
  match stored.1 with
  | none => pure (false,stored.2)
  | some checksum =>
    let matching ← checksumTraced line dataSize checksum
    pure (matching,stored.2)

def hexDataTraced (g : Globals) (line : Line) : Traced (Bool × Globals) := do
  let start ← byteTraced line 0
  if start ≠ Ascii.colon then pure (false,g)
  else
    let str ← sliceTraced line 1 2
    match toInt str with
    | none => pure (false,g)
    | some size =>
      let str ← sliceTraced line 3 4
      match toInt str with
      | none => pure (false,g)
      | some address =>
        let str ← sliceTraced line 7 2
        match toInt str with
        | none => pure (false,g)
        | some type =>
          let dataSize := UInt8.ofInt size
          let dataType := UInt8.ofInt type
          tailTraced g line dataSize dataType (addWord (dataSize + dataType) (UInt16.ofInt address))

section Agreement
/- The notes change nothing. -/

theorem bindTraced {α β : Type} (x : Traced α) (f : α → Traced β) :
    x >>= f = ⟨(f x.value).value,x.reads ++ (f x.value).reads⟩ := rfl

theorem pureTraced {α : Type} (a : α) : (pure a : Traced α) = ⟨a,[]⟩ := rfl

theorem storeBytesValue (line : Line) (indices : List Nat) (row : Block) (checksum : UInt8) :
    (storeBytesTraced line indices row checksum).value = storeBytes line indices row checksum := by
  induction indices generalizing row checksum with
  | nil => rfl
  | cons i rest ih =>
    simp only [storeBytesTraced,storeBytes,bindTraced,sliceTraced,dataByte]
    cases (toInt (line.slice (9 + i * 2) 2)).map UInt8.ofInt with
    | none => rfl
    | some v => exact ih _ _

theorem storeWordValue (line : Line) (checksum : UInt8) :
    (storeWordTraced line checksum).value = storeWord line checksum := by
  simp only [storeWordTraced,storeWord,bindTraced,sliceTraced]
  cases toInt (line.slice 9 4) <;> rfl

theorem storeValue (g : Globals) (line : Line) (dataSize dataType checksum : UInt8) :
    (storeTraced g line dataSize dataType checksum).value = store g line dataSize dataType checksum := by
  unfold storeTraced store
  split
  · simp only [bindTraced,storeBytesValue]
    split <;> simp_all [pureTraced]
  · repeat' split
    all_goals simp only [bindTraced,pureTraced,storeBytesValue,storeWordValue]

theorem checksumValue (line : Line) (dataSize checksum : UInt8) :
    (checksumTraced line dataSize checksum).value = checksumMatches line dataSize checksum := by
  simp only [checksumTraced,checksumMatches,bindTraced,sliceTraced]
  cases toInt (line.slice (9 + dataSize.toNat * 2) 2) <;> rfl

theorem hexDataValue (g : Globals) (line : Line) : (hexDataTraced g line).value = hexDataProcess g line := by
  unfold hexDataTraced hexDataProcess
  simp only [bindTraced,byteTraced,sliceTraced]
  by_cases start : line.get 0 = Ascii.colon
  · rw [if_neg (by simp [start]),if_neg (by simp [start])]
    cases toInt (line.slice 1 2) with
    | none => rfl
    | some size => cases toInt (line.slice 3 4) with
      | none => rfl
      | some address => cases toInt (line.slice 7 2) with
        | none => rfl
        | some type =>
          simp only [tailTraced,bindTraced,storeValue]
          cases (store g line _ _ _).1 with
          | none => rfl
          | some checksum => simp only [checksumValue,pureTraced]
  · rw [if_pos start,if_pos start]
    rfl

end Agreement

section Fields
/- A field is its first column and its width. -/

abbrev Field := Nat × Nat

def converts (line : Line) (f : Field) : Bool := (toInt (line.slice f.1 f.2)).isSome

def payloadFields : Kind → List Field
  | .block => (List.range BLOCK_SIZE).map (fun i => (9 + i * 2,2))
  | .extended | .word => [(9,4)]
  | .endOfFile => []

/- The kind of record that size and type announce, if it may come now. -/
def due (g : Globals) (line : Line) : Option Kind := do
  let size ← toInt (line.slice 1 2)
  let type ← toInt (line.slice 7 2)
  (kindOf (UInt8.ofInt size) (UInt8.ofInt type)).filter (fun k => (advance (progress g) k).isSome)

def fields (g : Globals) (line : Line) : List Field :=
  [(1,2),(3,4),(7,2)] ++ match due g line with
    | none => []
    | some k => payloadFields k ++ [(9 + k.size.toNat * 2,2)]

def Field.indices (f : Field) : List Nat := (List.range f.2).map (fun j => f.1 + j)

/- Fields are converted one after the other, up to the first that does not convert. -/
def readFields (line : Line) : List Field → List Nat
  | [] => []
  | f :: rest => Field.indices f ++ if converts line f then readFields line rest else []

/- How long a line is that holds all these fields. -/
def recordLength (g : Globals) (line : Line) : Nat :=
  match due g line with
  | none => 9
  | some k => 11 + 2 * k.size.toNat

end Fields

theorem readConverting {line : Line} {f : Field} (rest : List Field) {value : Int}
    (converted : toInt (line.slice f.1 f.2) = some value) :
    readFields line (f :: rest) = Field.indices f ++ readFields line rest := by
  rw [readFields,converts,converted,if_pos (by rfl)]

theorem readFailing {line : Line} {f : Field} (rest : List Field)
    (failed : toInt (line.slice f.1 f.2) = none) : readFields line (f :: rest) = Field.indices f := by
  rw [readFields,converts,failed,if_neg (by simp),List.append_nil]

theorem storeBytesReads (line : Line) (indices : List Nat) (row : Block) (checksum : UInt8) :
    (storeBytesTraced line indices row checksum).reads =
      readFields line (indices.map (fun i => (9 + i * 2,2))) := by
  induction indices generalizing row checksum with
  | nil => rfl
  | cons i rest ih =>
    rw [List.map_cons]
    cases field : toInt (line.slice (9 + i * 2) 2) with
    | none =>
      rw [readFailing (f := (9 + i * 2,2)) _ field]
      simp [storeBytesTraced,bindTraced,pureTraced,sliceTraced,field,Field.indices]
    | some v =>
      rw [readConverting (f := (9 + i * 2,2)) _ field,← ih]
      simp only [storeBytesTraced,bindTraced,sliceTraced,field,Option.map_some]
      rfl

theorem storeWordReads (line : Line) (checksum : UInt8) :
    (storeWordTraced line checksum).reads = readFields line [(9,4)] := by
  cases field : toInt (line.slice 9 4) with
  | none =>
    rw [readFailing (f := (9,4)) _ field]
    simp [storeWordTraced,bindTraced,pureTraced,sliceTraced,field,Field.indices]
  | some value =>
    rw [readConverting (f := (9,4)) _ field]
    simp [storeWordTraced,bindTraced,pureTraced,sliceTraced,field,Field.indices,readFields]

theorem bindReads {α β : Type} (x : Traced α) (f : α → Traced β) (quiet : (f x.value).reads = []) :
    (x >>= f).reads = x.reads := by
  rw [bindTraced,quiet,List.append_nil]

/- The branches read the payload of a record that may come now, and nothing else. -/
theorem storeReads (g : Globals) (line : Line) (checksum : UInt8) (k : Kind) :
    (storeTraced g line k.size k.type checksum).reads =
      if (advance (progress g) k).isSome then readFields line (payloadFields k) else [] := by
  have bytes := storeBytesReads line (List.range BLOCK_SIZE)
  obtain ⟨programData,securityData,blockCounter,security,_,addressed,_,_⟩ := g
  cases k with
  | block =>
    simp only [storeTraced,advance,progress,Kind.size,Kind.type,payloadFields]
    by_cases early : blockCounter.toNat < NUM_BLOCKS
    · cases security <;> cases addressed <;> simp [early,Nat.ne_of_lt early,pureTraced]
      rw [bindReads,bytes]
      split <;> rfl
    · cases security <;> cases addressed <;> by_cases full : blockCounter.toNat = NUM_BLOCKS <;>
        simp [full,early,pureTraced,bindTraced,bytes]
  | extended =>
    simp only [storeTraced,advance,progress,Kind.size,Kind.type,payloadFields]
    cases security <;> cases addressed <;> by_cases full : blockCounter.toNat = NUM_BLOCKS <;>
      simp [full,pureTraced,bindTraced,storeWordReads]
  | word =>
    simp only [storeTraced,advance,progress,Kind.size,Kind.type,payloadFields]
    cases security <;> cases addressed <;> by_cases full : blockCounter.toNat = NUM_BLOCKS <;>
      simp [full,pureTraced,bindTraced,storeWordReads]
  | endOfFile =>
    simp only [storeTraced,advance,progress,Kind.size,Kind.type,payloadFields]
    cases security <;> cases addressed <;> by_cases full : blockCounter.toNat = NUM_BLOCKS <;>
      simp [full,pureTraced,readFields]

theorem readAll {line : Line} {fs : List Field} (rest : List Field) (all : ∀ f ∈ fs, converts line f = true) :
    readFields line (fs ++ rest) = readFields line fs ++ readFields line rest := by
  induction fs with
  | nil => rfl
  | cons f fs ih =>
    have now := all f List.mem_cons_self
    rw [List.cons_append,readFields,readFields,if_pos now,if_pos now,List.append_assoc,
      ih (fun f inside => all f (List.mem_cons_of_mem _ inside))]

theorem readSome {line : Line} {fs : List Field} (rest : List Field) (bad : ¬ ∀ f ∈ fs, converts line f = true) :
    readFields line (fs ++ rest) = readFields line fs := by
  induction fs with
  | nil => simp at bad
  | cons f fs ih =>
    rw [List.cons_append,readFields,readFields]
    by_cases now : converts line f = true
    · rw [if_pos now,if_pos now,ih]
      intro all
      apply bad
      intro f' inside
      cases inside with
      | head => exact now
      | tail _ inside => exact all f' inside
    · rw [if_neg now,if_neg now]

theorem payloadConverts (line : Line) (checksum : UInt8) (k : Kind) :
    (payload line checksum k).isSome ↔ ∀ f ∈ payloadFields k, converts line f = true := by
  cases k with
  | block =>
    have each : (∀ f ∈ payloadFields .block, converts line f = true) ↔ ∀ i < BLOCK_SIZE, (dataByte line i).isSome := by
      simp [payloadFields,converts,dataByte]
    rw [each,payload]
    split <;> simp_all
  | extended | word =>
    simp only [payload,payloadFields,List.forall_mem_singleton,converts]
    split <;> simp_all
  | endOfFile => simp [payload,payloadFields]

theorem checksumReads (line : Line) (dataSize checksum : UInt8) :
    (checksumTraced line dataSize checksum).reads = readFields line [(9 + dataSize.toNat * 2,2)] := by
  cases field : toInt (line.slice (9 + dataSize.toNat * 2) 2) with
  | none =>
    rw [readFailing (f := (9 + dataSize.toNat * 2,2)) _ field]
    simp [checksumTraced,bindTraced,pureTraced,sliceTraced,field,Field.indices]
  | some value =>
    rw [readConverting (f := (9 + dataSize.toNat * 2,2)) _ field]
    simp [checksumTraced,bindTraced,pureTraced,sliceTraced,field,Field.indices,readFields]

theorem storeUnread (g : Globals) (line : Line) (dataSize dataType checksum : UInt8)
    (unknown : kindOf dataSize dataType = none) : (storeTraced g line dataSize dataType checksum).reads = [] := by
  have no := kindOfNone unknown
  unfold storeTraced
  rw [dif_neg (fun h => no .block ⟨h.1,h.2.1⟩),if_neg (fun h => no .block ⟨h.1,h.2.1⟩),
    if_neg (fun h => no .extended ⟨h.1,h.2.1⟩),if_neg (fun h => no .extended ⟨h.1,h.2.1⟩),
    if_neg (fun h => no .word ⟨h.1,h.2.1⟩),if_neg (fun h => no .endOfFile ⟨h.1,h.2.1⟩)]
  rfl

theorem tailReads (g : Globals) (line : Line) (dataSize dataType checksum : UInt8) :
    (tailTraced g line dataSize dataType checksum).reads =
      match (kindOf dataSize dataType).filter (fun k => (advance (progress g) k).isSome) with
      | none => []
      | some k => readFields line (payloadFields k ++ [(9 + k.size.toNat * 2,2)]) := by
  rw [tailTraced,bindTraced]
  cases kind : kindOf dataSize dataType with
  | none =>
    rw [storeUnread _ _ _ _ _ kind,storeValue,storeUnknown _ _ _ _ _ kind]
    rfl
  | some k =>
    obtain ⟨size,type⟩ := kindOfSome kind
    subst size type
    rw [storeReads,storeValue,storeChecksum]
    cases now : advance (progress g) k with
    | none => simp [pureTraced,Option.filter,now]
    | some p =>
      rw [Option.bind_some,if_pos (by rfl),Option.filter_some,now,if_pos (by rfl)]
      have whole := payloadConverts line checksum k
      cases sum : payload line checksum k with
      | none =>
        rw [sum] at whole
        have bad := whole.not.mp (by simp)
        simp only [pureTraced,List.append_nil]
        exact (readSome _ bad).symm
      | some checksum =>
        rw [sum] at whole
        simp only [bindTraced,pureTraced,List.append_nil,checksumReads]
        exact (readAll _ (whole.mp rfl)).symm

/-- The indices that are read are those of the fields, after the first byte. -/
theorem hexDataReads (g : Globals) (line : Line) : (hexDataTraced g line).reads =
    0 :: if line.get 0 = Ascii.colon then readFields line (fields g line) else [] := by
  unfold hexDataTraced
  by_cases start : line.get 0 = Ascii.colon
  · simp only [bindTraced,byteTraced,sliceTraced,start,ne_eq,not_true,if_false,if_true,List.singleton_append]
    congr 1
    simp only [fields,List.cons_append,List.nil_append]
    cases size : toInt (line.slice 1 2) with
    | none => rw [readFailing (f := (1,2)) _ size,Field.indices,pureTraced,List.append_nil]
    | some s =>
      rw [readConverting (f := (1,2)) _ size]
      refine congrArg _ ?_
      dsimp only
      cases address : toInt (line.slice 3 4) with
      | none => rw [readFailing (f := (3,4)) _ address]; rfl
      | some a =>
        rw [readConverting (f := (3,4)) _ address]
        refine congrArg _ ?_
        dsimp only
        cases type : toInt (line.slice 7 2) with
        | none => rw [readFailing (f := (7,2)) _ type]; rfl
        | some t =>
          rw [readConverting (f := (7,2)) _ type,due,size,type]
          refine congrArg _ ((tailReads _ _ _ _ _).trans ?_)
          simp only [bind,Option.bind_some]
          split <;> simp_all [readFields]
  · simp only [bindTraced,byteTraced,start,ne_eq,not_false_eq_true,if_true,if_false]
    rfl

/- The fields stand one behind the other and none is empty. -/
structure Ordered (fs : List Field) : Prop where
  behind : fs.Pairwise (fun f f' => f.1 + f.2 ≤ f'.1)
  wide : ∀ f ∈ fs, 0 < f.2

theorem fieldsOrdered (g : Globals) (line : Line) : Ordered (fields g line) := by
  cases now : due g line with
  | none =>
    rw [fields,now]
    exact ⟨by decide,by decide⟩
  | some k =>
    rw [fields,now]
    cases k with
    | block => exact ⟨by decide +kernel,by decide +kernel⟩
    | _ => exact ⟨by decide,by decide⟩

theorem indicesInside {f : Field} (wide : 0 < f.2) (n : Nat) : (∀ i ∈ Field.indices f, i < n) ↔ f.1 + f.2 ≤ n := by
  constructor
  · intro inside
    have last := inside (f.1 + (f.2 - 1)) (List.mem_map.mpr ⟨f.2 - 1,List.mem_range.mpr (by omega),rfl⟩)
    omega
  · intro ends i inside
    obtain ⟨j,small,rfl⟩ := List.mem_map.mp inside
    have few := List.mem_range.mp small
    omega

/-- Everything read is inside as soon as all fields are, or a field that is inside does not
convert. -/
theorem readInside {line : Line} {fs : List Field} (ordered : Ordered fs) (n : Nat) :
    (∀ i ∈ readFields line fs, i < n) ↔
      (∀ f ∈ fs, f.1 + f.2 ≤ n) ∨ ∃ f ∈ fs, f.1 + f.2 ≤ n ∧ converts line f = false := by
  induction fs with
  | nil => simp [readFields]
  | cons f rest ih =>
    have wide := ordered.wide f List.mem_cons_self
    obtain ⟨first,later⟩ := List.pairwise_cons.mp ordered.behind
    have tail := ih ⟨later,fun f inside => ordered.wide f (List.mem_cons_of_mem _ inside)⟩
    have near {f' : Field} (inside : f' ∈ f :: rest) (ends : f'.1 + f'.2 ≤ n) : f.1 + f.2 ≤ n := by
      rcases List.mem_cons.mp inside with rfl | inside
      · exact ends
      · have := first f' inside
        omega
    rw [readFields]
    cases now : converts line f with
    | true =>
      rw [if_pos rfl,List.forall_mem_append,indicesInside wide,tail]
      constructor
      · rintro ⟨ends,all | ⟨f',inside,ends',failed⟩⟩
        · exact .inl (List.forall_mem_cons.mpr ⟨ends,all⟩)
        · exact .inr ⟨f',List.mem_cons_of_mem _ inside,ends',failed⟩
      · rintro (all | ⟨f',inside,ends,failed⟩)
        · obtain ⟨ends,all⟩ := List.forall_mem_cons.mp all
          exact ⟨ends,.inl all⟩
        · refine ⟨near inside ends,.inr ⟨f',?_,ends,failed⟩⟩
          refine (List.mem_cons.mp inside).resolve_left (fun same => ?_)
          rw [same,now] at failed
          contradiction
    | false =>
      rw [if_neg Bool.false_ne_true,List.append_nil,indicesInside wide]
      constructor
      · exact fun ends => .inr ⟨f,List.mem_cons_self,ends,now⟩
      · rintro (all | ⟨f',inside,ends,_⟩)
        · exact all f List.mem_cons_self
        · exact near inside ends

theorem fieldsInside (g : Globals) (line : Line) (n : Nat) :
    (∀ f ∈ fields g line, f.1 + f.2 ≤ n) ↔ recordLength g line ≤ n := by
  unfold fields recordLength
  cases due g line with
  | none =>
    simp
    omega
  | some k =>
    cases k with
    | block =>
      have size : Kind.block.size.toNat = 64 := rfl
      simp only [payloadFields,size,List.forall_mem_append,List.forall_mem_cons,List.forall_mem_map,List.mem_range,BLOCK_SIZE]
      constructor
      · intro all
        exact all.2.2.1
      · intro long
        exact ⟨⟨by omega,by omega,by omega,by simp⟩,fun i inside => by omega,by omega,by simp⟩
    | extended | word =>
      have size : (0x02 : UInt8).toNat = 2 := rfl
      simp [payloadFields,Kind.size,size]
      omega
    | endOfFile =>
      have size : (0x00 : UInt8).toNat = 0 := rfl
      simp [payloadFields,Kind.size,size]
      omega

/-- The parser stays inside a line exactly when the line is not empty and, if it begins
as a record, it has the length of its record or a field inside it that is no number. -/
theorem insideIff (g : Globals) (line : Line) : (hexDataTraced g line).value = hexDataProcess g line ∧
    ((∀ i ∈ (hexDataTraced g line).reads, i < line.bytes.length) ↔
      0 < line.bytes.length ∧ (line.get 0 = Ascii.colon → recordLength g line ≤ line.bytes.length ∨
        ∃ f ∈ fields g line, f.1 + f.2 ≤ line.bytes.length ∧ converts line f = false)) := by
  refine ⟨hexDataValue g line,?_⟩
  rw [hexDataReads,List.forall_mem_cons,← fieldsInside,← readInside (fieldsOrdered g line)]
  split
  · simp_all
  · simp_all

/-- A line of one digit: five bytes behind it are read. -/
theorem shortLineOverread : ¬ ∀ g line, ∀ i ∈ (hexDataTraced g line).reads, i < line.bytes.length := by
  intro claim
  have four := claim noGlobals ⟨[Ascii.colon,0x34,Ascii.newline],fun _ => 0⟩ 6 (by rw [hexDataReads]; decide +kernel)
  exact absurd four (by decide)

end HsspProgrammer.LineBounds
