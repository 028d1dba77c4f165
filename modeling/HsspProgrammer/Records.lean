import HsspProgrammer.Loader

/-! The records the loader reads, each on its own: a line has a kind when its fields
convert and its checksum is right, and the loader's state decides only whether a
record of that kind may come now. `advance` is that decision. -/
namespace HsspProgrammer.Records
open Ascii (Bytes)
open Loader

inductive Kind where
  | block
  | extended
  | word
  | endOfFile
  deriving DecidableEq, Repr

def Kind.size : Kind → UInt8
  | .block => 64
  | .extended => 0x02
  | .word => 0x02
  | .endOfFile => 0x00

def Kind.type : Kind → UInt8
  | .block => 0x00
  | .extended => 0x04
  | .word => 0x00
  | .endOfFile => 0x01

def kindOf (dataSize dataType : UInt8) : Option Kind :=
  [Kind.block,.extended,.word,.endOfFile].find? (fun k => k.size == dataSize && k.type == dataType)

theorem kindOfSome {dataSize dataType k} (h : kindOf dataSize dataType = some k) :
    dataSize = k.size ∧ dataType = k.type := by
  have found := List.find?_some h
  simp only [Bool.and_eq_true,beq_iff_eq] at found
  exact ⟨found.1.symm,found.2.symm⟩

theorem kindOfKind (k : Kind) : kindOf k.size k.type = some k := by
  cases k <;> rfl

theorem kindOfNone {dataSize dataType} (h : kindOf dataSize dataType = none) (k : Kind) :
    ¬ (dataSize = k.size ∧ dataType = k.type) := by
  rintro ⟨rfl,rfl⟩
  rw [kindOfKind] at h
  contradiction

def byteAt (line : Line) (i : Nat) : UInt8 := (dataByte line i).getD 0

def blockOf (line : Line) : Block := Vector.ofFn (fun i => byteAt line i)

def wordOf (line : Line) : UInt16 := UInt16.ofInt ((toInt (line.slice 9 4)).getD 0)

/- The checksum after the data field, if the field converts. -/
def payload (line : Line) (checksum : UInt8) : Kind → Option UInt8
  | .block =>
    if ∀ i < BLOCK_SIZE, (dataByte line i).isSome then
      some ((List.range BLOCK_SIZE).foldl (fun sum i => sum + byteAt line i) checksum)
    else none
  | .extended | .word =>
    if (toInt (line.slice 9 4)).isSome then some (addWord checksum (wordOf line)) else none
  | .endOfFile => some checksum

def recordKind (line : Line) : Option Kind :=
  if line.get 0 ≠ Ascii.colon then none
  else do
    let size ← toInt (line.slice 1 2)
    let address ← toInt (line.slice 3 4)
    let type ← toInt (line.slice 7 2)
    let k ← kindOf (UInt8.ofInt size) (UInt8.ofInt type)
    let checksum ← payload line (addWord (k.size + k.type) (UInt16.ofInt address)) k
    if checksumMatches line k.size checksum then some k else none

structure Progress where
  blocks : Nat
  security : Bool
  checksum : Bool
  deriving DecidableEq, Repr

def progress (g : Globals) : Progress :=
  ⟨g.blockCounter.toNat,g.fSecurityAddrAcquired,g.fChecksumAddrAcquired⟩

def advance (p : Progress) : Kind → Option Progress
  | .block =>
    if p.blocks < NUM_BLOCKS ∧ p.security = false ∧ p.checksum = false then
      some {p with blocks := p.blocks + 1}
    else if p.blocks = NUM_BLOCKS ∧ p.security = true ∧ p.checksum = false then some p
    else none
  | .extended =>
    if p.blocks = NUM_BLOCKS ∧ p.security = false ∧ p.checksum = false then
      some {p with security := true}
    else if p.blocks = NUM_BLOCKS ∧ p.security = true ∧ p.checksum = false then
      some {p with checksum := true}
    else none
  | .word | .endOfFile =>
    if p.blocks = NUM_BLOCKS ∧ p.security = true ∧ p.checksum = true then some p else none

/- Where an accepted record's data goes. -/
def placed (g : Globals) (line : Line) : Kind → Globals
  | .block =>
    if g.fSecurityAddrAcquired then {g with securityData := blockOf line}
    else
      { g with
        programData := g.programData.setIfInBounds g.blockCounter.toNat (blockOf line)
        blockCounter := g.blockCounter + 1 }
  | .extended =>
    if g.fSecurityAddrAcquired then {g with checksumAddr := wordOf line, fChecksumAddrAcquired := true}
    else {g with securityAddr := wordOf line, fSecurityAddrAcquired := true}
  | .word => {g with programChecksum := wordOf line}
  | .endOfFile => g

theorem storeBytesSome (line : Line) (indices : List Nat) (row : Block) (checksum : UInt8)
    (all : ∀ i ∈ indices, (dataByte line i).isSome) :
    storeBytes line indices row checksum =
      (some (indices.foldl (fun sum i => sum + byteAt line i) checksum),
       indices.foldl (fun row i => row.setIfInBounds i (byteAt line i)) row) := by
  induction indices generalizing row checksum with
  | nil => rfl
  | cons i rest ih =>
    obtain ⟨v,hv⟩ := Option.isSome_iff_exists.mp (all i List.mem_cons_self)
    have same : byteAt line i = v := by rw [byteAt,hv]; rfl
    simp only [storeBytes,hv,List.foldl_cons,same]
    exact ih _ _ (fun j hj => all j (List.mem_cons_of_mem _ hj))

theorem storeBytesNone (line : Line) (indices : List Nat) (row : Block) (checksum : UInt8)
    (bad : ¬ ∀ i ∈ indices, (dataByte line i).isSome) :
    (storeBytes line indices row checksum).1 = none := by
  induction indices generalizing row checksum with
  | nil => simp at bad
  | cons i rest ih =>
    cases hv : dataByte line i with
    | none => simp only [storeBytes,hv]
    | some v =>
      simp only [storeBytes,hv]
      refine ih _ _ (fun all => bad ?_)
      intro j hj
      rcases List.mem_cons.mp hj with rfl | hj
      · rw [hv]; rfl
      · exact all j hj

theorem setAllAt (line : Line) (indices : List Nat) (row : Block) (j : Nat) (hj : j < BLOCK_SIZE) :
    (indices.foldl (fun row i => row.setIfInBounds i (byteAt line i)) row)[j] =
      if j ∈ indices then byteAt line j else row[j] := by
  induction indices generalizing row with
  | nil => simp
  | cons i rest ih =>
    simp only [List.foldl_cons,ih,List.mem_cons,Vector.getElem_setIfInBounds]
    by_cases later : j ∈ rest
    · simp [later]
    · by_cases now : i = j
      · subst now; simp [later]
      · simp [later,now,Ne.symm now]

/-- A block whose bytes all convert is stored whole. -/
theorem storeBytesBlock (line : Line) (row : Block) (checksum : UInt8)
    (all : ∀ i < BLOCK_SIZE, (dataByte line i).isSome) :
    storeBytes line (List.range BLOCK_SIZE) row checksum =
      (some ((List.range BLOCK_SIZE).foldl (fun sum i => sum + byteAt line i) checksum),blockOf line) := by
  have rows : (List.range BLOCK_SIZE).foldl (fun row i => row.setIfInBounds i (byteAt line i)) row =
      blockOf line := by
    apply Vector.ext
    intro j hj
    rw [setAllAt,if_pos (List.mem_range.mpr hj)]
    simp only [blockOf,Vector.getElem_ofFn]
  rw [storeBytesSome line _ row checksum (fun i hi => all i (List.mem_range.mp hi)),rows]

theorem storeBytesPayload (line : Line) (row : Block) (checksum : UInt8) :
    (storeBytes line (List.range BLOCK_SIZE) row checksum).1 = payload line checksum .block := by
  by_cases all : ∀ i < BLOCK_SIZE, (dataByte line i).isSome
  · rw [storeBytesBlock line row checksum all,payload,if_pos all]
  · rw [payload,if_neg all]
    exact storeBytesNone line _ row checksum (fun h => all (fun i hi => h i (List.mem_range.mpr hi)))

theorem storeWordPayload (line : Line) (checksum : UInt8) {k : Kind} (word : k = .extended ∨ k = .word) :
    (storeWord line checksum).1 = payload line checksum k := by
  rcases word with rfl | rfl <;>
  · unfold storeWord payload wordOf
    cases toInt (line.slice 9 4) <;> rfl

theorem blockStored (line : Line) (row : Block) (checksum sum : UInt8)
    (converted : payload line checksum .block = some sum) :
    storeBytes line (List.range BLOCK_SIZE) row checksum = (some sum,blockOf line) := by
  simp only [payload] at converted
  split at converted
  · rename_i all
    cases Option.some.inj converted
    exact storeBytesBlock line row checksum all
  · contradiction

theorem wordStored (line : Line) (checksum sum : UInt8) {k : Kind} (word : k = .extended ∨ k = .word)
    (converted : payload line checksum k = some sum) : storeWord line checksum = (some sum,wordOf line) := by
  rcases word with rfl | rfl <;>
  · unfold payload wordOf at converted
    unfold storeWord wordOf
    cases h : toInt (line.slice 9 4) with
    | none => simp [h] at converted
    | some value => simpa [h] using converted

/-- The branches look at the state exactly as `advance` does. -/
theorem storeChecksum (g : Globals) (line : Line) (checksum : UInt8) (k : Kind) :
    (store g line k.size k.type checksum).1 =
      (advance (progress g) k).bind (fun _ => payload line checksum k) := by
  obtain ⟨programData,securityData,blockCounter,security,_,addressed,_,_⟩ := g
  cases k with
  | block =>
    simp only [store,advance,progress,Kind.size,Kind.type]
    by_cases early : blockCounter.toNat < NUM_BLOCKS
    · have program := storeBytesPayload line (programData.get ⟨blockCounter.toNat,early⟩) checksum
      cases security <;> cases addressed <;> simp [early,Nat.ne_of_lt early]
      rw [← program]
      split <;> simp_all
    · cases security <;> cases addressed <;> by_cases full : blockCounter.toNat = NUM_BLOCKS <;>
        simp [full,early,storeBytesPayload]
  | extended =>
    rw [← storeWordPayload line checksum (.inl rfl)]
    simp only [store,advance,progress,Kind.size,Kind.type]
    cases security <;> cases addressed <;> by_cases full : blockCounter.toNat = NUM_BLOCKS <;> simp [full]
  | word =>
    rw [← storeWordPayload line checksum (.inr rfl)]
    simp only [store,advance,progress,Kind.size,Kind.type]
    cases security <;> cases addressed <;> by_cases full : blockCounter.toNat = NUM_BLOCKS <;> simp [full]
  | endOfFile =>
    simp only [store,advance,progress,Kind.size,Kind.type,payload]
    cases security <;> cases addressed <;> by_cases full : blockCounter.toNat = NUM_BLOCKS <;> simp [full]

/-- An accepted record is placed whole. -/
theorem storePlaced (g : Globals) (line : Line) (checksum sum : UInt8) (k : Kind)
    (stored : (store g line k.size k.type checksum).1 = some sum) :
    (store g line k.size k.type checksum).2 = placed g line k := by
  have may := stored
  rw [storeChecksum,Option.bind_eq_some_iff] at may
  obtain ⟨p,now,converted⟩ := may
  obtain ⟨programData,securityData,blockCounter,security,_,addressed,_,_⟩ := g
  cases k with
  | block =>
    have row := fun row => blockStored line row checksum sum converted
    simp only [advance,progress] at now
    simp only [store,Kind.size,Kind.type,placed]
    by_cases early : blockCounter.toNat < NUM_BLOCKS
    · cases security <;> cases addressed <;> simp [early,Nat.ne_of_lt early] at now
      simp only [early,row,and_self,dite_true,Bool.false_eq_true,if_false]
      congr 1
      apply Vector.ext
      intro i _
      rw [Vector.getElem_set,Vector.getElem_setIfInBounds]
    · cases security <;> cases addressed <;> by_cases full : blockCounter.toNat = NUM_BLOCKS <;>
        simp [full,early,row] at now ⊢
  | extended =>
    have value := wordStored line checksum sum (.inl rfl) converted
    simp only [advance,progress] at now
    simp only [store,Kind.size,Kind.type,placed]
    cases security <;> cases addressed <;> by_cases full : blockCounter.toNat = NUM_BLOCKS <;>
      simp [full,value] at now ⊢
  | word =>
    have value := wordStored line checksum sum (.inr rfl) converted
    simp only [advance,progress] at now
    simp only [store,Kind.size,Kind.type,placed]
    cases security <;> cases addressed <;> by_cases full : blockCounter.toNat = NUM_BLOCKS <;>
      simp [full,value] at now ⊢
  | endOfFile =>
    simp only [advance,progress] at now
    simp only [store,Kind.size,Kind.type,placed]
    cases security <;> cases addressed <;> by_cases full : blockCounter.toNat = NUM_BLOCKS <;>
      simp [full] at now ⊢

theorem placedProgress (g : Globals) (line : Line) (k : Kind) (p : Progress)
    (now : advance (progress g) k = some p) : progress (placed g line k) = p := by
  obtain ⟨programData,securityData,blockCounter,security,_,addressed,_,_⟩ := g
  cases k with
  | block =>
    simp only [advance,progress,placed] at *
    by_cases early : blockCounter.toNat < NUM_BLOCKS
    · have room : (blockCounter.toNat + 1) % 256 = blockCounter.toNat + 1 := by
        simp only [NUM_BLOCKS] at early
        omega
      cases security <;> cases addressed <;> simp [early,Nat.ne_of_lt early] at now ⊢
      rw [← now,room]
    · cases security <;> cases addressed <;> by_cases full : blockCounter.toNat = NUM_BLOCKS <;>
        simp [full,early] at now ⊢
      exact now
  | _ =>
    simp only [advance,progress,placed] at *
    cases security <;> cases addressed <;> by_cases full : blockCounter.toNat = NUM_BLOCKS <;>
      simp [full] at now ⊢ <;> exact now

theorem storeUnknown (g : Globals) (line : Line) (dataSize dataType checksum : UInt8)
    (unknown : kindOf dataSize dataType = none) : (store g line dataSize dataType checksum).1 = none := by
  have no := kindOfNone unknown
  unfold store
  rw [dif_neg (fun h => no .block ⟨h.1,h.2.1⟩),if_neg (fun h => no .block ⟨h.1,h.2.1⟩),
    if_neg (fun h => no .extended ⟨h.1,h.2.1⟩),if_neg (fun h => no .extended ⟨h.1,h.2.1⟩),
    if_neg (fun h => no .word ⟨h.1,h.2.1⟩),if_neg (fun h => no .endOfFile ⟨h.1,h.2.1⟩)]

/-- A line is accepted exactly when it is a record that may come now. -/
theorem processedAccepts (g : Globals) (line : Line) :
    (hexDataProcess g line).1 = ((recordKind line).bind (advance (progress g))).isSome := by
  unfold hexDataProcess recordKind
  by_cases start : line.get 0 = Ascii.colon
  · simp only [start,ne_eq,not_true,if_false,bind]
    cases size : toInt (line.slice 1 2) with
    | none => rfl
    | some s => cases address : toInt (line.slice 3 4) with
      | none => rfl
      | some a => cases type : toInt (line.slice 7 2) with
        | none => rfl
        | some t =>
          simp only [Option.bind_some]
          cases kind : kindOf (UInt8.ofInt s) (UInt8.ofInt t) with
          | none => rw [storeUnknown _ _ _ _ _ kind]; rfl
          | some k =>
            obtain ⟨hs,ht⟩ := kindOfSome kind
            rw [hs,ht,storeChecksum]
            simp only [Option.bind_some]
            cases payload line (addWord (k.size + k.type) (UInt16.ofInt a)) k with
            | none => simp
            | some sum =>
              cases now : advance (progress g) k <;> cases same : checksumMatches line k.size sum <;>
                simp [now,same]
  · simp [start]

theorem acceptedKind {g : Globals} {line : Line} :
    (hexDataProcess g line).1 = true ↔ ∃ k, recordKind line = some k ∧ (advance (progress g) k).isSome := by
  rw [processedAccepts]
  cases recordKind line <;> simp

theorem processedPlaces {g : Globals} {line : Line} {k : Kind} (kind : recordKind line = some k)
    (accepted : (hexDataProcess g line).1 = true) : (hexDataProcess g line).2 = placed g line k := by
  unfold recordKind at kind
  unfold hexDataProcess at accepted ⊢
  by_cases start : line.get 0 = Ascii.colon
  · simp only [start,ne_eq,not_true,if_false,bind,Option.bind_eq_some_iff] at kind
    obtain ⟨s,size,a,address,t,type,k',known,sum,converted,last⟩ := kind
    split at last <;> try contradiction
    cases Option.some.inj last
    obtain ⟨hs,ht⟩ := kindOfSome known
    simp only [start,size,address,type,hs,ht,ne_eq,not_true,if_false] at accepted ⊢
    cases stored : (store g line k.size k.type (addWord (k.size + k.type) (UInt16.ofInt a))).1 with
    | none => rw [stored] at accepted; contradiction
    | some checksum => exact storePlaced g line _ checksum k stored
  · simp [start] at kind

end HsspProgrammer.Records
