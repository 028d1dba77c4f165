import HsspProgrammer.Records

/-! Which files `load` accepts. The record kinds of an accepted file are a run of
`advance`; the end of the file is not compared with the state reached, so every
prefix of a run is accepted too, and records that keep the state may repeat. -/
namespace HsspProgrammer.CompleteFiles
open Loader Records

theorem processLinesAccepts (g : Globals) (lines : List Line) :
    (processLines g lines).1 =
      ((lines.mapM recordKind).bind (fun ks => ks.foldlM advance (progress g))).isSome := by
  induction lines generalizing g with
  | nil => rfl
  | cons line rest ih =>
    have now := processedAccepts g line
    simp only [processLines,List.mapM_cons]
    cases kind : recordKind line with
    | none => simp [now,kind]
    | some k =>
      rw [kind,Option.bind_some] at now
      cases next : advance (progress g) k with
      | none =>
        rw [next] at now
        cases rest.mapM recordKind <;> simp [now,next]
      | some p =>
        rw [next] at now
        have placed := processedPlaces kind now
        have moved := placedProgress g line k p next
        rw [now,placed,if_pos (by rfl),ih,moved]
        cases rest.mapM recordKind <;> simp [next]

theorem processLinesPlaces {g : Globals} {lines : List Line} {ks : List Kind}
    (kinds : lines.mapM recordKind = some ks) (accepted : (processLines g lines).1 = true) :
    (processLines g lines).2 = (lines.zip ks).foldl (fun g record => placed g record.1 record.2) g := by
  induction lines generalizing g ks with
  | nil => simp [processLines] at kinds ⊢
  | cons line rest ih =>
    simp only [List.mapM_cons,bind,Option.bind_eq_some_iff] at kinds
    obtain ⟨k,hk,tail,ht,last⟩ := kinds
    cases Option.some.inj last
    simp only [processLines] at accepted ⊢
    split at accepted
    · rename_i now
      rw [processedPlaces hk now] at accepted ⊢
      rw [if_pos now,ih ht accepted]
      rfl
    · contradiction

def completeKinds : List Kind :=
  List.replicate NUM_BLOCKS .block ++ [.extended,.block,.extended,.word,.endOfFile]

/- The other accepted sequences: cut off anywhere, the security record missing or
repeated, and after the second address record any number of checksum and
end-of-file records in any order. -/
inductive Incomplete : List Kind → Prop where
  | program (n : Nat) (few : n ≤ NUM_BLOCKS) : Incomplete (List.replicate n .block)
  | security (m : Nat) :
      Incomplete (List.replicate NUM_BLOCKS .block ++ .extended :: List.replicate m .block)
  | checksum (m : Nat) (tail : List Kind) (late : ∀ k ∈ tail, k = .word ∨ k = .endOfFile)
      (other : ¬ (m = 1 ∧ tail = [.word,.endOfFile])) :
      Incomplete (List.replicate NUM_BLOCKS .block ++
        .extended :: (List.replicate m .block ++ .extended :: tail))

theorem lateAccepted (ks : List Kind) :
    (ks.foldlM advance ⟨NUM_BLOCKS,true,true⟩).isSome ↔ ∀ k ∈ ks, k = .word ∨ k = .endOfFile := by
  induction ks with
  | nil => simp
  | cons k rest ih => cases k <;> simp [advance,ih]

theorem securityAccepted (ks : List Kind) :
    (ks.foldlM advance ⟨NUM_BLOCKS,true,false⟩).isSome ↔
      (∃ m, ks = List.replicate m .block) ∨
      ∃ m tail, (∀ k ∈ tail, k = .word ∨ k = .endOfFile) ∧
        ks = List.replicate m .block ++ .extended :: tail := by
  induction ks with
  | nil => simp
  | cons k rest ih =>
    cases k with
    | block =>
      have same : advance ⟨NUM_BLOCKS,true,false⟩ .block = some ⟨NUM_BLOCKS,true,false⟩ := by decide
      rw [List.foldlM_cons,same,Option.bind_eq_bind,Option.bind_some,ih]
      constructor
      · rintro (⟨m,rfl⟩ | ⟨m,tail,late,rfl⟩)
        · exact .inl ⟨m + 1,rfl⟩
        · exact .inr ⟨m + 1,tail,late,rfl⟩
      · rintro (⟨m,h⟩ | ⟨m,tail,late,h⟩)
        · cases m with
          | zero => simp at h
          | succ m => exact .inl ⟨m,(List.cons.inj h).2⟩
        · cases m with
          | zero => simp at h
          | succ m => exact .inr ⟨m,tail,late,(List.cons.inj h).2⟩
    | extended =>
      have next : advance ⟨NUM_BLOCKS,true,false⟩ .extended = some ⟨NUM_BLOCKS,true,true⟩ := by decide
      rw [List.foldlM_cons,next,Option.bind_eq_bind,Option.bind_some,lateAccepted]
      constructor
      · exact fun late => .inr ⟨0,rest,late,rfl⟩
      · rintro (⟨m,h⟩ | ⟨m,tail,late,h⟩)
        · cases m <;> simp [List.replicate_succ] at h
        · cases m with
          | zero => simp at h; subst h; exact late
          | succ m => simp [List.replicate_succ] at h
    | word =>
      simp only [List.foldlM_cons,advance]
      constructor
      · simp
      · rintro (⟨m,h⟩ | ⟨m,tail,late,h⟩) <;> cases m <;> simp [List.replicate_succ] at h
    | endOfFile =>
      simp only [List.foldlM_cons,advance]
      constructor
      · simp
      · rintro (⟨m,h⟩ | ⟨m,tail,late,h⟩) <;> cases m <;> simp [List.replicate_succ] at h

theorem programAccepted (ks : List Kind) (n room : Nat) (left : n + room = NUM_BLOCKS) :
    (ks.foldlM advance ⟨n,false,false⟩).isSome ↔
      (∃ j ≤ room, ks = List.replicate j .block) ∨
      ∃ tail, (tail.foldlM advance ⟨NUM_BLOCKS,true,false⟩).isSome ∧
        ks = List.replicate room .block ++ .extended :: tail := by
  induction ks generalizing n room with
  | nil => simp
  | cons k rest ih =>
    rw [List.foldlM_cons,Option.bind_eq_bind]
    cases room with
    | zero =>
      have full : n = NUM_BLOCKS := by omega
      subst full
      cases k with
      | extended =>
        simp only [advance,and_self,if_true,Option.bind_some]
        constructor
        · exact fun accepted => .inr ⟨rest,accepted,rfl⟩
        · rintro (⟨j,none,h⟩ | ⟨tail,accepted,h⟩)
          · cases Nat.le_zero.mp none
            simp at h
          · cases h
            exact accepted
      | _ => simp [advance,NUM_BLOCKS]
    | succ room =>
      have early : n < NUM_BLOCKS := by omega
      cases k with
      | block =>
        simp only [advance,early,and_self,if_true,Option.bind_some]
        rw [ih (n + 1) room (by omega)]
        constructor
        · rintro (⟨j,few,rfl⟩ | ⟨tail,accepted,rfl⟩)
          · exact .inl ⟨j + 1,by omega,rfl⟩
          · exact .inr ⟨tail,accepted,rfl⟩
        · rintro (⟨j,few,h⟩ | ⟨tail,accepted,h⟩)
          · cases j with
            | zero => simp at h
            | succ j => exact .inl ⟨j,by omega,(List.cons.inj h).2⟩
          · exact .inr ⟨tail,accepted,(List.cons.inj h).2⟩
      | _ =>
        have no : n ≠ NUM_BLOCKS := by omega
        simp only [advance,no,false_and,if_false,Option.bind_none,Option.isSome_none,
          Bool.false_eq_true,false_iff,not_or,not_exists,not_and]
        constructor
        · intro j _ h
          cases j <;> simp [List.replicate_succ] at h
        · intro tail _ h
          simp [List.replicate_succ] at h

/-- Everything the loader's state accepts. -/
theorem kindsAccepted (ks : List Kind) :
    (ks.foldlM advance ⟨0,false,false⟩).isSome ↔ ks = completeKinds ∨ Incomplete ks := by
  rw [programAccepted ks 0 NUM_BLOCKS rfl]
  constructor
  · rintro (⟨j,few,rfl⟩ | ⟨tail,accepted,rfl⟩)
    · exact .inr (.program j few)
    · rcases (securityAccepted tail).mp accepted with ⟨m,rfl⟩ | ⟨m,rest,late,rfl⟩
      · exact .inr (.security m)
      · by_cases exact : m = 1 ∧ rest = [.word,.endOfFile]
        · obtain ⟨rfl,rfl⟩ := exact
          exact .inl rfl
        · exact .inr (.checksum m rest late exact)
  · rintro (rfl | incomplete)
    · refine .inr ⟨_,(securityAccepted _).mpr (.inr ⟨1,[.word,.endOfFile],?_,rfl⟩),rfl⟩
      simp
    · cases incomplete with
      | program n few => exact .inl ⟨n,few,rfl⟩
      | security m => exact .inr ⟨_,(securityAccepted _).mpr (.inl ⟨m,rfl⟩),rfl⟩
      | checksum m tail late other =>
        exact .inr ⟨_,(securityAccepted _).mpr (.inr ⟨m,tail,late,rfl⟩),rfl⟩

theorem loadAccepts (g : Globals) (file : File) :
    (load g (some file)).1 = true ↔
      ∃ ks, file.lines.mapM recordKind = some ks ∧ (ks = completeKinds ∨ Incomplete ks) := by
  rw [load,processLinesAccepts]
  cases file.lines.mapM recordKind with
  | none => simp
  | some ks =>
    have start : progress { g with
        blockCounter := 0x00
        fSecurityAddrAcquired := false
        fChecksumAddrAcquired := false } = ⟨0,false,false⟩ := rfl
    rw [start,Option.bind_some,kindsAccepted]
    simp

def lineAt (lines : List Line) (i : Nat) : Line := lines.getD i ⟨[],fun _ => 0⟩

/-- What a complete file says, with nothing of the state before the load. -/
def written (lines : List Line) : Globals where
  programData := Vector.ofFn (fun k => blockOf (lineAt lines k))
  securityData := blockOf (lineAt lines (NUM_BLOCKS + 1))
  blockCounter := 128
  fSecurityAddrAcquired := true
  securityAddr := wordOf (lineAt lines NUM_BLOCKS)
  fChecksumAddrAcquired := true
  checksumAddr := wordOf (lineAt lines (NUM_BLOCKS + 2))
  programChecksum := wordOf (lineAt lines (NUM_BLOCKS + 3))

/- The state after records that all continue the program data. -/
def afterBlocks (g : Globals) (lines : List Line) : Globals :=
  lines.foldl (fun g line => placed g line .block) g

theorem afterBlocksCons (g : Globals) (line : Line) (rest : List Line)
    (early : g.fSecurityAddrAcquired = false) :
    afterBlocks g (line :: rest) = afterBlocks
      { g with
        programData := g.programData.setIfInBounds g.blockCounter.toNat (blockOf line)
        blockCounter := g.blockCounter + 1 } rest := by
  simp [afterBlocks,placed,early]

theorem afterBlocksRest (g : Globals) (lines : List Line) (early : g.fSecurityAddrAcquired = false) :
    afterBlocks g lines = { g with
      programData := (afterBlocks g lines).programData
      blockCounter := (afterBlocks g lines).blockCounter } := by
  induction lines generalizing g with
  | nil => rfl
  | cons line rest ih =>
    rw [afterBlocksCons g line rest early]
    exact ih _ early

/-- Program records fill the rows from the block counter on, in order of arrival. -/
theorem afterBlocksRows (g : Globals) (lines : List Line) (early : g.fSecurityAddrAcquired = false)
    (room : g.blockCounter.toNat + lines.length ≤ NUM_BLOCKS) :
    (afterBlocks g lines).blockCounter.toNat = g.blockCounter.toNat + lines.length ∧
    ∀ k (hk : k < NUM_BLOCKS), (afterBlocks g lines).programData[k] =
      if g.blockCounter.toNat ≤ k ∧ k < g.blockCounter.toNat + lines.length then
        blockOf (lineAt lines (k - g.blockCounter.toNat))
      else g.programData[k] := by
  induction lines generalizing g with
  | nil =>
    refine ⟨rfl,fun k hk => ?_⟩
    rw [if_neg (by simp)]
    rfl
  | cons line rest ih =>
    simp only [List.length_cons,NUM_BLOCKS] at room
    have next : (g.blockCounter + 1).toNat = g.blockCounter.toNat + 1 := by
      simp only [UInt8.toNat_add,UInt8.reduceToNat]
      omega
    rw [afterBlocksCons g line rest early]
    obtain ⟨counter,rows⟩ := ih
      { g with
        programData := g.programData.setIfInBounds g.blockCounter.toNat (blockOf line)
        blockCounter := g.blockCounter + 1 } early (by simp only [next,NUM_BLOCKS]; omega)
    simp only [next] at counter rows
    refine ⟨by rw [counter,List.length_cons]; omega,fun k hk => ?_⟩
    rw [rows k hk]
    by_cases first : k = g.blockCounter.toNat
    · subst first
      rw [if_neg (by omega),if_pos (by simp)]
      simp [lineAt]
    · by_cases later : g.blockCounter.toNat < k
      · have shift : k - g.blockCounter.toNat = k - (g.blockCounter.toNat + 1) + 1 := by omega
        have row : lineAt (line :: rest) (k - g.blockCounter.toNat) =
            lineAt rest (k - (g.blockCounter.toNat + 1)) := by rw [shift]; rfl
        rw [row,Vector.getElem_setIfInBounds_ne _ (Ne.symm first),List.length_cons]
        congr 1
        exact propext ⟨fun h => ⟨by omega,by omega⟩,fun h => ⟨by omega,by omega⟩⟩
      · rw [if_neg (by omega),if_neg (by omega),Vector.getElem_setIfInBounds_ne _ (Ne.symm first)]

theorem kindsLength {lines : List Line} {ks : List Kind} (kinds : lines.mapM recordKind = some ks) :
    ks.length = lines.length := by
  induction lines generalizing ks with
  | nil => simp at kinds; subst kinds; rfl
  | cons line rest ih =>
    simp only [List.mapM_cons,bind,Option.bind_eq_some_iff] at kinds
    obtain ⟨k,_,tail,ht,last⟩ := kinds
    cases Option.some.inj last
    simp [ih ht]

theorem splitLines {lines : List Line} (size : lines.length = NUM_BLOCKS + 5) :
    ∃ rows a b c d e, lines = rows ++ [a,b,c,d,e] ∧ rows.length = NUM_BLOCKS := by
  have few : (lines.drop NUM_BLOCKS).length = 5 := by simp [size]
  match tail : lines.drop NUM_BLOCKS, few with
  | [a,b,c,d,e], _ =>
    refine ⟨lines.take NUM_BLOCKS,a,b,c,d,e,?_,by simp [size]⟩
    rw [← tail,List.take_append_drop]

theorem blocksPlaced (g : Globals) (rows : List Line) :
    (rows.zip (List.replicate rows.length .block)).foldl
      (fun g record => placed g record.1 record.2) g = afterBlocks g rows := by
  induction rows generalizing g with
  | nil => rfl
  | cons line rest ih =>
    rw [List.length_cons,List.replicate_succ,List.zip_cons_cons,List.foldl_cons,ih]
    rfl

theorem lineAtRow {rows tail : List Line} {k : Nat} (inside : k < rows.length) :
    lineAt (rows ++ tail) k = lineAt rows k := by
  simp [lineAt,List.getD_eq_getElem?_getD,List.getElem?_append_left inside]

theorem lineAtTail (rows tail : List Line) (k : Nat) :
    lineAt (rows ++ tail) (rows.length + k) = lineAt tail k := by
  simp [lineAt,List.getD_eq_getElem?_getD,List.getElem?_append_right]

theorem afterComplete (g : Globals) (rows : List Line) (a b c d e : Line) (size : rows.length = NUM_BLOCKS)
    (fresh : progress g = ⟨0,false,false⟩) :
    ((rows ++ [a,b,c,d,e]).zip completeKinds).foldl (fun g record => placed g record.1 record.2) g =
      written (rows ++ [a,b,c,d,e]) := by
  simp only [progress,Progress.mk.injEq] at fresh
  obtain ⟨counter,security,checksum⟩ := fresh
  have rest := afterBlocksRest g rows security
  obtain ⟨full,filled⟩ := afterBlocksRows g rows security (by rw [counter,size]; decide)
  have last : (afterBlocks g rows).blockCounter = 128 := by
    apply UInt8.toNat.inj
    rw [full,counter,size]
    rfl
  have data : (afterBlocks g rows).programData =
      Vector.ofFn (fun k => blockOf (lineAt (rows ++ [a,b,c,d,e]) k)) := by
    apply Vector.ext
    intro k hk
    have inside : k < rows.length := by omega
    rw [filled k hk,if_pos ⟨by omega,by omega⟩,Vector.getElem_ofFn,counter,lineAtRow inside]
    rfl
  have tail := lineAtTail rows [a,b,c,d,e]
  rw [size] at tail
  have first := tail 0
  rw [Nat.add_zero] at first
  have zipped : (rows ++ [a,b,c,d,e]).zip completeKinds =
      rows.zip (List.replicate rows.length .block) ++
      [(a,.extended),(b,.block),(c,.extended),(d,.word),(e,.endOfFile)] := by
    rw [completeKinds,List.zip_append (by simp [size]),size]
    rfl
  rw [zipped,List.foldl_append,blocksPlaced,rest,last,data]
  simp only [List.foldl_cons,List.foldl_nil,placed,security,written,first,tail 1,tail 2,tail 3]
  rfl

theorem loadWritten (g : Globals) (file : File) (complete : file.lines.mapM recordKind = some completeKinds) :
    load g (some file) = (true,written file.lines) := by
  have accepted := (loadAccepts g file).mpr ⟨_,complete,.inl rfl⟩
  obtain ⟨rows,a,b,c,d,e,split,size⟩ := splitLines ((kindsLength complete).symm.trans rfl)
  apply Prod.ext accepted
  rw [load] at accepted ⊢
  rw [processLinesPlaces complete accepted,split]
  exact afterComplete _ rows a b c d e size rfl

theorem incompleteDiffers {ks : List Kind} (incomplete : Incomplete ks) : ks ≠ completeKinds := by
  intro same
  cases incomplete with
  | program n few =>
    have inside : Kind.word ∈ completeKinds := by simp [completeKinds]
    rw [← same] at inside
    cases List.eq_of_mem_replicate inside
  | security m =>
    have tail := List.append_cancel_left same
    have inside : Kind.word ∈ List.replicate m Kind.block := by
      rw [(List.cons.inj tail).2]; simp
    cases List.eq_of_mem_replicate inside
  | checksum m tail late other =>
    have rest := (List.cons.inj (List.append_cancel_left same)).2
    match m with
    | 0 => simp at rest
    | 1 => simp at rest; exact other ⟨rfl,rest⟩
    | m + 2 => simp [List.replicate_succ] at rest

/-- A load that succeeds has read a complete file and nothing else is left in the globals. -/
def LoadsComplete (file : Option File) : Prop :=
  ∀ g, (load g file).1 = true → ∃ f, file = some f ∧
    f.lines.mapM recordKind = some completeKinds ∧ (load g file).2 = written f.lines

def IncompleteFile (file : Option File) : Prop :=
  ∃ f ks, file = some f ∧ f.lines.mapM recordKind = some ks ∧ Incomplete ks

theorem loadsCompleteIff (file : Option File) : LoadsComplete file ↔ ¬ IncompleteFile file := by
  constructor
  · rintro complete ⟨f,ks,rfl,kinds,incomplete⟩
    obtain ⟨f',same,exact,_⟩ := complete noGlobals ((loadAccepts _ f).mpr ⟨ks,kinds,.inr incomplete⟩)
    cases Option.some.inj same
    exact incompleteDiffers incomplete (Option.some.inj (kinds.symm.trans exact))
  · intro fine g accepted
    cases file with
    | none => contradiction
    | some f =>
      obtain ⟨ks,kinds,rfl | incomplete⟩ := (loadAccepts g f).mp accepted
      · exact ⟨f,rfl,kinds,by rw [loadWritten g f kinds]⟩
      · exact absurd ⟨f,ks,rfl,kinds,incomplete⟩ fine

/- Nothing has to be in the file at all. -/
theorem emptyFileLoads : ¬ LoadsComplete (some ⟨[],fun _ _ => 0⟩) := by
  intro complete
  obtain ⟨f,same,kinds,_⟩ := complete noGlobals rfl
  cases Option.some.inj same
  exact incompleteDiffers (.program 0 (by decide)) (Option.some.inj kinds)

end HsspProgrammer.CompleteFiles
