import HsspProgrammer.MainWindow

/-! What the main window sends, labelled with the array index it is read at, and the
order of the program blocks on the link for arbitrary messages. -/
namespace HsspProgrammer.BlockOrder
open Ascii (Bytes)
open Loader MainWindow

inductive Sent where
  | command (cmdID : UInt8)
  | program (index : Nat)
  | security
  deriving DecidableEq, Repr

/- `none` is a read outside the array. -/
def Sent.bytes (g : Globals) : Sent → Option Bytes
  | .command cmdID => some (MainWindow.command cmdID)
  | .program index => g.programData[index]?.map (·.toList)
  | .security => some g.securityData.toList

/- The `write` calls of `serialData`, with the value of `blockCntr` at each index. -/
def sentBy (w : Window) (ba : Bytes) : List Sent :=
  let cmdID := ba.getD 0 0
  let cmdTrm := ba.getD 1 0
  let argID := ba.getD 2 0
  let argTrm := ba.getD 3 0
  let good := argID = Ascii.zero ∧ argTrm = Ascii.newline
  let next := argID = Ascii.plus ∧ argTrm = Ascii.newline ∧ w.blockCntr.toNat < NUM_BLOCKS
  if cmdID < Ascii.a ∨ cmdID > Ascii.z ∨ cmdTrm ≠ Ascii.newline then []
  else if cmdID = Ascii.a then if good then [.command Ascii.b] else []
  else if cmdID = Ascii.b then if good then [.command Ascii.c,.program 0x00] else []
  else if cmdID = Ascii.c then
    if next then [.program w.blockCntr.toNat] else if good then [.command Ascii.d,.program 0x00] else []
  else if cmdID = Ascii.d then
    if next then [.program w.blockCntr.toNat] else if good then [.command Ascii.e,.security] else []
  else if cmdID = Ascii.e then if good then [.command Ascii.f,.security] else []
  else if cmdID = Ascii.f then if good then [.command Ascii.g] else []
  else if cmdID = Ascii.g then if good then [.command Ascii.x] else []
  else []

/- The commands that program blocks follow. -/
def blockCommands : List UInt8 := [Ascii.c,Ascii.d]

/- All that a reply can make the window do. -/
inductive Handled (w : Window) : Reaction → List Sent → Prop where
  | quiet (reports) : Handled w ⟨w,reports,[]⟩ []
  | command (reports) {cmdID} (other : cmdID ∉ blockCommands) :
      Handled w ⟨w,reports,[command cmdID]⟩ [.command cmdID]
  | first (reports) {cmdID} (start : cmdID ∈ blockCommands) :
      Handled w (firstBlock w reports cmdID) [.command cmdID,.program 0]
  | next (reports) (inside : w.blockCntr.toNat < NUM_BLOCKS) :
      Handled w ⟨{w with blockCntr := w.blockCntr + 1},reports,[programBlock w w.blockCntr.toNat inside]⟩
        [.program w.blockCntr.toNat]
  | security (reports) {cmdID} (other : cmdID ∉ blockCommands) :
      Handled w ⟨w,reports,[command cmdID,securityBlock w]⟩ [.command cmdID,.security]

theorem handledAnswer {w : Window} {argID argTrm : UInt8} {good bad : Reaction} {sent : List Sent}
    (accepts : Handled w good sent) (refuses : Handled w bad []) :
    Handled w (answered argID argTrm good bad) (if argID = Ascii.zero ∧ argTrm = Ascii.newline then sent else []) := by
  unfold answered
  split
  · exact accepts
  · exact refuses

theorem handledBlock {w : Window} {argID argTrm : UInt8} {last : Reaction} {sent : List Sent}
    (ends : Handled w last sent) :
    Handled w (blockReply w argID argTrm last)
      (if argID = Ascii.plus ∧ argTrm = Ascii.newline ∧ w.blockCntr.toNat < NUM_BLOCKS then
        [.program w.blockCntr.toNat]
      else if argID = Ascii.zero ∧ argTrm = Ascii.newline then sent else []) := by
  unfold blockReply
  split
  · exact .next _ _
  · split
    · exact ends
    · exact .quiet _

/- The same question is asked about the reply and about what is sent. -/
theorem handledIf {w : Window} {p : Prop} [Decidable p] {yes no : Reaction} {sent other : List Sent}
    (holds : Handled w yes sent) (fails : Handled w no other) :
    Handled w (if p then yes else no) (if p then sent else other) := by
  split
  · exact holds
  · exact fails

theorem handled (w : Window) (ba : Bytes) : Handled w (serialData w ba) (sentBy w ba) := by
  unfold serialData sentBy
  dsimp only
  refine handledIf (.quiet _) ?_
  refine handledIf (handledAnswer (.command _ (by decide)) (.quiet _)) ?_
  refine handledIf (handledAnswer (.first _ (by decide)) (.quiet _)) ?_
  refine handledIf (handledBlock (.first _ (by decide))) ?_
  refine handledIf (handledBlock (.security _ (by decide))) ?_
  refine handledIf (handledAnswer (.security _ (by decide)) (.quiet _)) ?_
  refine handledIf (handledAnswer (.command _ (by decide)) (.quiet _)) ?_
  refine handledIf (handledAnswer (.command _ (by decide)) (.quiet _)) ?_
  split
  · rw [← ite_self (c := ba.getD 2 0 = Ascii.zero ∧ ba.getD 3 0 = Ascii.newline) ([] : List Sent)]
    exact handledAnswer (.quiet _) (.quiet _)
  · exact .quiet _

inductive Input where
  | message (ba : Bytes) (whole : 4 ≤ ba.length)
  | flash

/- The window with everything it has written, as bytes and with the labels. -/
structure Host where
  window : Window
  writes : List Bytes
  sent : List Sent

def Host.step (h : Host) : Input → Host
  | .message ba _ =>
    let r := serialData h.window ba
    ⟨r.window,h.writes ++ r.writes,h.sent ++ sentBy h.window ba⟩
  | .flash =>
    let r := targetFlash h.window
    ⟨r.window,h.writes ++ r.writes,h.sent ++ [.command Ascii.a]⟩

def Host.run (h : Host) (inputs : List Input) : Host := inputs.foldl Host.step h

/- The window when the program starts: `static unsigned char blockCntr = 0x00`. -/
def opened (g : Globals) (connected loaded : Bool) : Host := ⟨⟨g,0x00,connected,loaded⟩,[],[]⟩

/- The indices of the program blocks after the last 'c' or 'd', once there is one. -/
def Sent.note (blocks : Option (List Nat)) : Sent → Option (List Nat)
  | .command cmdID => if cmdID ∈ blockCommands then some [] else blocks
  | .program index => blocks.map (· ++ [index])
  | .security => blocks

def blocksSince (sent : List Sent) : Option (List Nat) := sent.foldl Sent.note none

structure Ordered (g : Globals) (h : Host) : Prop where
  globals : h.window.globals = g
  counter : h.window.blockCntr.toNat ≤ NUM_BLOCKS
  bytes : h.sent.map (Sent.bytes g) = h.writes.map some
  inside : ∀ index, Sent.program index ∈ h.sent → index < NUM_BLOCKS
  since : ∀ blocks, blocksSince h.sent = some blocks →
    0 < h.window.blockCntr.toNat ∧ blocks = List.range h.window.blockCntr.toNat

section Handled
variable {w : Window} {r : Reaction} {sent : List Sent}

theorem handledGlobals (did : Handled w r sent) : r.window.globals = w.globals := by
  cases did <;> rfl

theorem programBytes (w : Window) (k : Nat) (inside : k < NUM_BLOCKS) :
    Sent.bytes w.globals (.program k) = some (programBlock w k inside) := by
  simp [Sent.bytes,programBlock,inside,Vector.get]

/-- The labels say what is written. -/
theorem handledBytes (did : Handled w r sent) : sent.map (Sent.bytes w.globals) = r.writes.map some := by
  cases did with
  | quiet | command | security => rfl
  | first reports start =>
    have row := programBytes w 0 (by decide)
    simp only [List.map_cons,List.map_nil,row,firstBlock]
    rfl
  | next reports inside => simp only [List.map_cons,List.map_nil,programBytes w _ inside]

theorem nextCounter (inside : w.blockCntr.toNat < NUM_BLOCKS) :
    (w.blockCntr + 1).toNat = w.blockCntr.toNat + 1 := by
  have one : (1 : UInt8).toNat = 1 := rfl
  rw [UInt8.toNat_add,one]
  simp only [NUM_BLOCKS] at inside
  omega

/-- The counter is one more than the index read last, and moves with a read only. -/
theorem handledCounter (did : Handled w r sent) :
    (∀ index, Sent.program index ∈ sent → index < NUM_BLOCKS ∧ r.window.blockCntr.toNat = index + 1) ∧
    ((∀ index, Sent.program index ∉ sent) → r.window.blockCntr = w.blockCntr) := by
  cases did with
  | quiet | command | security => simp
  | first reports start => simp [firstBlock,NUM_BLOCKS]
  | next reports inside =>
    refine ⟨fun index read => ?_,fun unread => absurd (List.mem_singleton_self _) (unread _)⟩
    cases List.mem_singleton.mp read
    exact ⟨inside,nextCounter inside⟩

/-- A command of a block starts the count, another block continues it. -/
theorem handledSince (did : Handled w r sent) {blocks blocks' : Option (List Nat)}
    (before : ∀ l, blocks = some l → 0 < w.blockCntr.toNat ∧ l = List.range w.blockCntr.toNat)
    (noted : sent.foldl Sent.note blocks = blocks') :
    ∀ l, blocks' = some l → 0 < r.window.blockCntr.toNat ∧ l = List.range r.window.blockCntr.toNat := by
  cases did with
  | quiet => rwa [← noted]
  | command reports other => rwa [← noted,List.foldl_cons,List.foldl_nil,Sent.note,if_neg other]
  | security reports other => rwa [← noted,List.foldl_cons,List.foldl_cons,List.foldl_nil,Sent.note,Sent.note,if_neg other]
  | first reports start =>
    rw [← noted,List.foldl_cons,List.foldl_cons,List.foldl_nil,Sent.note,Sent.note,if_pos start]
    intro l only
    cases Option.some.inj only
    exact ⟨Nat.one_pos,rfl⟩
  | next reports inside =>
    rw [← noted,List.foldl_cons,List.foldl_nil,Sent.note]
    intro l grown
    obtain ⟨old,earlier,rfl⟩ := Option.map_eq_some_iff.mp grown
    obtain ⟨_,rfl⟩ := before old earlier
    rw [nextCounter inside,List.range_succ]
    exact ⟨by omega,rfl⟩

end Handled

section Run
variable {g : Globals}

/-- Whatever a reply says, the blocks stay in order. -/
theorem handledOrdered {h : Host} (ordered : Ordered g h) {r : Reaction} {sent : List Sent}
    (did : Handled h.window r sent) : Ordered g ⟨r.window,h.writes ++ r.writes,h.sent ++ sent⟩ := by
  obtain ⟨rfl,counter,bytes,inside,since⟩ := ordered
  obtain ⟨read,unread⟩ := handledCounter did
  refine ⟨handledGlobals did,?_,by simp [bytes,handledBytes did],?_,handledSince did since ?_⟩
  · by_cases some : ∃ index, Sent.program index ∈ sent
    · obtain ⟨index,now⟩ := some
      obtain ⟨room,next⟩ := read index now
      exact Nat.le_trans (Nat.le_of_eq next) room
    · rw [not_exists] at some
      exact (unread some) ▸ counter
  · intro index occurs
    rcases List.mem_append.mp occurs with old | now
    · exact inside index old
    · exact (read index now).1
  · exact (List.foldl_append ..).symm

theorem stepOrdered {h : Host} (ordered : Ordered g h) (input : Input) : Ordered g (h.step input) := by
  cases input with
  | message ba whole => exact handledOrdered ordered (handled h.window ba)
  | flash => exact handledOrdered ordered (.command [] (by decide))

theorem runOrdered {h : Host} (ordered : Ordered g h) (inputs : List Input) : Ordered g (h.run inputs) := by
  induction inputs generalizing h with
  | nil => exact ordered
  | cons input rest ih => exact ih (stepOrdered ordered input)

theorem openedOrdered (connected loaded : Bool) : Ordered g (opened g connected loaded) :=
  ⟨rfl,Nat.zero_le _,rfl,by simp [opened],by simp [opened,blocksSince]⟩

/-- Since the last 'c' or 'd' the blocks 0, 1, .. have been sent in order, at least one
and no more than there are, and the counter has been counting them without a wrap. -/
theorem blockOrder (g : Globals) (connected loaded : Bool) (inputs : List Input) :
    let h := (opened g connected loaded).run inputs
    h.sent.map (Sent.bytes g) = h.writes.map some ∧
    (∀ blocks, blocksSince h.sent = some blocks → ∃ m, 1 ≤ m ∧ m ≤ NUM_BLOCKS ∧ blocks = List.range m) ∧
    (∀ index, Sent.program index ∈ h.sent → index < NUM_BLOCKS) ∧
    h.window.blockCntr.toNat ≤ NUM_BLOCKS ∧
    ∀ ba, (∀ index, Sent.program index ∈ sentBy h.window ba →
        (serialData h.window ba).window.blockCntr.toNat = index + 1) ∧
      ((∀ index, Sent.program index ∉ sentBy h.window ba) →
        (serialData h.window ba).window.blockCntr = h.window.blockCntr) := by
  obtain ⟨_,counter,bytes,inside,since⟩ := runOrdered (openedOrdered (g := g) connected loaded) inputs
  refine ⟨bytes,fun blocks some => ?_,inside,counter,fun ba => ?_⟩
  · obtain ⟨positive,range⟩ := since blocks some
    exact ⟨_,positive,counter,range⟩
  · obtain ⟨read,unread⟩ := handledCounter (handled ((opened g connected loaded).run inputs).window ba)
    exact ⟨fun index now => (read index now).2,unread⟩

end Run
end HsspProgrammer.BlockOrder
