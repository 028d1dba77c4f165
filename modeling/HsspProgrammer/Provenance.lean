import HsspProgrammer.Conversation

/-! Where things come from: what each step of the system logs, and which bytes and
answers a step can bring into the buffers. Nothing is assumed of the state. -/
namespace HsspProgrammer.Provenance
open Ascii (Bytes)
open MainWindow (Report)
open CommandLoop (Pc Firmware Outcome Target)
open Programmer Exchange Conversation

variable {τ : Type} {T : Target τ} {s t : Sys τ}

/- All that a step can log. -/
inductive Adds (T : Target τ) (s : Sys τ) : Action → List Event → Prop where
  | nothing (a) : Adds T s a []
  | clicked : Adds T s .flash [.click s.window.globals s.written.length]
  | command {b queue} (found : s.queue = b :: queue) : Adds T s .consume [.commandRead (s.part ++ [b])]
  | block {b queue use got} (found : s.queue = b :: queue) (pc : s.firmware.pc = .data use got) :
      Adds T s .consume [.blockRead (s.part ++ [b])]
  | performed {outcome} (ran : CommandLoop.execute T s.firmware = some outcome) :
      Adds T s .execute (outcome.ops.map .performed)
  | acted {ba signals} (reports : List Report) (found : s.signals = .message ba :: signals) :
      Adds T s .deliver (.acted ba :: reports.map .reported)

theorem blockConsumed {fw fw' : Firmware τ} {byte : UInt8} {use : CommandLoop.Use}
    (read : CommandLoop.consume fw byte = some fw') (pc : fw'.pc = .ready use) : ∃ use got, fw.pc = .data use got := by
  unfold CommandLoop.consume at read
  split at read
  · cases Option.some.inj read; contradiction
  · cases Option.some.inj read; contradiction
  · rename_i use got waits
    exact ⟨use,got,waits⟩
  · contradiction

theorem stepLog {a : Action} (ran : step T s a = some t) : ∃ events, t.log = s.log ++ events ∧ Adds T s a events := by
  have silent : t.log = s.log → ∃ events, t.log = s.log ++ events ∧ Adds T s a events :=
    fun same => ⟨[],by rw [same,List.append_nil],.nothing a⟩
  cases a with
  | flash =>
    simp only [step,flash,Option.ite_none_right_eq_some,Option.some.injEq] at ran
    obtain ⟨_,rfl⟩ := ran
    exact ⟨_,rfl,.clicked⟩
  | consume =>
    obtain ⟨b,queue,firmware,cause,events,found,read,⟨_,_,after⟩ | ⟨kind,after⟩⟩ := consumeCases ran
    · exact silent (by rw [after])
    · rcases kind with ⟨_,_,_,rfl,_⟩ | ⟨⟨use,pc⟩,rfl,_⟩
      · exact ⟨_,by rw [after],.command found⟩
      · obtain ⟨_,_,waits⟩ := blockConsumed read pc
        exact ⟨_,by rw [after],.block found waits⟩
  | execute =>
    obtain ⟨outcome,now,after⟩ := executeCases ran
    exact ⟨_,by rw [after],.performed now⟩
  | deliver =>
    simp only [step,deliver] at ran
    split at ran <;> try contradiction
    · rename_i ba signals idle found
      cases Option.some.inj ran
      exact ⟨_,rfl,.acted _ found⟩
    · cases Option.some.inj ran
      exact silent rfl
  | slotWrite | arrive =>
    simp only [step,slotWrite,arrive] at ran
    split at ran <;> try contradiction
    cases Option.some.inj ran
    exact silent rfl
  | _ =>
    simp only [step,fileOpen,transmit,burst,connect,disconnect,writeTimeout,lose,Option.ite_none_right_eq_some,
      Option.some.injEq] at ran
    obtain ⟨_,rfl⟩ := ran
    exact silent rfl

theorem addsSame {a : Action} {events events' : List Event} (log : t.log = s.log ++ events)
    (log' : t.log = s.log ++ events') (adds : Adds T s a events') : Adds T s a events := by
  rw [log] at log'
  cases List.append_cancel_left log'
  exact adds

def answersOf : Signal → List Answer
  | .message ba => ba
  | .timeout => []

/- The answers on their way to the window, whole or not. -/
def received (s : Sys τ) : List Answer := s.signals.flatMap answersOf ++ s.m_rxBuf ++ s.replies

theorem stampWrite {i : Nat} {data : Bytes} {b : Sent} (inside : b ∈ stamp i data) : b.write = i := by
  obtain ⟨j,_,rfl⟩ := List.mem_mapIdx.mp inside
  rfl

theorem stampAllWrite {i : Nat} {P : List Bytes} {b : Sent} (inside : b ∈ (stampAll i P).flatten) : i ≤ b.write := by
  induction P generalizing i with
  | nil => cases inside
  | cons bytes rest ih =>
    rw [stampAllCons] at inside
    rcases List.mem_append.mp inside with first | later
    · exact Nat.le_of_eq (stampWrite first).symm
    · exact Nat.le_of_succ_le (ih later)

theorem reactPipe {entry : Event} {r : MainWindow.Reaction} {b : Sent} (inside : b ∈ pipe (react s entry r)) :
    b ∈ pipe s ∨ s.written.length ≤ b.write := by
  cases online : s.online with
  | false => exact .inl (by simpa [pipe,react,online] using inside)
  | true =>
    simp only [pipe,react,online,if_true,List.mem_append] at inside
    rcases inside with old | buf | new
    · exact .inl (List.mem_append_left _ (by simpa only [List.mem_append] using old))
    · exact .inl (List.mem_append_right _ (by simp [online,buf]))
    · exact .inr (stampAllWrite new)

/-- A new byte in the pipe is one of a `write` call that this step makes. -/
theorem pipeStep {a : Action} (ran : step T s a = some t) : ∀ b ∈ pipe t, b ∈ pipe s ∨ s.written.length ≤ b.write := by
  intro b inside
  cases a with
  | flash =>
    simp only [step,flash,Option.ite_none_right_eq_some,Option.some.injEq] at ran
    obtain ⟨_,rfl⟩ := ran
    exact reactPipe inside
  | deliver =>
    simp only [step,deliver] at ran
    split at ran <;> try contradiction
    · rename_i ba signals idle found
      cases Option.some.inj ran
      exact reactPipe (s := {s with signals := signals}) inside
    · cases Option.some.inj ran
      exact .inl inside
  | slotWrite => exact .inl (slotWritePipe ran ▸ inside)
  | transmit n => exact .inl (transmitPipe ran ▸ inside)
  | arrive =>
    simp only [step,arrive] at ran
    split at ran <;> try contradiction
    rename_i b' port found
    cases Option.some.inj ran
    left
    simp only [pipe,found,List.mem_append,List.mem_cons] at inside ⊢
    split at inside
    · simp only [List.mem_append,List.mem_singleton] at inside
      tauto
    · tauto
  | consume =>
    obtain ⟨b',queue,firmware,cause,events,found,_,⟨_,_,rfl⟩ | ⟨_,rfl⟩⟩ := consumeCases ran
    · left
      simp only [pipe,found,List.mem_append,List.mem_cons] at inside ⊢
      tauto
    · left
      simp only [pipe,found,List.mem_append,List.mem_cons,List.not_mem_nil,false_or] at inside ⊢
      tauto
  | execute =>
    obtain ⟨outcome,_,rfl⟩ := executeCases ran
    exact .inl inside
  | connect =>
    simp only [step,connect,Option.ite_none_right_eq_some,Option.some.injEq] at ran
    obtain ⟨⟨idle,_⟩,rfl⟩ := ran
    left
    simp only [pipe,idle,if_true,List.flatten_nil,List.append_nil] at inside
    exact List.mem_append_left _ inside
  | disconnect kept =>
    simp only [step,disconnect,Option.ite_none_right_eq_some,Option.some.injEq] at ran
    obtain ⟨_,rfl⟩ := ran
    left
    simp only [pipe,Bool.false_eq_true,if_false,List.append_nil,List.mem_append] at inside ⊢
    exact .inl (inside.imp id List.mem_of_mem_take)
  | writeTimeout n kept =>
    simp only [step,writeTimeout,Option.ite_none_right_eq_some,Option.some.injEq] at ran
    obtain ⟨⟨online,_⟩,rfl⟩ := ran
    left
    simp only [pipe,online,if_true,Bool.false_eq_true,if_false,List.append_nil,List.mem_append] at inside ⊢
    rcases inside with old | cut
    · exact .inl (.inl old)
    · rcases List.mem_append.mp (List.mem_of_mem_take cut) with port | buf
      · exact .inl (.inr port)
      · exact .inr (.inl (List.mem_of_mem_take buf))
  | fileOpen choice | burst n | lose =>
    simp only [step,fileOpen,burst,lose,Option.ite_none_right_eq_some,Option.some.injEq] at ran
    obtain ⟨_,rfl⟩ := ran
    exact .inl inside

theorem emitLoopInside {α : Type} (msg l : List α) :
    (∀ ba ∈ (SerialThread.emitLoop msg l).1, ∀ x ∈ ba, x ∈ msg ++ l) ∧
    ∀ x ∈ (SerialThread.emitLoop msg l).2, x ∈ l := by
  induction msg, l using SerialThread.emitLoop.induct with
  | case1 msg b0 b1 b2 b3 rest grown ih =>
    rw [SerialThread.emitLoop]
    constructor
    · intro ba inside x member
      have whole : msg ++ b0 :: b1 :: b2 :: b3 :: rest = grown ++ rest := by simp [grown]
      rw [whole]
      rcases List.mem_cons.mp inside with rfl | later
      · exact List.mem_append_left _ member
      · exact ih.1 ba later x member
    · intro x member
      have later := ih.2 x member
      simp [later]
  | case2 msg l few =>
    unfold SerialThread.emitLoop
    split
    · exact absurd rfl (few _ _ _ _ _)
    · exact ⟨by simp,fun x member => member⟩

/-- A new answer is one to the last command that was read. -/
theorem receivedStep {a : Action} (ran : step T s a = some t) :
    ∀ x ∈ received t, x ∈ received s ∨ (x.cause = s.cause ∧ Complete s.firmware) := by
  intro x inside
  cases a with
  | execute =>
    obtain ⟨outcome,now,rfl⟩ := executeCases ran
    simp only [received,List.mem_append] at inside ⊢
    rcases inside with old | replies | new
    · exact .inl (.inl old)
    · exact .inl (.inr replies)
    · obtain ⟨byte,_,rfl⟩ := List.mem_map.mp new
      exact .inr ⟨rfl,executeComplete now⟩
  | burst n =>
    simp only [step,burst,Option.ite_none_right_eq_some,Option.some.injEq] at ran
    obtain ⟨_,rfl⟩ := ran
    obtain ⟨messages,kept⟩ := emitLoopInside [] (s.m_rxBuf ++ s.replies.take n)
    have taken : ∀ x ∈ s.m_rxBuf ++ s.replies.take n, x ∈ s.m_rxBuf ∨ x ∈ s.replies :=
      fun x member => (List.mem_append.mp member).imp id List.mem_of_mem_take
    left
    simp only [received,SerialThread.receiveFlat,List.flatten_cons,List.flatten_nil,List.append_nil,
      List.flatMap_append,List.mem_append] at inside ⊢
    rcases inside with ((old | new) | rxBuf) | later
    · exact .inl (.inl old)
    · obtain ⟨signal,member,inside⟩ := List.mem_flatMap.mp new
      obtain ⟨ba,emitted,rfl⟩ := List.mem_map.mp member
      exact (taken x (messages ba emitted x inside)).imp .inr id
    · exact (taken x (kept x rxBuf)).imp .inr id
    · exact .inr (List.mem_of_mem_drop later)
  | consume =>
    obtain ⟨b',queue,firmware,cause,events,found,_,⟨_,_,rfl⟩ | ⟨_,rfl⟩⟩ := consumeCases ran <;> exact .inl inside
  | deliver =>
    simp only [step,deliver] at ran
    split at ran <;> try contradiction
    all_goals
      rename_i found
      cases Option.some.inj ran
      left
      simp only [received,react,found,List.flatMap_cons,answersOf,List.mem_append] at inside ⊢
      tauto
  | slotWrite | arrive =>
    simp only [step,slotWrite,arrive] at ran
    split at ran <;> try contradiction
    cases Option.some.inj ran
    exact .inl inside
  | connect =>
    simp only [step,connect,Option.ite_none_right_eq_some,Option.some.injEq] at ran
    obtain ⟨_,rfl⟩ := ran
    simp only [received,List.append_nil,List.mem_append] at inside ⊢
    tauto
  | lose =>
    simp only [step,lose,Option.ite_none_right_eq_some,Option.some.injEq] at ran
    obtain ⟨_,rfl⟩ := ran
    simp only [received,List.mem_append] at inside ⊢
    exact .inl (inside.imp id List.mem_of_mem_drop)
  | writeTimeout n kept =>
    simp only [step,writeTimeout,Option.ite_none_right_eq_some,Option.some.injEq] at ran
    obtain ⟨_,rfl⟩ := ran
    exact .inl (by simpa [received,answersOf] using inside)
  | flash | fileOpen choice | transmit n | disconnect kept =>
    simp only [step,flash,fileOpen,transmit,disconnect,Option.ite_none_right_eq_some,Option.some.injEq] at ran
    obtain ⟨_,rfl⟩ := ran
    exact .inl inside

/- The firmware has read a command and is not done with it. -/
def Engaged (pc : Pc) : Prop := pc ≠ .cmdID ∧ ∀ cmdID, pc ≠ .cmdTrm cmdID

theorem engagedConsume {fw fw' : Firmware τ} {byte : UInt8} (read : CommandLoop.consume fw byte = some fw')
    (engaged : Engaged fw'.pc) : Engaged fw.pc ∨ ∃ cmdID cmdTrm, fw'.pc = .command cmdID cmdTrm := by
  unfold CommandLoop.consume at read
  split at read
  · cases Option.some.inj read; exact absurd rfl (engaged.2 _)
  · cases Option.some.inj read; exact .inr ⟨_,_,rfl⟩
  · rename_i pc
    exact .inl (by rw [pc]; simp [Engaged])
  · contradiction

/-- The cause of the answers is the write of a byte that has been on its way. -/
theorem causeStep {a : Action} (ran : step T s a = some t) (engaged : Engaged t.firmware.pc) :
    (t.cause = s.cause ∧ Engaged s.firmware.pc) ∨ ∃ b ∈ pipe s, t.cause = b.write := by
  cases a with
  | consume =>
    obtain ⟨b,queue,firmware,cause,events,found,read,⟨waits,_,rfl⟩ | ⟨kind,rfl⟩⟩ := consumeCases ran
    · rcases engagedConsume read engaged with before | command
      · exact .inl ⟨rfl,before⟩
      · exact absurd (.inl command) waits
    · rcases kind with ⟨_,_,_,_,rfl⟩ | ⟨⟨use,pc⟩,_,rfl⟩
      · refine .inr ⟨(s.part ++ [b]).headD b,?_,rfl⟩
        cases part : s.part <;> simp [pipe,part,found]
      · obtain ⟨_,_,waits⟩ := blockConsumed read pc
        exact .inl ⟨rfl,by rw [waits]; simp [Engaged]⟩
  | execute =>
    obtain ⟨outcome,now,rfl⟩ := executeCases ran
    refine .inl ⟨rfl,?_⟩
    rcases executeComplete now with ⟨cmdID,cmdTrm,pc⟩ | ⟨use,pc⟩ <;> rw [pc] <;> simp [Engaged]
  | deliver =>
    simp only [step,deliver] at ran
    split at ran <;> try contradiction
    all_goals
      cases Option.some.inj ran
      exact .inl ⟨rfl,engaged⟩
  | slotWrite | arrive =>
    simp only [step,slotWrite,arrive] at ran
    split at ran <;> try contradiction
    cases Option.some.inj ran
    exact .inl ⟨rfl,engaged⟩
  | _ =>
    simp only [step,flash,fileOpen,transmit,burst,connect,disconnect,writeTimeout,lose,Option.ite_none_right_eq_some,
      Option.some.injEq] at ran
    obtain ⟨_,rfl⟩ := ran
    exact .inl ⟨rfl,engaged⟩

end HsspProgrammer.Provenance
