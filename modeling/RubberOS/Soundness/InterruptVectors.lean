import Mathlib.Tactic.FinCases
import RubberOS.Model.Descriptor
import RubberOS.Proofs.X86

/-! # Every vector enters its handler

What `descriptor.c` packs into the tables is what the processor unpacks, whichever handlers have been registered. The
stubs of the exceptions expect an error code just where the processor delivers one.
-/

namespace RubberOS.Soundness.InterruptVectors

open Model.X86 StackWords

/-! ## Tables that are updated one entry after the other -/

/-- The last of these updates counts. -/
private theorem foldl_update {α β : Type*} [DecidableEq α] (entries : List (α × β)) (f : α → β) (a : α) :
    entries.foldl (fun f entry => Function.update f entry.1 entry.2) f a = (entries.reverse.lookup a).getD (f a) := by
  induction entries using List.reverseRecOn with
  | nil => rfl
  | append_singleton entries last ih =>
    rw [List.foldl_concat, List.reverse_concat, List.lookup_cons, Function.update_apply, ih]
    by_cases same : a = last.1
    · rw [if_pos same, same, BEq.rfl]
      rfl
    · rw [if_neg same, beq_eq_false_iff_ne.mpr same]

private theorem lookup_map {α β γ : Type*} [BEq α] (g : β → γ) (entries : List (α × β)) (a : α) :
    (entries.map fun entry => (entry.1, g entry.2)).lookup a = (entries.lookup a).map g := by
  induction entries with
  | nil => rfl
  | cons first rest ih =>
    rw [List.map_cons, List.lookup_cons, List.lookup_cons, ih]
    split <;> rfl

private theorem mem_of_lookup {α β : Type*} [BEq α] [LawfulBEq α] {entries : List (α × β)} {a : α} {b : β}
    (found : entries.lookup a = some b) : (a, b) ∈ entries := by
  obtain ⟨before, after, split, _⟩ := List.lookup_eq_some_iff.mp found
  rw [split]
  exact List.mem_append_right _ List.mem_cons_self

/-! ## Bit fields -/

private theorem append_thirds (b : BitVec 64) :
    (b >>> 32).setWidth 32 ++ (b >>> 16).setWidth 16 ++ b.setWidth 16 = b := by
  rw [BitVec.setWidth_ushiftRight_eq_extractLsb, BitVec.setWidth_ushiftRight_eq_extractLsb,
    BitVec.setWidth_eq_extractLsb' (by decide), BitVec.extractLsb'_append_extractLsb'_eq_extractLsb' (by rfl),
    BitVec.extractLsb'_append_extractLsb'_eq_extractLsb' (by rfl)]
  exact BitVec.extractLsb'_eq_self

private theorem append_parts (n k : ℕ) (b : BitVec (n + k)) : (b >>> k).setWidth n ++ b.setWidth k = b := by
  rw [BitVec.setWidth_ushiftRight_eq_extractLsb, BitVec.setWidth_eq_extractLsb' (Nat.le_add_left k n),
    BitVec.extractLsb'_append_extractLsb'_eq_extractLsb' (Nat.zero_add k).symm]
  exact BitVec.extractLsb'_eq_self

private theorem readGate_initIdt (segment : BitVec 16) (handler : BitVec 64) (dpl ist : BitVec 8) :
    readGate (initIdt segment handler dpl ist) = ⟨handler, segment, ist.setWidth 3, 0xe, dpl.setWidth 2, true⟩ := by
  simp (disch := omega) only [readGate, initIdt, BitVec.extractLsb'_append_eq_of_le,
    BitVec.extractLsb'_append_eq_of_add_le, BitVec.extractLsb'_eq_self, Nat.reduceSub, append_thirds, Gate.mk.injEq,
    true_and, BitVec.getLsbD_append]
  simp

private theorem readSegment_initGdt (base limit : BitVec 32) (flags : BitVec 8) :
    readSegment (initGdt base limit flags) =
      ⟨base, (limit >>> 16).setWidth 4 ++ limit.setWidth 16 ++ (0xfff : BitVec 12), flags.extractLsb' 0 4,
        !flags.getLsbD 4, flags.extractLsb' 5 2, flags.getLsbD 7, true⟩ := by
  simp (disch := omega) only [readSegment, initGdt, BitVec.extractLsb'_append_eq_of_le,
    BitVec.extractLsb'_append_eq_of_add_le, BitVec.extractLsb'_eq_self, Nat.reduceSub, append_parts 8 24 base,
    Segment.mk.injEq, true_and, BitVec.getLsbD_append]
  simp

/-! ## The tables of the kernel -/

/-- The stub that `descriptor_init` puts in the table. -/
def initialIsr (vector : BitVec 8) : Isr := ((initialGates.reverse.lookup vector).map Prod.fst).getD .unknown

/-- The tables after these calls of `interrupt_register_isr`. -/
def registered (addresses : Addresses) (calls : List (BitVec 8 × BitVec 64)) : DescriptorTables :=
  calls.foldl (fun tables call => interruptRegisterIsr tables call.1 call.2) (descriptorInit addresses)

/-- The handler of a vector is the one registered last, or else the stub. -/
def handlerOf (addresses : Addresses) (calls : List (BitVec 8 × BitVec 64)) (vector : BitVec 8) : BitVec 64 :=
  (calls.reverse.lookup vector).getD (addresses.isr (initialIsr vector))

/-- The double fault has a stack of its own, as long as no other handler is registered for it. -/
def ownStack (calls : List (BitVec 8 × BitVec 64)) (vector : BitVec 8) : Bool :=
  vector = 8 ∧ (calls.reverse.lookup vector).isNone

section Tables

variable {addresses : Addresses} {calls : List (BitVec 8 × BitVec 64)} {vector : BitVec 8}

/-- Only the double fault has an entry of the task state segment. -/
private theorem initialGates_ist {stub : Isr × BitVec 8} (found : initialGates.reverse.lookup vector = some stub) :
    stub.2 = if vector = 8 then 1 else 0 := by
  have all : ∀ gate ∈ initialGates.reverse, gate.2.2 = if gate.1 = 8 then 1 else 0 := by decide
  exact all _ (mem_of_lookup found)

/-- A stub of an exception takes an error code off the stack just when the processor has put one there. -/
private theorem initialIsr_errorCode (known : initialIsr vector ≠ .unknown) :
    (initialIsr vector).intHandlerErr = pushesErrorCode vector := by
  rw [initialIsr] at known ⊢
  cases found : initialGates.reverse.lookup vector with
  | none =>
    rw [found] at known
    exact absurd rfl known
  | some stub =>
    have all : ∀ gate ∈ initialGates.reverse, gate.2.1.intHandlerErr = pushesErrorCode gate.1 := by decide
    exact all _ (mem_of_lookup found)

private theorem descriptorInit_idt (addresses : Addresses) (vector : BitVec 8) : (descriptorInit addresses).idt vector =
    initIdt 0x08 (addresses.isr (initialIsr vector)) 0 (if vector = 8 then 1 else 0) := by
  have gates : (descriptorInit addresses).idt =
      (initialGates.map fun gate => (gate.1, initIdt 0x08 (addresses.isr gate.2.1) 0 gate.2.2)).foldl
        (fun idt entry => Function.update idt entry.1 entry.2) fun _ => initIdt 0x08 (addresses.isr .unknown) 0 0 := by
    rw [List.foldl_map]
    rfl
  rw [gates, foldl_update, ← List.map_reverse,
    lookup_map fun stub : Isr × BitVec 8 => initIdt 0x08 (addresses.isr stub.1) 0 stub.2, initialIsr]
  cases found : initialGates.reverse.lookup vector with
  | none =>
    have other : vector ≠ 8 := by
      rintro rfl
      exact absurd found (by decide)
    rw [if_neg other]
    rfl
  | some stub =>
    rw [← initialGates_ist found]
    rfl

/-- Registering a handler changes the gate of its vector only. -/
private theorem registered_eq (addresses : Addresses) (calls : List (BitVec 8 × BitVec 64)) :
    registered addresses calls = { descriptorInit addresses with
      idt := (calls.map fun call => (call.1, initIdt 0x08 call.2 0 0)).foldl
        (fun idt entry => Function.update idt entry.1 entry.2) (descriptorInit addresses).idt } := by
  rw [registered]
  induction calls using List.reverseRecOn with
  | nil => rfl
  | append_singleton calls last ih =>
    rw [List.foldl_concat, ih, List.map_append, List.foldl_append]
    rfl

private theorem registered_idt (addresses : Addresses) (calls : List (BitVec 8 × BitVec 64)) (vector : BitVec 8) :
    (registered addresses calls).idt vector =
      initIdt 0x08 (handlerOf addresses calls vector) 0 (if ownStack calls vector then 1 else 0) := by
  rw [registered_eq]
  dsimp only
  rw [foldl_update, ← List.map_reverse, lookup_map fun handler => initIdt 0x08 handler 0 0, handlerOf, ownStack]
  cases calls.reverse.lookup vector with
  | none =>
    simp only [Option.map_none, Option.getD_none, Option.isNone_none, and_true, decide_eq_true_eq]
    exact descriptorInit_idt addresses vector
  | some handler => simp

private theorem readGate_registered (addresses : Addresses) (calls : List (BitVec 8 × BitVec 64)) (vector : BitVec 8) :
    readGate ((registered addresses calls).idt vector) =
      ⟨handlerOf addresses calls vector, 0x08, if ownStack calls vector then 1 else 0, 0xe, 0, true⟩ := by
  rw [registered_idt, readGate_initIdt]
  cases ownStack calls vector <;> rfl

/-- The stack on which the processor delivers the interrupt. -/
private theorem istStack_registered (addresses : Addresses) (calls : List (BitVec 8 × BitVec 64)) (vector : BitVec 8) :
    istStack (registered addresses calls).tssDf (readGate ((registered addresses calls).idt vector)).ist =
      if ownStack calls vector then some addresses.dfStackEnd else none := by
  rw [readGate_registered, registered_eq]
  cases ownStack calls vector <;> rfl

private theorem deliver_cs (m : Machine) (selector : BitVec 16) (offset : BitVec 64)
    (stack errorCode : Option (BitVec 64)) :
    (deliver m selector offset stack errorCode).seg .cs = selector := by
  unfold deliver
  dsimp only
  rw [setSeg_seg, if_pos rfl]

private theorem deliverVector_registered (m : Machine) (errorCode : Option (BitVec 64)) :
    deliverVector (registered addresses calls) m vector errorCode =
      deliver m 0x08 (handlerOf addresses calls vector)
        (if ownStack calls vector then some addresses.dfStackEnd else none) errorCode := by
  rw [deliverVector, istStack_registered, readGate_registered]

private theorem gdt_registered (addresses : Addresses) (calls : List (BitVec 8 × BitVec 64)) :
    (registered addresses calls).gdt = (descriptorInit addresses).gdt := by
  rw [registered_eq]

private theorem selected_registered (addresses : Addresses) (calls : List (BitVec 8 × BitVec 64)) (index : Fin 5) :
    selected (registered addresses calls) (BitVec.ofNat 16 (index.val * 8)) =
      some (readSegment ((descriptorInit addresses).gdt index)) := by
  rw [selected, gdt_registered]
  fin_cases index <;> rfl

/-- Whatever handlers have been registered, an interrupt of each vector enters the one registered last for it, or else
the stub of `descriptor_init`, in the 64-bit code segment of ring 0 and with interrupts disabled; the registers that
the processor pushes are on the current stack, or for a double fault at the end of `df_stack`. -/
theorem vectors_enter_handlers (addresses : Addresses) (calls : List (BitVec 8 × BitVec 64)) (vector : BitVec 8) :
    readGate ((registered addresses calls).idt vector) =
        ⟨handlerOf addresses calls vector, 0x08, if ownStack calls vector then 1 else 0, 0xe, 0, true⟩ ∧
      selected (registered addresses calls) 0x08 = some ⟨0, 0xffffffff, 0xa, false, 0, true, true⟩ ∧
      selected (registered addresses calls) 0x10 = some ⟨0, 0xffffffff, 0x2, false, 0, true, true⟩ ∧
      (∃ tss, selected (registered addresses calls) 0x18 = some tss ∧ tss.type = 0x9 ∧ tss.system ∧ tss.present ∧
        sizeofTss - 1 ≤ tss.limit ∧
        ((registered addresses calls).gdt 4).setWidth 32 ++ tss.base = addresses.tssDf) ∧
      ∀ (m : Machine) (errorCode : Option (BitVec 64)), ∃ entered,
        deliverVector (registered addresses calls) m vector errorCode = entered ∧
        entered.rip = handlerOf addresses calls vector ∧ entered.seg .cs = 0x08 ∧
        entered.rflags &&& RFLAGS_INTR = 0 ∧
        entered.reg .rsp = ((if ownStack calls vector then addresses.dfStackEnd else m.reg .rsp) &&& ~~~15) -
          BitVec.ofNat 64 (8 * (errorCode.toList.length + 5)) ∧
        Words entered.memory (entered.reg .rsp) (errorCode.toList ++ isrStackframeIretq m.toCpu) := by
  refine ⟨readGate_registered addresses calls vector, ?_, ?_, ⟨_, selected_registered addresses calls 3, ?_⟩,
    fun m errorCode => ⟨_, rfl, ?_⟩⟩
  · exact (selected_registered addresses calls 1).trans (congrArg some (readSegment_initGdt ..))
  · exact (selected_registered addresses calls 2).trans (congrArg some (readSegment_initGdt ..))
  · have segment : readSegment ((descriptorInit addresses).gdt 3) = _ := readSegment_initGdt ..
    rw [segment, gdt_registered]
    refine ⟨rfl, rfl, rfl, ?_, append_parts 32 32 addresses.tssDf⟩
    dsimp only
    decide
  · rw [deliverVector_registered]
    obtain ⟨grown, _, _, disabled⟩ := deliver_spec m 0x08 (handlerOf addresses calls vector)
      (if ownStack calls vector then some addresses.dfStackEnd else none) errorCode
    have few : errorCode.toList.length ≤ 1 := by cases errorCode <;> simp
    have length : (errorCode.toList ++ isrStackframeIretq m.toCpu).length = errorCode.toList.length + 5 := by
      rw [List.length_append]
      rfl
    have rsp := grown.rsp
    rw [length, set_reg, if_pos rfl, deliveryStack] at rsp
    have frame := grown.stacked [] (by rw [length, List.length_nil]; omega) trivial
    rw [List.append_nil] at frame
    refine ⟨rfl, deliver_cs .., disabled, ?_, frame⟩
    rw [rsp]
    cases ownStack calls vector <;> rfl

/-- An exception that has a stub of its own, and no other handler, is delivered on the stack set apart for it with the
error code that its stub takes off again: its C function gets a frame with the registers of the interrupted code, and
the registers that the frame holds when it returns are those with which the code goes on. -/
theorem exceptions_resume (status : BitVec 64 → BitVec 64 → BitVec 64) (addresses : Addresses)
    (calls : List (BitVec 8 × BitVec 64)) (vector : BitVec 8) (m : Machine) (errorCode : Option (BitVec 64))
    (fresh : vector ∉ calls.map Prod.fst) (known : initialIsr vector ≠ .unknown)
    (delivered : errorCode.isSome = pushesErrorCode vector) : ∃ entered called,
      deliverVector (registered addresses calls) m vector errorCode = entered ∧
      entered.rip = addresses.isr (initialIsr vector) ∧ run status intHandlerEntry entered = called ∧
      Words called.memory (called.reg .rdi) (isrStackframe m.toCpu errorCode) ∧
      SameAbove ((if vector = 8 then addresses.dfStackEnd else m.reg .rsp) &&& ~~~15)
        (8 * (24 + errorCode.toList.length)) m.memory called.memory ∧
      ∀ (after : Machine) (c : Cpu), after.reg .rsp = called.reg .rsp →
        Words after.memory (called.reg .rdi) (isrStackframe c errorCode) →
        run status (intHandlerExit (initialIsr vector).intHandlerErr) after = ⟨c, after.memory⟩ := by
  have unregistered : calls.reverse.lookup vector = none := by
    rw [List.lookup_eq_none_iff]
    intro call member
    rw [bne_iff_ne]
    rintro rfl
    exact fresh (List.mem_map_of_mem (List.mem_reverse.mp member))
  have handler : handlerOf addresses calls vector = addresses.isr (initialIsr vector) := by
    rw [handlerOf, unregistered]
    rfl
  have own : ownStack calls vector = decide (vector = 8) := by
    rw [ownStack, unregistered]
    simp
  refine ⟨_, _, rfl, ?_, rfl, ?_⟩
  · rw [deliverVector_registered, ← handler]
    rfl
  · rw [deliverVector_registered, initialIsr_errorCode known, ← delivered]
    obtain ⟨called, ran, rsp, rdi, frame, above, _⟩ := run_intHandlerEntry status m 0x08
      (handlerOf addresses calls vector) (if ownStack calls vector then some addresses.dfStackEnd else none) errorCode
    rw [Stacked, rsp, ← rdi] at frame
    rw [ran]
    refine ⟨frame, ?_, fun after c same words => ?_⟩
    · rw [deliveryStack, own] at above
      by_cases double : vector = 8
      · rw [if_pos double]
        rw [if_pos (decide_eq_true double)] at above
        exact above
      · rw [if_neg double]
        rw [decide_eq_false double, if_neg Bool.false_ne_true] at above
        exact above
    · apply run_intHandlerExit status after c errorCode
      rw [Stacked, same, rsp, ← rdi]
      exact words

/-- Stubs in a row, and a machine with an empty stack. -/
def sample : Addresses := ⟨fun isr => BitVec.ofNat 64 (0x1000 + 64 * isr.ctorIdx), 0x2000, 0x6000⟩

def idleMachine : Machine := ⟨⟨fun r => if r = .rsp then 0x8000 else 0, fun _ => 0, 0, 0⟩, fun _ => 0⟩

/-- A page fault, with a handler for the keyboard registered. -/
theorem exceptions_resume_page_fault : ∃ entered,
    deliverVector (registered sample [(0x21, 0x3000)]) idleMachine 14 (some 2) = entered ∧ entered.rip = 0x1340 := by
  obtain ⟨entered, _, delivered, rip, _⟩ := exceptions_resume (fun flags _ => flags) sample [(0x21, 0x3000)] 14
    idleMachine (some 2) (by decide) (by decide) (by decide)
  exact ⟨entered, delivered, rip⟩

end Tables

end RubberOS.Soundness.InterruptVectors
