import Mathlib.Data.Fin.VecNotation
import RubberOS.Model.X86

/-! # Descriptor tables

`descriptor.c` fills in the global descriptor table, the interrupt descriptor table and the task state segment. Bit
fields are packed from the lowest bit on. How the processor reads the tables is below, after what the kernel writes.
-/

namespace RubberOS.Model.X86

/-- The stubs of `interrupt.asm`. -/
inductive Isr where
  | divideByZero | debug | nmi | breakpoint | overflow | boundRangeExceeded | invalidOpcode | deviceNotAvailable
  | doubleFault | invalidTss | segmentNotPresent | stackSegmentFault | generalProtectionFault | pageFault
  | x87FloatingPoint | alignmentCheck | machineCheck | simdFloatingPoint | unknown
  | keyboard | mouse
deriving DecidableEq, Repr

/-- Whether a stub is one of `int_handler_err`. -/
def Isr.intHandlerErr : Isr → Bool
  | .doubleFault | .invalidTss | .segmentNotPresent | .stackSegmentFault | .generalProtectionFault | .pageFault
  | .alignmentCheck => true
  | _ => false

def GDT_FLAG_RW : BitVec 8 := 0x02

def GDT_FLAG_CODE : BitVec 8 := 0x08

def GDT_FLAG_TSS_AVAIL : BitVec 8 := 0x09

def GDT_FLAG_USER : BitVec 8 := 0x10

def GDT_FLAG_PRESENT : BitVec 8 := 0x80

/-- `init_gdt`: `limit_low`, `base_low`, `flags1`, `limit_high`, `flags2` and `base_high`. -/
def initGdt (base limit : BitVec 32) (flags : BitVec 8) : BitVec 64 :=
  (base >>> 24).setWidth 8 ++ (0xa : BitVec 4) ++ (limit >>> 16).setWidth 4 ++ flags ++ base.setWidth 24 ++
    limit.setWidth 16

/-- `struct idt` from `init_idt`. -/
def initIdt (segment : BitVec 16) (handler : BitVec 64) (dpl ist : BitVec 8) : BitVec 128 :=
  (0 : BitVec 32) ++ (handler >>> 32).setWidth 32 ++ (handler >>> 16).setWidth 16 ++ (1 : BitVec 1) ++ dpl.setWidth 2 ++
    (0 : BitVec 1) ++ (0xe : BitVec 4) ++ (0 : BitVec 5) ++ ist.setWidth 3 ++ segment ++ handler.setWidth 16

/-- The fields of `struct tss` that are not zero. -/
structure Tss where
  ist : Fin 7 → BitVec 64

def sizeofTss : BitVec 32 := 104

structure DescriptorTables where
  gdt : Fin 5 → BitVec 64
  idt : BitVec 8 → BitVec 128
  tssDf : Tss

/-- Where the stubs, the task state segment and the end of `df_stack` are. -/
structure Addresses where
  isr : Isr → BitVec 64
  tssDf : BitVec 64
  dfStackEnd : BitVec 64

/-- The calls of `init_idt` in `descriptor_init`, with vector, stub and `ist`. -/
def initialGates : List (BitVec 8 × Isr × BitVec 8) :=
  [(0, .divideByZero, 0), (1, .debug, 0), (2, .nmi, 0), (3, .breakpoint, 0), (4, .overflow, 0),
   (5, .boundRangeExceeded, 0), (6, .invalidOpcode, 0), (7, .deviceNotAvailable, 0), (8, .doubleFault, 1),
   (10, .invalidTss, 0), (11, .segmentNotPresent, 0), (12, .stackSegmentFault, 0), (13, .generalProtectionFault, 0),
   (14, .pageFault, 0), (16, .x87FloatingPoint, 0), (17, .alignmentCheck, 0), (18, .machineCheck, 0),
   (19, .simdFloatingPoint, 0)]

def descriptorInit (addresses : Addresses) : DescriptorTables :=
  let code := GDT_FLAG_PRESENT ||| GDT_FLAG_USER ||| GDT_FLAG_RW ||| GDT_FLAG_CODE
  let data := GDT_FLAG_PRESENT ||| GDT_FLAG_USER ||| GDT_FLAG_RW
  { gdt := ![0, initGdt 0 0xffffffff code, initGdt 0 0xffffffff data,
      initGdt (addresses.tssDf.setWidth 32) (sizeofTss - 1) (GDT_FLAG_PRESENT ||| GDT_FLAG_TSS_AVAIL),
      addresses.tssDf >>> 32]
    idt := initialGates.foldl
      (fun idt gate => Function.update idt gate.1 (initIdt 0x08 (addresses.isr gate.2.1) 0 gate.2.2))
      fun _ => initIdt 0x08 (addresses.isr .unknown) 0 0
    tssDf := ⟨fun i => if i = 0 then addresses.dfStackEnd else 0⟩ }

def interruptRegisterIsr (tables : DescriptorTables) (vector : BitVec 8) (handler : BitVec 64) : DescriptorTables :=
  { tables with idt := Function.update tables.idt vector (initIdt 0x08 handler 0 0) }

/-! ## How the processor reads them -/

/-- An interrupt or trap gate of long mode. -/
structure Gate where
  offset : BitVec 64
  selector : BitVec 16
  ist : BitVec 3
  type : BitVec 4
  dpl : BitVec 2
  present : Bool
deriving DecidableEq

def readGate (d : BitVec 128) : Gate where
  offset := d.extractLsb' 64 32 ++ d.extractLsb' 48 16 ++ d.extractLsb' 0 16
  selector := d.extractLsb' 16 16
  ist := d.extractLsb' 32 3
  type := d.extractLsb' 40 4
  dpl := d.extractLsb' 45 2
  present := d.getLsbD 47

/-- A segment descriptor. The limit is in bytes. -/
structure Segment where
  base : BitVec 32
  limit : BitVec 32
  type : BitVec 4
  system : Bool
  dpl : BitVec 2
  present : Bool
  long : Bool
deriving DecidableEq

def readSegment (d : BitVec 64) : Segment where
  base := d.extractLsb' 56 8 ++ d.extractLsb' 16 24
  limit :=
    let limit := d.extractLsb' 48 4 ++ d.extractLsb' 0 16
    -- with the granularity flag the limit counts pages
    if d.getLsbD 55 then limit ++ (0xfff : BitVec 12) else limit.setWidth 32
  type := d.extractLsb' 40 4
  system := !d.getLsbD 44
  dpl := d.extractLsb' 45 2
  present := d.getLsbD 47
  long := d.getLsbD 53

/-- The segment that a selector names. -/
def selected (tables : DescriptorTables) (selector : BitVec 16) : Option Segment :=
  let index := (selector >>> 3).toNat
  if bound : index < 5 then some (readSegment (tables.gdt ⟨index, bound⟩)) else none

/-- The stack of a gate: entry 0 stands for the current one. -/
def istStack (tss : Tss) (ist : BitVec 3) : Option (BitVec 64) :=
  if positive : 0 < ist.toNat then some (tss.ist ⟨ist.toNat - 1, by omega⟩) else none

/-- The vectors with which the processor delivers an error code. -/
def pushesErrorCode (vector : BitVec 8) : Bool := vector ∈ ([8, 10, 11, 12, 13, 14, 17, 21, 29, 30] : List (BitVec 8))

/-- The delivery of an interrupt through the tables. -/
def deliverVector (tables : DescriptorTables) (m : Machine) (vector : BitVec 8)
    (errorCode : Option (BitVec 64)) : Machine :=
  let gate := readGate (tables.idt vector)
  deliver m gate.selector gate.offset (istStack tables.tssDf gate.ist) errorCode

end RubberOS.Model.X86
