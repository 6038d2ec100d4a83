import RubberOS.Model.Rbtree
import RubberOS.Proofs.Rbtree
import RubberOS.Proofs.RbtreeInsertion
import RubberOS.Proofs.RbtreeRemoval
import RubberOS.Proofs.RbtreeSuccessor
import RubberOS.Proofs.SortBytes
import RubberOS.Soundness.ArraylistBytes
import RubberOS.Soundness.ArraylistRuns
import RubberOS.Soundness.ArraylistWraps
import RubberOS.Soundness.BootTags
import RubberOS.Soundness.BuddyArithmetic
import RubberOS.Soundness.BuddyDoubleFree
import RubberOS.Soundness.BuddyMetadata
import RubberOS.Soundness.BuddyRequests
import RubberOS.Soundness.BuddyRuns
import RubberOS.Soundness.ByteComparisons
import RubberOS.Soundness.ByteMoves
import RubberOS.Soundness.DevicesApart
import RubberOS.Soundness.FigureClipping
import RubberOS.Soundness.FormatScan
import RubberOS.Soundness.FormatText
import RubberOS.Soundness.FormatterRoom
import RubberOS.Soundness.FrontBuffer
import RubberOS.Soundness.InterruptQueue
import RubberOS.Soundness.BootMemory
import RubberOS.Soundness.KeyboardModifiers
import RubberOS.Soundness.LinkedlistRings
import RubberOS.Soundness.LostDamage
import RubberOS.Soundness.MemoryMap
import RubberOS.Soundness.MmioAddresses
import RubberOS.Soundness.MmioRuns
import RubberOS.Soundness.MouseDrag
import RubberOS.Soundness.MouseFraming
import RubberOS.Soundness.MousePointer
import RubberOS.Soundness.NestedLocks
import RubberOS.Soundness.PageRelease
import RubberOS.Soundness.PageTranslations
import RubberOS.Soundness.PanicReports
import RubberOS.Soundness.RbtreeInsertion
import RubberOS.Soundness.RbtreeLookup
import RubberOS.Soundness.RbtreeRemoval
import RubberOS.Soundness.Rectangles
import RubberOS.Soundness.Repaint
import RubberOS.Soundness.SlabCapacity
import RubberOS.Soundness.SlabCorruption
import RubberOS.Soundness.SlabRuns
import RubberOS.Soundness.SlotAlignment
import RubberOS.Soundness.TablePages
import RubberOS.Soundness.TerminalRuns
import RubberOS.Soundness.TextClipping
import RubberOS.Soundness.TtyDamage
import RubberOS.Soundness.WakeUps
import RubberOS.Soundness.WindowOrder
import RubberOS.Soundness.WindowTables
import RubberOS.ToMathlib.ParentPointers
import RubberOS.ToMathlib.RedBlackDeficits
import RubberOS.ToMathlib.RedBlackTrees
import RubberOS.Model.Descriptor
import RubberOS.Proofs.X86
import RubberOS.Soundness.ContextSwitch
import RubberOS.Soundness.InterruptStubs
import RubberOS.Soundness.InterruptVectors
import RubberOS.Soundness.InterruptLines
